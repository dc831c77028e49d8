import TstMuduo.ConnHash.RbTreeFixup

/-!
# `util_rbtree_insert`

The search for the position, the links of the new node and the fix-up together insert one entry into
the order of the tree.
-/

namespace TstMuduo.ConnHash
open TstMuduo.Lib CTree Ctx

/-- The tree in memory is a red-black tree with a black root, and its keys are in order. -/
structure Valid (e : Rest) (t : CTree Entry) (s : RbTree) : Prop where
  holds : Holds e t s
  rb : ∃ m, RB t .black m
  sorted : t.inorder.Pairwise fun a b => a.key ≤ b.key

section
variable {e : Rest} {s s' : RbTree} {p q r : Ptr} {t x y : CTree Entry} {ctx up : Ctx Entry}
  {d : Dir} {c : Color} {a b : Entry} {k : Int} {n fuel : Nat}

def goesLeft (key : Int) (b : Entry) : Bool := key < b.key

theorem goesLeft_iff : goesLeft k b = true ↔ k < b.key := decide_eq_true_iff

theorem labels_node (c : Color) (l : CTree Entry) (a : Entry) (r : CTree Entry) :
    (CTree.node c l a r).labels = a ::ₘ (l.labels + r.labels) :=
  labels_mk .left c l a r

theorem Holds.node_left {l r' : CTree Entry} (h : Holds e (ctx.plug (.node c l a r')) s) :
    (s.mem a.ptr).key = a.key ∧ (s.mem a.ptr).left = ptrOf l ∧ (s.mem a.ptr).right = ptrOf r' := by
  have hcell : s.mem a.ptr = cell .left a (parentOf e.above ctx) (ptrOf l) (ptrOf r') c :=
    h.focus.2.1
  rw [hcell]
  exact ⟨rfl, rfl, rfl⟩

theorem Holds.findParent (h : Holds e (ctx.plug t) s) (hfuel : t.labels.card < fuel)
    (hy : t = .nil → p = parentOf e.above ctx) :
    s.findParent k fuel (ptrOf t) p = .ok (parentOf e.above (descend (goesLeft k) ctx t)) := by
  induction t generalizing ctx fuel p with
  | nil =>
    obtain ⟨m, rfl⟩ : ∃ m, fuel = m + 1 := ⟨fuel - 1, by omega⟩
    rw [RbTree.findParent, if_pos (by rfl), descend, hy rfl]
    rfl
  | node c l a r ihl ihr =>
    obtain ⟨m, rfl⟩ : ∃ m, fuel = m + 1 := ⟨fuel - 1, by omega⟩
    rw [labels_node, Multiset.card_cons, Multiset.card_add] at hfuel
    obtain ⟨hkey, hleft, hright⟩ := h.node_left
    rw [RbTree.findParent, if_neg (by exact a.ptr_ne_null), RbTree.load_ptrOf, ok_bind]
    have hptr : ptrOf (.node c l a r) = a.ptr := rfl
    rw [hptr, hkey, hleft, hright]
    by_cases hlt : k < a.key
    · rw [if_pos hlt, descend, if_pos (goesLeft_iff.mpr hlt)]
      have hl : Holds e ((Ctx.step .left c a r ctx).plug l) s := h
      exact ihl hl (by omega) fun _ => rfl
    · rw [if_neg hlt, descend, if_neg (mt goesLeft_iff.mp hlt)]
      have hr : Holds e ((Ctx.step .right c a l ctx).plug r) s := h
      exact ihr hr (by omega) fun _ => rfl

theorem initNode_spec (s : RbTree) (hkey : (s.mem a.ptr).key = a.key) :
    ∃ s', s.initNode a.ptr = .ok s' ∧
      s'.mem a.ptr = cell .left a (s.mem a.ptr).parent .null .null .red ∧ Keeps {a.ptr} s s' := by
  obtain ⟨s1, hs1, ha1, hkeep1⟩ := modify_spec s a (RbNode.setChild .left .null)
  obtain ⟨s2, hs2, ha2, hkeep2⟩ := modify_spec s1 a (RbNode.setChild .right .null)
  obtain ⟨s3, hs3, ha3, hkeep3⟩ := modify_spec s2 a RbNode.red
  refine ⟨s3, by rw [RbTree.initNode, hs1, ok_bind, hs2, ok_bind, hs3], ?_, ?_, ?_, ?_⟩
  · rw [ha3, ha2, ha1, cell, ← hkey]
    rfl
  · rw [hkeep3.root, hkeep2.root, hkeep1.root]
  · rw [hkeep3.size, hkeep2.size, hkeep1.size]
  · intro q hq
    rw [hkeep3.mem q hq, hkeep2.mem q hq, hkeep1.mem q hq]

/-- The new node is linked below `b`. -/
theorem Holds.attach (h : Holds e ((Ctx.step d c b x up).plug .nil) s)
    (ha : a.ptr ∉ addrs ((Ctx.step d c b x up).plug .nil)) (habove : e.above ≠ a.ptr)
    (hroot : s'.root = s.root) (hsize : s'.size = s.size)
    (hnode : s'.mem a.ptr = cell .left a b.ptr .null .null .red)
    (hparent : s'.mem b.ptr = (s.mem b.ptr).setChild d a.ptr)
    (hother : ∀ q, q ≠ a.ptr → q ≠ b.ptr → s'.mem q = s.mem q) :
    Holds e ((Ctx.step d c b x up).plug (.node .red .nil a .nil)) s' := by
  obtain ⟨hctx, -⟩ := h.focus
  obtain ⟨hnodup, -, -⟩ := h.nodup_plug
  rw [addrs_plug, addrs_nil, Multiset.add_zero] at ha
  have haddrs : addrs (.node .red .nil a .nil) = {a.ptr} := rfl
  have hab : a.ptr ≠ b.ptr := by
    intro heq
    apply ha
    rw [heq, addrsAround_step]
    exact Multiset.mem_cons_self _ _
  have hout : ∀ q, q ∉ addrs ((Ctx.step d c b x up).plug (.node .red .nil a .nil)) ↔
      q ∉ addrs ((Ctx.step d c b x up).plug .nil) ∧ q ≠ a.ptr := by
    intro q
    rw [addrs_plug, addrs_plug, haddrs, addrs_nil, Multiset.add_zero, Multiset.mem_add, not_or,
      Multiset.mem_singleton]
  exact {
    root := by
      rw [hroot, h.root, ptrOf_plug, ptrOf_plug]
      rfl
    size := hsize.trans h.size
    rep := by
      refine rep_plug.mpr ⟨?_, hnode, trivial, trivial⟩
      apply hctx.refill hnodup hparent
      intro q hq hqb
      exact hother q (ne_of_mem_of_not_mem hq ha) hqb
    nodup := by
      rw [addrs_plug, haddrs, Multiset.nodup_add]
      refine ⟨hnodup, Multiset.nodup_singleton _, Multiset.disjoint_right.mpr ?_⟩
      intro q hq
      rw [Multiset.mem_singleton.mp hq]
      exact ha
    other := by
      intro q hq
      obtain ⟨hq, hqa⟩ := (hout q).mp hq
      rw [← h.other q hq]
      apply hother q hqa
      intro hqb
      apply hq
      rw [hqb, addrs_plug, addrsAround_step, Multiset.cons_add]
      exact Multiset.mem_cons_self _ _
    above_ne := h.above_ne
    above_out := (hout _).mpr ⟨h.above_out, habove⟩
    above_black := h.above_black
    null_black := h.null_black }

theorem Holds.link_nil (h : Holds e .nil s) (hkey : (s.mem a.ptr).key = a.key) :
    ∃ s1 s2, s.link fuel a.ptr = .ok s1 ∧ s1.initNode a.ptr = .ok s2 ∧
      Holds { e with above := .null } (.node .red .nil a .nil) s2 := by
  have hroot : s.root = .null := h.root
  obtain ⟨s1, hs1, ha1, hkeep1⟩ := modify_spec { s with root := a.ptr } a (RbNode.setParent .null)
  have hkey1 : (s1.mem a.ptr).key = a.key := by
    rw [ha1]
    exact hkey
  obtain ⟨s2, hs2, ha2, hkeep2⟩ := initNode_spec s1 hkey1
  refine ⟨s1, s2, ?_, hs2, ?_⟩
  · rw [RbTree.link, if_pos hroot]
    exact hs1
  · exact {
      root := hkeep2.root.trans hkeep1.root
      size := by rw [hkeep2.size, hkeep1.size, ← h.size]
      rep := by
        refine ⟨?_, trivial, trivial⟩
        rw [ha2, ha1]
        rfl
      nodup := Multiset.nodup_singleton a.ptr
      other := by
        intro q hq
        rw [hkeep2.mem q hq, hkeep1.mem q hq]
        exact h.other q (Multiset.notMem_zero q)
      above_ne := Ptr.noConfusion
      above_out := null_notMem_addrs _
      above_black := h.null_black
      null_black := h.null_black }

/-- Every other node is linked at the end of the search. -/
theorem Holds.link (h : Holds e t s) (ht : t ≠ .nil) (ha : a.ptr ∉ addrs t)
    (habove : e.above ≠ a.ptr) (hkey : (s.mem a.ptr).key = a.key)
    (hfuel : t.labels.card < fuel) :
    ∃ s1 s2, s.link fuel a.ptr = .ok s1 ∧ s1.initNode a.ptr = .ok s2 ∧
      Holds e ((descend (goesLeft a.key) .top t).plug (.node .red .nil a .nil)) s2 := by
  have htop : Holds e (Ctx.top.plug t) s := h
  have hfind := htop.findParent (p := .NULL) (k := a.key) hfuel fun hnil => absurd hnil ht
  have hplug := plug_descend (goesLeft a.key) .top t
  obtain ⟨d, c, b, x, up, hstep, hd⟩ := descend_eq_step (goesLeft a.key) .top ht
  rw [hstep] at hfind hplug ⊢
  have h' : Holds e ((Ctx.step d c b x up).plug .nil) s := by
    rw [hplug]
    exact h
  have ha' : a.ptr ∉ addrs ((Ctx.step d c b x up).plug .nil) := by
    rw [hplug]
    exact ha
  have hb : Holds e (up.plug (CTree.mk d c .nil b x)) s := h'
  have hba : b.ptr ≠ a.ptr := by
    intro heq
    apply ha'
    rw [← heq, addrs_plug, addrsAround_step, Multiset.cons_add]
    exact Multiset.mem_cons_self _ _
  -- the parent of the new node, the child of its parent, and the rest of the new node
  obtain ⟨s1, hs1, ha1, hkeep1⟩ := modify_spec s a (RbNode.setParent b.ptr)
  have hkeyb : (s1.mem b.ptr).key = b.key := by rw [hkeep1.of_ne hba, hb.cell_eq, cell_key]
  obtain ⟨s2, hs2, hb2, hkeep2⟩ := modify_spec s1 b (RbNode.setChild d a.ptr)
  have ha2 := hkeep2.of_ne hba.symm
  have hkey2 : (s2.mem a.ptr).key = a.key := by
    rw [ha2, ha1]
    exact hkey
  obtain ⟨s3, hs3, ha3, hkeep3⟩ := initNode_spec s2 hkey2
  refine ⟨s2, s3, ?_, hs3, h'.attach ha' habove ?_ ?_ ?_ ?_ ?_⟩
  · have hroot : s.root ≠ .null := by
      rw [h.root, Ne, ptrOf_eq_null]
      exact ht
    have hchild : (if a.key < b.key then s1.modify b.ptr (RbNode.setChild .left a.ptr)
        else s1.modify b.ptr (RbNode.setChild .right a.ptr)) = .ok s2 := by
      rw [← hs2, hd]
      by_cases hlt : a.key < b.key
      · rw [if_pos hlt, if_pos (goesLeft_iff.mpr hlt)]
      · rw [if_neg hlt, if_neg (mt goesLeft_iff.mp hlt)]
    rw [RbTree.link, if_neg hroot, h.root]
    simp only [RbTree.load_ptr, ok_bind, hkey, hfind, parentOf, hs1, hkeyb, hchild]
  · rw [hkeep3.root, hkeep2.root, hkeep1.root]
  · rw [hkeep3.size, hkeep2.size, hkeep1.size]
  · rw [ha3, ha2, ha1]
    rfl
  · rw [hkeep3.of_ne hba, hb2, hkeep1.of_ne hba]
  · intro q hqa hqb
    rw [hkeep3.of_ne hqa, hkeep2.of_ne hqb, hkeep1.of_ne hqa]

theorem sorted_descend (h : t.inorder.Pairwise fun a b => a.key ≤ b.key) :
    ((descend (goesLeft a.key) .top t).plug (.node .red .nil a .nil)).inorder.Pairwise
      fun a b => a.key ≤ b.key := by
  have hplug : _ = t := plug_descend (goesLeft a.key) .top t
  have hmono : (Ctx.top.plug t).inorder.Pairwise fun b b' =>
      goesLeft a.key b = true → goesLeft a.key b' = true := by
    apply h.imp
    intro b b' hle hlt
    rw [goesLeft_iff] at *
    exact Int.lt_of_lt_of_le hlt hle
  obtain ⟨hbefore, hafter⟩ := descend_between hmono (fun b hb => absurd hb List.not_mem_nil)
    fun b hb => absurd hb List.not_mem_nil
  rw [← hplug, inorder_plug] at h
  rw [inorder_plug]
  obtain ⟨h1, h2, h12⟩ := List.pairwise_append.mp h
  refine List.pairwise_append.mpr ⟨h1, List.pairwise_cons.mpr ⟨fun b hb => ?_, h2⟩, ?_⟩
  · exact Int.le_of_lt (goesLeft_iff.mp (hafter b hb))
  · intro b hb b' hb'
    rcases List.mem_cons.mp hb' with rfl | hb'
    · exact Int.not_lt.mp (mt goesLeft_iff.mpr (Bool.eq_false_iff.mp (hbefore b hb)))
    · exact h12 b hb b' hb'

/-- `util_rbtree_insert` adds the entry of the node. The parent of the root stays as it is, or it is
the sentinel if the node is the first one. -/
theorem Valid.insert (h : Valid e t s) (ha : a.ptr ∉ addrs t) (habove : e.above ≠ a.ptr)
    (hkey : (s.mem a.ptr).key = a.key) (hfuel : t.labels.card + 2 ≤ fuel) :
    ∃ s' t' q, s.insert fuel a.ptr = .ok s' ∧ (q = e.above ∨ q = .null) ∧
      Valid ⟨e.mem, q, e.size + 1⟩ t' s' ∧ t'.labels = a ::ₘ t.labels := by
  have hplug : (descend (goesLeft a.key) .top t).plug .nil = t := plug_descend _ .top t
  have hlinked : ∃ s1 s2 q, s.link fuel a.ptr = .ok s1 ∧ s1.initNode a.ptr = .ok s2 ∧
      (q = e.above ∨ q = .null) ∧ Holds { e with above := q }
        ((descend (goesLeft a.key) .top t).plug (.node .red .nil a .nil)) s2 := by
    by_cases ht : t = .nil
    · subst ht
      obtain ⟨s1, s2, hs1, hs2, h2⟩ := h.holds.link_nil hkey
      exact ⟨s1, s2, .null, hs1, hs2, .inr rfl, h2⟩
    · obtain ⟨s1, s2, hs1, hs2, h2⟩ := h.holds.link ht ha habove hkey
        (show t.labels.card < fuel by omega)
      exact ⟨s1, s2, e.above, hs1, hs2, .inl rfl, h2⟩
  obtain ⟨s1, s2, q, hs1, hs2, hq, h2⟩ := hlinked
  have hsorted := sorted_descend (a := a) h.sorted
  generalize descend (goesLeft a.key) .top t = ctx at hplug h2 hsorted
  obtain ⟨m, hrb⟩ := h.rb
  rw [← hplug] at hrb
  obtain ⟨c, n, hnil, hctx⟩ := hrb.split
  cases hnil
  have hdepth : ctx.depth + 2 ≤ fuel := by
    have hle := ctx.depth_le
    rw [← hplug, labels_plug, labels_nil, Multiset.add_zero] at hfuel
    omega
  obtain ⟨s3, hs3, h3⟩ := h2.insertFixup hctx (.red .nil .nil) hdepth
  have hin : ((insertFix ctx (.node .red .nil a .nil)).paint .black).inorder =
      (ctx.plug (.node .red .nil a .nil)).inorder := by rw [inorder_paint, inorder_insertFix]
  refine ⟨{ s3 with size := s3.size + 1 }, (insertFix ctx (.node .red .nil a .nil)).paint .black, q,
    ?_, hq, ⟨?_, hctx.insertFix (.red .nil .nil), ?_⟩, ?_⟩
  · rw [RbTree.insert, if_neg (fun h => h.elim Ptr.noConfusion Ptr.noConfusion), hs1, ok_bind, hs2,
      ok_bind]
    have hs3 : s2.insertFixup fuel a.ptr = .ok s3 := hs3
    rw [hs3]
    rfl
  · rw [h3.size]
    exact h3.withSize _
  · rw [hin]
    exact hsorted
  · have hlabels : ((insertFix ctx (.node .red .nil a .nil)).paint .black).labels =
        (ctx.plug (.node .red .nil a .nil)).labels := congrArg Multiset.ofList hin
    rw [hlabels, labels_plug, labels_node, ← hplug, labels_plug, Multiset.add_cons]
    rfl

end

end TstMuduo.ConnHash
