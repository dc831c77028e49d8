import TstMuduo.ConnHash.RbTreeInsert

/-!
# `util_rbtree_delete`

A node with at most one child is taken from its position; a node with two children is replaced by
the next one in the order, which is taken from its own position first. The root with one child is
taken away without the fix-up, and without a new parent for that child.
-/

namespace TstMuduo.ConnHash
open TstMuduo.Lib CTree Ctx

section
variable {e : Rest} {s s' : RbTree} {p q r : Ptr} {t x y : CTree Entry} {ctx up : Ctx Entry}
  {d d' : Dir} {c c' : Color} {a b g : Entry} {n fuel : Nat}

theorem setParent_spec (h : ∃ q, Rep s.mem q t) (hnodup : (addrs t).Nodup) (p : Ptr) :
    ∃ s', s.modify (ptrOf t) (RbNode.setParent p) = .ok s' ∧ Rep s'.mem p t ∧
      (s'.mem (ptrOf t)).parent = p ∧ (s'.mem .null).color = (s.mem .null).color ∧
      Keeps (.null ::ₘ addrs t) s s' := by
  by_cases ht : t = .nil
  · subst ht
    refine ⟨_, rfl, trivial, ?_, ?_, rfl, rfl, fun q hq => ?_⟩
    · dsimp only [ptrOf]
      rw [Function.update_self]
      rfl
    · dsimp only [ptrOf]
      rw [Function.update_self]
      rfl
    · rw [Multiset.mem_cons, not_or] at hq
      exact Function.update_of_ne hq.1 _ _
  · obtain ⟨s', hs', hrep, hkeep⟩ := reparent_spec h hnodup p
    rw [RbTree.reparent, if_pos (by rw [Ne, ptrOf_eq_null]; exact ht)] at hs'
    refine ⟨s', hs', hrep, ?_, ?_, hkeep.root, hkeep.size, fun q hq => ?_⟩
    · obtain ⟨c, x, a, y, rfl⟩ := eq_mk .left ht
      rw [ptrOf_mk, (rep_mk.mp hrep).1, cell_parent]
    · rw [hkeep.mem _ (null_notMem_addrs _)]
    · rw [Multiset.mem_cons, not_or] at hq
      exact hkeep.mem q hq.2

/-- `temp` is taken from its position. -/
theorem unlink_spec {temp : Entry} (htop : ctx ≠ .top) (hctx : RepCtx s.mem r ctx temp.ptr)
    (hparent : (s.mem temp.ptr).parent = parentOf r ctx) (hrep : ∃ q, Rep s.mem q t)
    (hnctx : (addrsAround ctx).Nodup) (hnt : (addrs t).Nodup)
    (htctx : temp.ptr ∉ addrsAround ctx) (htt : temp.ptr ∉ addrs t)
    (hdisj : ∀ q ∈ addrsAround ctx, q ∉ addrs t) (node : Ptr) :
    ∃ s', s.unlink node temp.ptr (ptrOf t) = .ok s' ∧ RepCtx s'.mem r ctx (ptrOf t) ∧
      Rep s'.mem (if parentOf r ctx = node then temp.ptr else parentOf r ctx) t ∧
      (s'.mem (ptrOf t)).parent = (if parentOf r ctx = node then temp.ptr else parentOf r ctx) ∧
      (∀ q, q ∉ addrsAround ctx → q ∉ addrs t → (s'.mem q).color = (s.mem q).color) ∧
      Keeps (.null ::ₘ (addrsAround ctx + addrs t)) s s' := by
  cases ctx with
  | top => exact absurd rfl htop
  | step d c b x up =>
    obtain ⟨s1, hs1, hrep1, hparent1, hnull1, hkeep1⟩ := setParent_spec hrep hnt
      (if b.ptr = node then temp.ptr else b.ptr)
    have hout1 : ∀ {q}, q ≠ .null → q ∉ addrs t → s1.mem q = s.mem q := by
      intro q hq hqt
      apply hkeep1.mem
      rw [Multiset.mem_cons, not_or]
      exact ⟨hq, hqt⟩
    have hne : ∀ {q}, q ∈ addrsAround (.step d c b x up) → q ≠ .null :=
      fun hq => ne_of_mem_of_not_mem hq (null_notMem_around _)
    have hb : b.ptr ∈ addrsAround (.step d c b x up) := by
      rw [addrsAround_step]
      exact Multiset.mem_cons_self _ _
    have hctx1 : RepCtx s1.mem r (.step d c b x up) temp.ptr :=
      hctx.congr fun q hq => hout1 (hne hq) (hdisj q hq)
    obtain ⟨s2, hs2, hb2, hkeep2⟩ := modify_spec s1 b (RbNode.setChild d (ptrOf t))
    refine ⟨s2, ?_, hctx1.refill hnctx hb2 fun q _ hq => hkeep2.of_ne hq, ?_, ?_, ?_, ?_, ?_, ?_⟩
    · have hload : (s1.mem temp.ptr).parent = b.ptr := by
        rw [hout1 temp.ptr_ne_null htt, hparent]
        rfl
      rw [RbTree.unlink, RbTree.load_ptr, ok_bind, hparent]
      dsimp only [parentOf]
      rw [hs1, ok_bind, RbTree.load_ptr, ok_bind, hload, hctx1.relink htctx temp.ptr_ne_null, hs2]
    · exact hrep1.congr fun q hq => hkeep2.of_ne fun heq => hdisj _ hb (heq ▸ hq)
    · rw [hkeep2.of_ne, hparent1]
      · rfl
      · intro heq
        by_cases ht : t = .nil
        · rw [ht] at heq
          exact b.ptr_ne_null heq.symm
        · exact hdisj _ hb (heq ▸ ptrOf_mem ht)
    · intro q hq hqt
      rw [hkeep2.of_ne fun heq => hq (by rw [heq]; exact hb)]
      by_cases hnull : q = .null
      · rw [hnull, hnull1]
      · rw [hout1 hnull hqt]
    · rw [hkeep2.root, hkeep1.root]
    · rw [hkeep2.size, hkeep1.size]
    · intro q hq
      rw [Multiset.mem_cons, Multiset.mem_add, not_or, not_or] at hq
      rw [hkeep2.of_ne fun heq => hq.2.1 (by rw [heq]; exact hb), hout1 hq.1 hq.2.2]

theorem holds_self (s : RbTree) (r : Ptr) (ctx : Ctx Entry) (t : CTree Entry)
    (hroot : s.root = topOf ctx (ptrOf t)) (hctx : RepCtx s.mem r ctx (ptrOf t))
    (hrep : Rep s.mem (parentOf r ctx) t) (hnodup : (addrs (ctx.plug t)).Nodup) (hr : r ≠ .NULL)
    (hout : r ∉ addrs (ctx.plug t)) (habove : (s.mem r).color = 1)
    (hnull : (s.mem .null).color = 1) : Holds ⟨s.mem, r, s.size⟩ (ctx.plug t) s where
  root := by rw [hroot, ptrOf_plug]
  size := rfl
  rep := rep_plug.mpr ⟨hctx, hrep⟩
  nodup := hnodup
  other := fun _ _ => rfl
  above_ne := hr
  above_out := hout
  above_black := habove
  null_black := hnull

theorem Holds.finish (h : Holds e (ctx.plug t) s) (hrb : RB (CTree.mk d c .nil b t) c' n)
    (hctx : RBCtx ctx c' n)
    (hnull : t = .nil → ctx ≠ .top ∧ (e.mem .null).parent = parentOf e.above ctx)
    (hfuel : ctx.depth + 2 ≤ fuel) :
    ∃ s' t', (if decide (c = .black) = true then s.deleteFixup fuel (ptrOf t) else pure s) =
        .ok s' ∧ Holds e t' s' ∧ (∃ m, RB t' .black m) ∧ t'.inorder = (ctx.plug t).inorder := by
  rcases hrb.remove hctx with ⟨rfl, hbal⟩ | ⟨rfl, m, cx, hctx, ht⟩
  · exact ⟨s, _, rfl, h, hbal, rfl⟩
  · obtain ⟨s', hs', h'⟩ := h.deleteFixup hctx ht.lacks hnull hfuel
    exact ⟨s', _, hs', h', hctx.deleteFix ht.lacks, inorder_deleteFix ctx t⟩

theorem Holds.chooseTemp_self (h : Holds e (ctx.plug (CTree.mk d c .nil a t)) s) :
    s.chooseTemp fuel a.ptr = .ok (a.ptr, ptrOf t) := by
  have hcell := h.cell_eq
  rw [RbTree.chooseTemp, RbTree.load_ptr, ok_bind]
  cases d with
  | left =>
    rw [if_pos (by rw [hcell]; rfl), hcell]
    rfl
  | right =>
    by_cases ht : t = .nil
    · rw [ht] at hcell ⊢
      rw [if_pos (by rw [hcell]; rfl), hcell]
      rfl
    · have hleft : (s.mem a.ptr).left = ptrOf t := by rw [hcell]; rfl
      rw [if_neg (by rw [hleft, ptrOf_eq_null]; exact ht), if_pos (by rw [hcell]; rfl), hleft]
      rfl

theorem exists_leftmost (ht : t ≠ .nil) : ∃ inner cy y ry,
    t = Ctx.plug inner (.node cy .nil y ry) ∧ inner.before = [] ∧
    ∀ (e : Rest) (ctx : Ctx Entry) (s : RbTree) (fuel : Nat), Holds e (ctx.plug t) s →
      t.labels.card ≤ fuel →
      s.leftmost fuel (ptrOf t) = .ok y.ptr := by
  induction t with
  | nil => exact absurd rfl ht
  | node c l a r ihl _ =>
    by_cases hl : l = .nil
    · refine ⟨.top, c, a, r, by rw [hl]; rfl, rfl, ?_⟩
      intro e ctx s fuel h hfuel
      rw [labels_node, Multiset.card_cons] at hfuel
      obtain ⟨k, rfl⟩ : ∃ k, fuel = k + 1 := ⟨fuel - 1, by omega⟩
      rw [RbTree.leftmost, RbTree.load_ptrOf, ok_bind]
      have hptr : ptrOf (.node c l a r) = a.ptr := rfl
      rw [hptr, h.node_left.2.1, hl]
      rfl
    · obtain ⟨inner, cy, y, ry, heq, hbefore, hcode⟩ := ihl hl
      refine ⟨inner.append (.step .left c a r .top), cy, y, ry, ?_, ?_, ?_⟩
      · rw [plug_append, ← heq]
        rfl
      · rw [before_append, hbefore]
        rfl
      · intro e ctx s fuel h hfuel
        rw [labels_node, Multiset.card_cons, Multiset.card_add] at hfuel
        obtain ⟨k, rfl⟩ : ∃ k, fuel = k + 1 := ⟨fuel - 1, by omega⟩
        rw [RbTree.leftmost, RbTree.load_ptrOf, ok_bind]
        have hptr : ptrOf (.node c l a r) = a.ptr := rfl
        rw [hptr, h.node_left.2.1, if_pos (by rw [Ne, ptrOf_eq_null]; exact hl)]
        have hnear : Holds e ((Ctx.step .left c a r ctx).plug l) s := h
        exact hcode e _ s k hnear (by omega)

theorem Holds.clear (h : Holds e t s) (ha : a.ptr ∉ addrs t) :
    ∃ s', s.modify a.ptr RbNode.clear = .ok s' ∧ Holds { e with mem := s'.mem } t s' ∧
      s'.mem .null = s.mem .null := by
  obtain ⟨s', hs', ha', hkeep⟩ := modify_spec s a RbNode.clear
  have hcolor : ∀ q, (s'.mem q).color = (s.mem q).color := by
    intro q
    by_cases hq : q = a.ptr
    · rw [hq, ha']
      rfl
    · rw [hkeep.of_ne hq]
  refine ⟨s', hs', ?_, hkeep.of_ne a.ptr_ne_null.symm⟩
  exact {
    root := hkeep.root.trans h.root
    size := hkeep.size.trans h.size
    rep := h.rep.congr fun q hq => hkeep.of_ne (ne_of_mem_of_not_mem hq ha)
    nodup := h.nodup
    other := fun _ _ => rfl
    above_ne := h.above_ne
    above_out := h.above_out
    above_black := (hcolor _).trans h.above_color
    null_black := (hcolor _).trans h.null_color }

/-- What a deletion leaves: the entry is gone from the order, and the rest has changed. -/
structure Deleted (e : Rest) (t : CTree Entry) (a : Entry) (e' : Rest) (t' : CTree Entry)
    (s' : RbTree) : Prop where
  holds : Holds e' t' s'
  rb : ∃ m, RB t' .black m
  order : ∃ xs ys, t.inorder = xs ++ a :: ys ∧ t'.inorder = xs ++ ys
  size : e'.size = e.size - 1

theorem order_remove (ctx : Ctx Entry) (d : Dir) (c : Color) (a : Entry) (t : CTree Entry) :
    ∃ xs ys, (ctx.plug (mk d c .nil a t)).inorder = xs ++ a :: ys ∧
      (ctx.plug t).inorder = xs ++ ys := by
  rw [inorder_plug, inorder_plug]
  cases d with
  | left => exact ⟨ctx.before, t.inorder ++ ctx.after, rfl, rfl⟩
  | right =>
    refine ⟨ctx.before ++ t.inorder, ctx.after, ?_, (List.append_assoc ..).symm⟩
    simp only [mk, inorder, List.append_assoc, List.cons_append, List.nil_append]

/-- The root with at most one child: the child takes its place and keeps it as its parent. -/
theorem Holds.delete_root (h : Holds e (CTree.mk d .black .nil a t) s) (hrb : RB t c n)
    (fuel : Nat) :
    ∃ s' e' t', s.delete fuel a.ptr = .ok s' ∧ Deleted e (CTree.mk d .black .nil a t) a e' t' s' ∧
      (t = .nil → e'.above = .null) ∧ (t ≠ .nil → e'.above = a.ptr) := by
  have h0 : Holds { e with size := s.size - 1 } (Ctx.top.plug (CTree.mk d .black .nil a t))
    { s with size := s.size - 1 } := h.withSize _
  have hroot : s.root = a.ptr := by
    rw [h.root, ptrOf_mk]
  have hnodup := h.nodup
  simp only [addrs_mk, addrs_nil, Multiset.zero_add, Multiset.nodup_cons] at hnodup
  obtain ⟨hat, hnt⟩ := hnodup
  have hrep := rep_mk.mp h.rep
  -- the child becomes the root and black
  have hchild : ∃ s2 e2, ({ s with root := ptrOf t, size := s.size - 1 } : RbTree).modify (ptrOf t)
      RbNode.black = .ok s2 ∧ Holds e2 (t.paint .black) s2 ∧ e2.size = s.size - 1 ∧
      (t = .nil → e2.above = .null) ∧ (t ≠ .nil → e2.above = a.ptr) := by
    by_cases ht : t = .nil
    · subst ht
      have hblack : ((Function.update s.mem .null (s.mem .null).black) .null).color = 1 := by
        rw [Function.update_self]
        rfl
      have h1 : Holds ⟨_, .null, s.size - 1⟩ (Ctx.top.plug .nil)
          ⟨.null, s.size - 1, Function.update s.mem .null (s.mem .null).black⟩ :=
        holds_self ⟨.null, s.size - 1, Function.update s.mem .null (s.mem .null).black⟩ .null .top
          .nil rfl trivial trivial Multiset.nodup_zero Ptr.noConfusion (Multiset.notMem_zero _)
          hblack
          hblack
      exact ⟨_, _, rfl, h1, rfl, fun _ => rfl, fun hne => absurd rfl hne⟩
    · have hcolor : (s.mem a.ptr).color = 1 := by
        rw [hrep.1, cell_color]
        rfl
      have h1 : Holds ⟨s.mem, a.ptr, s.size - 1⟩ (Ctx.top.plug t)
          { s with root := ptrOf t, size := s.size - 1 } :=
        holds_self { s with root := ptrOf t, size := s.size - 1 } a.ptr .top t rfl trivial hrep.2.2
          hnt Ptr.noConfusion hat hcolor h.null_color
      obtain ⟨s2, hs2, h2⟩ := h1.paintBlack ht
      exact ⟨s2, _, hs2, h2, rfl, fun hnil => absurd hnil ht, fun _ => rfl⟩
  obtain ⟨s2, e2, hs2, h2, hsize, hq⟩ := hchild
  obtain ⟨s3, hs3, h3, -⟩ := h2.clear (by rw [addrs_paint]; exact hat)
  refine ⟨s3, _, _, ?_, ⟨h3, ?_, ?_, ?_⟩, hq⟩
  · rw [RbTree.delete, if_neg (fun h => h.elim Ptr.noConfusion Ptr.noConfusion)]
    dsimp only
    rw [h0.chooseTemp_self, ok_bind]
    dsimp only
    rw [if_pos hroot.symm, hs2, ok_bind, hs3]
  · cases c with
    | red => exact ⟨_, hrb.paint_red⟩
    | black =>
      rw [hrb.paint_black]
      exact ⟨_, hrb⟩
  · rw [inorder_paint]
    exact order_remove .top d .black a t
  · rw [← h.size]
    exact hsize

/-- A node with at most one child below the root. -/
theorem Holds.delete_one (h : Holds e ((Ctx.step d c b x up).plug (CTree.mk d' c' .nil a t)) s)
    (hrb : ∃ m, RB ((Ctx.step d c b x up).plug (CTree.mk d' c' .nil a t)) .black m)
    (hfuel : ((Ctx.step d c b x up).plug (CTree.mk d' c' .nil a t)).labels.card + 2 ≤ fuel) :
    ∃ s' e' t', s.delete fuel a.ptr = .ok s' ∧
      Deleted e ((Ctx.step d c b x up).plug (CTree.mk d' c' .nil a t)) a e' t' s' ∧
      e'.above = e.above := by
  have h0 := h.withSize (s.size - 1)
  obtain ⟨hnctx, hnodup, hdisj⟩ := h.nodup_plug
  obtain ⟨hctx, hrep⟩ := h.focus
  obtain ⟨hcell, -, hrept⟩ := rep_mk.mp hrep
  simp only [addrs_mk, addrs_nil, Multiset.zero_add, Multiset.nodup_cons] at hnodup
  simp only [addrs_mk, addrs_nil, Multiset.zero_add, Multiset.mem_cons, not_or] at hdisj
  obtain ⟨hat, hnt⟩ := hnodup
  have hactx : a.ptr ∉ addrsAround (.step d c b x up) := fun hq => (hdisj _ hq).1 rfl
  have hba : b.ptr ≠ a.ptr := by
    apply ne_of_mem_of_not_mem _ hactx
    rw [addrsAround_step]
    exact Multiset.mem_cons_self _ _
  have habove : e.above ∉ addrs ((Ctx.step d c b x up).plug t) ∧ e.above ≠ a.ptr := by
    have hout := h.above_out
    simp only [addrs_plug, addrs_mk, addrs_nil, Multiset.zero_add, Multiset.mem_add,
      Multiset.mem_cons, not_or] at hout
    rw [addrs_plug, Multiset.mem_add, not_or]
    exact ⟨⟨hout.1, hout.2.2⟩, hout.2.1⟩
  have hnodup : (addrs ((Ctx.step d c b x up).plug t)).Nodup := by
    rw [addrs_plug, Multiset.nodup_add]
    exact ⟨hnctx, hnt, Multiset.disjoint_left.mpr fun hq => (hdisj _ hq).2⟩
  have hroot : a.ptr ≠ s.root := by
    have hroot := h.root
    rw [ptrOf_plug, ptrOf_mk] at hroot
    rw [hroot]
    exact (ne_of_mem_of_not_mem topOf_mem hactx).symm
  have hstep : Ctx.step d c b x up ≠ .top := fun h => by cases h
  -- the child is linked to the parent
  obtain ⟨s1, hs1, hctx1, hrep1, hparent1, hcolor1, hkeep1⟩ := unlink_spec
    (s := { s with size := s.size - 1 }) hstep (by rw [← ptrOf_mk]; exact hctx)
    (by rw [hcell, cell_parent]) ⟨_, hrept⟩ hnctx hnt hactx hat (fun q hq => (hdisj q hq).2)
    a.ptr
  rw [parentOf, if_neg hba] at hrep1 hparent1
  have h1 : Holds ⟨s1.mem, e.above, s1.size⟩ ((Ctx.step d c b x up).plug t) s1 := by
    have hout := habove.1
    rw [addrs_plug, Multiset.mem_add, not_or] at hout
    apply holds_self s1 e.above _ t _ hctx1 hrep1 hnodup h.above_ne habove.1
    · exact (hcolor1 _ hout.1 hout.2).trans h.above_color
    · exact (hcolor1 _ (null_notMem_around _) (null_notMem_addrs _)).trans
        h.null_color
    · have hroot := h.root
      rw [ptrOf_plug] at hroot
      exact hkeep1.root.trans hroot
  have hat' : a.ptr ∉ addrs ((Ctx.step d c b x up).plug t) := by
    rw [addrs_plug, Multiset.mem_add, not_or]
    exact ⟨hactx, hat⟩
  obtain ⟨s2, hs2, h2, hnull2⟩ := h1.clear hat'
  -- the fix-up
  obtain ⟨m, hrb⟩ := hrb
  obtain ⟨cc, n, hrba, hrbctx⟩ := hrb.split
  have hdepth : (Ctx.step d c b x up).depth + 2 ≤ fuel := by
    have hle := (Ctx.step d c b x up).depth_le
    rw [labels_plug, Multiset.card_add] at hfuel
    omega
  have hsentinel : t = .nil → Ctx.step d c b x up ≠ .top ∧ (s2.mem .null).parent = b.ptr := by
    intro ht
    rw [hnull2, ← hparent1, ht]
    exact ⟨hstep, rfl⟩
  obtain ⟨s3, t', hs3, h3, hrb3, horder⟩ := h2.finish hrba hrbctx hsentinel hdepth
  refine ⟨s3, _, t', ?_, ⟨h3, hrb3, ?_, ?_⟩, rfl⟩
  · have hblack : (s.mem a.ptr).isblack = decide (c' = .black) := by
      rw [hcell]
      exact isblack_eq (cell_color ..)
    rw [RbTree.delete, if_neg (fun h => h.elim Ptr.noConfusion Ptr.noConfusion)]
    dsimp only
    rw [h0.chooseTemp_self, ok_bind]
    dsimp only
    rw [if_neg hroot, RbTree.load_ptr, ok_bind]
    dsimp only
    rw [hs1, ok_bind, if_neg (not_not.mpr rfl), pure_bind, hs2, ok_bind, hblack]
    exact hs3
  · rw [horder]
    exact order_remove _ d' c' a t
  · rw [← h.size]
    exact hkeep1.size

/-- `g` takes the place of `a`, with its parent, children and colour. -/
theorem takePlace_spec {l : CTree Entry} (hroot : s.root = topOf ctx a.ptr)
    (hctx : RepCtx s.mem r ctx a.ptr)
    (ha : s.mem a.ptr = cell .left a (parentOf r ctx) (ptrOf l) (ptrOf x) c)
    (hkey : (s.mem g.ptr).key = g.key) (hl : ∃ q, Rep s.mem q l) (hx : ∃ q, Rep s.mem q x)
    (hnodup : (g.ptr ::ₘ a.ptr ::ₘ (addrsAround ctx + (addrs l + addrs x))).Nodup) :
    ∃ s', s.takePlace a.ptr g.ptr = .ok s' ∧ s'.root = topOf ctx g.ptr ∧ s'.size = s.size ∧
      RepCtx s'.mem r ctx g.ptr ∧ Rep s'.mem (parentOf r ctx) (.node c l g x) ∧
      ∀ q, q ∉ addrsAround ctx → q ≠ g.ptr → q ∉ addrs l → q ∉ addrs x → s'.mem q = s.mem q := by
  simp only [Multiset.nodup_cons, Multiset.nodup_add, Multiset.mem_cons, Multiset.mem_add, not_or,
    Multiset.disjoint_add_right] at hnodup
  obtain ⟨⟨hga, hgctx, hgl, hgx⟩, ⟨hactx, hal, hax⟩, hnctx, ⟨hnl, hnx, hlx⟩, hctxl, hctxx⟩ := hnodup
  have hag : a.ptr ≠ g.ptr := Ne.symm hga
  obtain ⟨s1, hs1, hg1, hkeep1⟩ := modify_spec s g (RbNode.setParent (parentOf r ctx))
  have ha1 := (hkeep1.of_ne hag).trans ha
  obtain ⟨s2, hs2, hroot2, hsize2, hctx2, hkeep2⟩ := replace_spec (hkeep1.root.trans hroot)
    (hctx.congr fun q hq => hkeep1.of_ne (ne_of_mem_of_not_mem hq hgctx)) hnctx hactx
    ⟨a.addr, rfl⟩ (by rw [ha1, cell_parent]) g.ptr
  have ha2 := (hkeep2 _ hactx).trans ha1
  obtain ⟨s3, hs3, hg3, hkeep3⟩ := modify_spec s2 g (RbNode.setChild .right (ptrOf x))
  have ha3 := (hkeep3.of_ne hag).trans ha2
  obtain ⟨s4, hs4, hg4, hkeep4⟩ := modify_spec s3 g (RbNode.setChild .left (ptrOf l))
  have hout4 : ∀ q, q ∉ addrsAround ctx → q ≠ g.ptr → s4.mem q = s.mem q := by
    intro q hq hqg
    rw [hkeep4.of_ne hqg, hkeep3.of_ne hqg, hkeep2 q hq, hkeep1.of_ne hqg]
  have hnotctx : ∀ {q} {m : Multiset Ptr}, Disjoint (addrsAround ctx) m → q ∈ m →
      q ∉ addrsAround ctx := fun hd hq => Multiset.disjoint_right.mp hd hq
  -- the children
  obtain ⟨ql, hl⟩ := hl
  obtain ⟨qx, hx⟩ := hx
  have hl4 : Rep s4.mem ql l := hl.congr fun q hq =>
    hout4 q (hnotctx hctxl hq) (ne_of_mem_of_not_mem hq hgl)
  have hx4 : Rep s4.mem qx x := hx.congr fun q hq =>
    hout4 q (hnotctx hctxx hq) (ne_of_mem_of_not_mem hq hgx)
  obtain ⟨s5, hs5, hl5, hkeep5⟩ := reparent_spec ⟨ql, hl4⟩ hnl g.ptr
  have hx5 : Rep s5.mem qx x := hx4.congr fun q hq =>
    hkeep5.mem q (Multiset.disjoint_right.mp hlx hq)
  obtain ⟨s6, hs6, hx6, hkeep6⟩ := reparent_spec ⟨qx, hx5⟩ hnx g.ptr
  have ha6 : s6.mem a.ptr = s.mem a.ptr := by
    rw [hkeep6.mem _ hax, hkeep5.mem _ hal, hout4 _ hactx hag]
  obtain ⟨s7, hs7, hg7, hkeep7⟩ := modify_spec s6 g fun n => { n with color := colorInt c }
  have hout7 : ∀ q, q ∉ addrsAround ctx → q ≠ g.ptr → q ∉ addrs l → q ∉ addrs x →
      s7.mem q = s.mem q := by
    intro q hq hqg hql hqx
    rw [hkeep7.of_ne hqg, hkeep6.mem q hqx, hkeep5.mem q hql, hout4 q hq hqg]
  have hnode4 : s4.mem g.ptr = ⟨g.key, parentOf r ctx, ptrOf x, ptrOf l, (s.mem g.ptr).color⟩ := by
    rw [hg4, hg3, hkeep2 _ hgctx, hg1, ← hkey]
    rfl
  refine ⟨s7, ?_, ?_, ?_, ?_, ⟨?_, ?_, ?_⟩, hout7⟩
  · have hright : (s2.mem a.ptr).right = ptrOf x := by rw [ha2]; rfl
    have hleft : (s3.mem a.ptr).left = ptrOf l := by rw [ha3]; rfl
    have hleft4 : (s4.mem g.ptr).left = ptrOf l := by rw [hnode4]
    have hright5 : (s5.mem g.ptr).right = ptrOf x := by rw [hkeep5.mem _ hgl, hnode4]
    have hcolor6 : (s6.mem a.ptr).color = colorInt c := by rw [ha6, ha, cell_color]
    rw [RbTree.takePlace]
    simp only [RbTree.load_ptr, ok_bind, ha, cell_parent, hs1, hs2, hright, hs3, hleft, hs4, hleft4,
      hs5, hright5, hs6, hcolor6, hs7]
  · rw [hkeep7.root, hkeep6.root, hkeep5.root, hkeep4.root, hkeep3.root, hroot2]
  · rw [hkeep7.size, hkeep6.size, hkeep5.size, hkeep4.size, hkeep3.size, hsize2, hkeep1.size]
  · apply hctx2.congr
    intro q hq
    have hqg := ne_of_mem_of_not_mem hq hgctx
    rw [hkeep7.of_ne hqg, hkeep6.mem q (Multiset.disjoint_left.mp hctxx hq),
      hkeep5.mem q (Multiset.disjoint_left.mp hctxl hq), hkeep4.of_ne hqg, hkeep3.of_ne hqg]
  · rw [hg7, hkeep6.mem _ hgx, hkeep5.mem _ hgl, hnode4]
    rfl
  · apply hl5.congr
    intro q hq
    rw [hkeep7.of_ne (ne_of_mem_of_not_mem hq hgl), hkeep6.mem q (Multiset.disjoint_left.mp hlx hq)]
  · exact hx6.congr fun q hq => hkeep7.of_ne (ne_of_mem_of_not_mem hq hgx)

theorem Holds.chooseTemp_next {l ry : CTree Entry} {cy : Color}
    (h : Holds e (ctx.plug (.node c l a x)) s) (hl : l ≠ .nil) (hx : x ≠ .nil)
    (hmin : s.leftmost fuel (ptrOf x) = .ok g.ptr)
    (hnode : s.mem g.ptr = cell .left g p .null (ptrOf ry) cy) :
    s.chooseTemp fuel a.ptr = .ok (g.ptr, ptrOf ry) := by
  obtain ⟨-, hleft, hright⟩ := h.node_left
  have hl' : ptrOf l ≠ .null := by rwa [Ne, ptrOf_eq_null]
  have hx' : ptrOf x ≠ .null := by rwa [Ne, ptrOf_eq_null]
  rw [RbTree.chooseTemp, RbTree.load_ptr, ok_bind, hleft, hright, if_neg hl', if_neg hx',
    RbTree.subtreeMin, if_neg hx', hmin, ok_bind, RbTree.load_ptr, ok_bind, hnode]
  rfl

theorem append_step_ne_top {l : CTree Entry} (inner : Ctx Entry) :
    inner.append (.step .right c a l ctx) ≠ .top := by
  cases inner <;> exact fun h => by cases h

theorem addrs_node_nil {ry : CTree Entry} {cy : Color} :
    addrs (.node cy .nil g ry) = g.ptr ::ₘ addrs ry := by
  rw [addrs, labels_node, Multiset.map_cons, labels_nil, Multiset.zero_add]
  rfl

theorem parentOf_next {l : CTree Entry} {inner : Ctx Entry}
    (hnodup : (addrsAround (inner.append (.step .right c a l ctx))).Nodup) :
    (if parentOf r (inner.append (.step .right c a l ctx)) = a.ptr then g.ptr
      else parentOf r (inner.append (.step .right c a l ctx))) = parentOf g.ptr inner := by
  rw [parentOf_append]
  cases inner with
  | top => exact if_pos rfl
  | step d' c' b sib inner =>
    rw [parentOf, parentOf, if_neg]
    intro heq
    rw [append, addrsAround_step, Multiset.nodup_cons, addrsAround_append,
      addrsAround_step] at hnodup
    apply hnodup.1
    rw [heq, Multiset.mem_add, Multiset.mem_add]
    exact .inr (.inr (Multiset.mem_cons_self _ _))

theorem addrs_next {l ry : CTree Entry} {cy : Color} {inner : Ctx Entry} :
    addrs ((inner.append (.step .right c a l ctx)).plug (.node cy .nil g ry)) =
      g.ptr ::ₘ a.ptr ::ₘ (addrsAround ctx + (addrs l + addrs (inner.plug ry))) := by
  rw [addrs_plug, addrs_plug, addrsAround_append, addrsAround_step, addrs_node_nil]
  apply Multiset.ext.mpr
  intro q
  simp only [Multiset.count_add, Multiset.count_cons]
  omega

theorem addrs_replaced {l ry : CTree Entry} {cy : Color} {inner : Ctx Entry} :
    addrs ((inner.append (.step .right c a l ctx)).plug (.node cy .nil g ry)) =
      a.ptr ::ₘ addrs (ctx.plug (.node c l g (inner.plug ry))) := by
  have hmid : addrs (.node c l g (inner.plug ry)) = g.ptr ::ₘ (addrs l + addrs (inner.plug ry)) :=
    addrs_mk (d := .left)
  have hwhole : addrs (ctx.plug (.node c l g (inner.plug ry))) =
      addrsAround ctx + addrs (.node c l g (inner.plug ry)) := addrs_plug
  rw [addrs_next, hwhole, hmid, Multiset.add_cons, Multiset.cons_swap]

/-- The next node `g` is taken from its position and put in the place of `a`, which is cleared. -/
theorem Holds.takeNext {l ry : CTree Entry} {cy : Color} {inner : Ctx Entry}
    (h : Holds e ((inner.append (.step .right c a l ctx)).plug (.node cy .nil g ry)) s)
    (k : BitVec 32) :
    ∃ s1 s2 s3, ({ s with size := k } : RbTree).unlink a.ptr g.ptr (ptrOf ry) = .ok s1 ∧
      s1.takePlace a.ptr g.ptr = .ok s2 ∧ s2.modify a.ptr RbNode.clear = .ok s3 ∧
      Holds ⟨s3.mem, e.above, k⟩ ((inner.append (.step .right c g l ctx)).plug ry) s3 ∧
      (ry = .nil →
        (s3.mem .null).parent = parentOf e.above (inner.append (.step .right c g l ctx))) := by
  obtain ⟨hnctx, hnodup, hdisj⟩ := h.nodup_plug
  obtain ⟨hctx, hcell, -, hrept⟩ := h.focus
  simp only [addrs_node_nil, Multiset.nodup_cons] at hnodup
  simp only [addrs_node_nil, Multiset.mem_cons, not_or] at hdisj
  obtain ⟨hgt, hnt⟩ := hnodup
  have hgctx : g.ptr ∉ addrsAround (inner.append (.step .right c a l ctx)) :=
    fun hq => (hdisj _ hq).1 rfl
  -- from its position
  obtain ⟨s1, hs1, hctx1, hrep1, hparent1, hcolor1, hkeep1⟩ := unlink_spec
    (s := { s with size := k }) (append_step_ne_top inner) hctx (by rw [hcell, cell_parent])
    ⟨_, hrept⟩ hnctx hnt hgctx hgt (fun q hq => (hdisj q hq).2) a.ptr
  rw [parentOf_next hnctx] at hrep1 hparent1
  obtain ⟨hinner, hcell1, hrepl, hup⟩ := repCtx_append.mp hctx1
  rw [← ptrOf_plug] at hcell1
  have hrest : ∃ q, Rep s1.mem q (inner.plug ry) := by
    cases inner with
    | top => exact ⟨_, hrep1⟩
    | step d' c' b sib inner => exact ⟨a.ptr, rep_plug.mpr ⟨hinner, hrep1⟩⟩
  have hkey1 : (s1.mem g.ptr).key = g.key := by
    rw [hkeep1.mem, hcell, cell_key]
    rw [Multiset.mem_cons, Multiset.mem_add, not_or, not_or]
    exact ⟨g.ptr_ne_null, hgctx, hgt⟩
  have hroot1 : s1.root = topOf ctx a.ptr := by
    have hroot := h.root
    rw [plug_append, plug, ptrOf_plug] at hroot
    exact hkeep1.root.trans hroot
  -- to the place of `a`
  have hall := h.nodup
  rw [addrs_next] at hall
  obtain ⟨s2, hs2, hroot2, hsize2, hctx2, hrep2, hkeep2⟩ := takePlace_spec hroot1 hup hcell1 hkey1
    ⟨_, hrepl⟩ hrest hall
  have hcolor2 : ∀ q,
      q ∉ addrs ((inner.append (.step .right c a l ctx)).plug (.node cy .nil g ry)) →
      s2.mem q = s1.mem q ∧ (s1.mem q).color = (s.mem q).color := by
    intro q hq
    constructor
    · rw [addrs_next] at hq
      simp only [Multiset.mem_cons, Multiset.mem_add, not_or] at hq
      exact hkeep2 q hq.2.2.1 hq.1 hq.2.2.2.1 hq.2.2.2.2
    · rw [addrs_plug, addrs_node_nil] at hq
      simp only [Multiset.mem_cons, Multiset.mem_add, not_or] at hq
      exact hcolor1 q hq.1 hq.2.2
  have hnodup2 := h.nodup
  have habove := h.above_out
  rw [addrs_replaced, Multiset.nodup_cons] at hnodup2
  have h2 : Holds ⟨s2.mem, e.above, s2.size⟩ (ctx.plug (.node c l g (inner.plug ry))) s2 := by
    obtain ⟨hmem, hcolor⟩ := hcolor2 _ habove
    obtain ⟨hmem', hcolor'⟩ := hcolor2 .null (null_notMem_addrs _)
    apply holds_self s2 e.above ctx (.node c l g (inner.plug ry)) hroot2 hctx2 hrep2 hnodup2.2
      h.above_ne
    · rw [addrs_replaced, Multiset.mem_cons, not_or] at habove
      exact habove.2
    · rw [hmem, hcolor, h.above_color]
    · rw [hmem', hcolor', h.null_color]
  obtain ⟨s3, hs3, h3, hnull3⟩ := h2.clear hnodup2.1
  refine ⟨s1, s2, s3, hs1, hs2, hs3, ?_, fun hry => ?_⟩
  · rw [plug_append, show k = s2.size from (hsize2.trans hkeep1.size).symm]
    exact h3
  · rw [hnull3, (hcolor2 .null (null_notMem_addrs _)).1, parentOf_append]
    rw [hry] at hparent1
    exact hparent1

/-- A node with two children: the next one in the order takes its place. -/
theorem Holds.delete_two {l : CTree Entry} (h : Holds e (ctx.plug (.node c l a x)) s)
    (hrb : ∃ m, RB (ctx.plug (.node c l a x)) .black m) (hl : l ≠ .nil) (hx : x ≠ .nil)
    (hfuel : (ctx.plug (.node c l a x)).labels.card + 2 ≤ fuel) :
    ∃ s' e' t', s.delete fuel a.ptr = .ok s' ∧
      Deleted e (ctx.plug (.node c l a x)) a e' t' s' ∧ e'.above = e.above := by
  obtain ⟨inner, cy, g, ry, rfl, hbefore, hleftmost⟩ := exists_leftmost hx
  have hplug : ∀ b t, (inner.append (.step .right c b l ctx)).plug t =
      ctx.plug (.node c l b (inner.plug t)) := fun b t => plug_append inner _ t
  have hcard : (inner.plug (.node cy .nil g ry)).labels.card ≤ fuel := by
    rw [labels_plug, Multiset.card_add, labels_node, Multiset.card_cons, Multiset.card_add] at hfuel
    omega
  have h0 := h.withSize (s.size - 1)
  have hmin := hleftmost _ (.step .right c a l ctx) _ fuel h0 hcard
  have ha : Holds e ((inner.append (.step .right c a l ctx)).plug (.node cy .nil g ry)) s := by
    rw [hplug]
    exact h
  have hcell : s.mem g.ptr =
      cell .left g (parentOf e.above (inner.append (.step .right c a l ctx))) .null (ptrOf ry) cy :=
    ha.focus.2.1
  have hgctx : g.ptr ∉ addrsAround (inner.append (.step .right c a l ctx)) := fun hq =>
    ha.nodup_plug.2.2 _ hq (by rw [addrs_node_nil]; exact Multiset.mem_cons_self _ _)
  obtain ⟨s1, s2, s3, hs1, hs2, hs3, h3, hnull3⟩ := ha.takeNext (s.size - 1)
  -- the fix-up
  obtain ⟨m, hrb⟩ := hrb
  rw [← hplug] at hrb
  obtain ⟨cc, n, hrbg, hrbctx⟩ := hrb.split
  have hdepth : (inner.append (.step .right c g l ctx)).depth + 2 ≤ fuel := by
    have hle := (inner.append (.step .right c g l ctx)).depth_le
    rw [labels_append, Ctx.labels, Multiset.card_add, Multiset.card_cons, Multiset.card_add] at hle
    simp only [labels_plug, labels_node, Multiset.card_add, Multiset.card_cons] at hfuel
    omega
  obtain ⟨s4, t', hs4, h4, hrb4, horder⟩ := Holds.finish (d := .left) h3 hrbg hrbctx.relabel
    (fun hry => ⟨append_step_ne_top inner, hnull3 hry⟩) hdepth
  refine ⟨s4, _, t', ?_, ⟨h4, hrb4, ?_, ?_⟩, rfl⟩
  · have hroot : g.ptr ≠ s.root := by
      have hroot := ha.root
      rw [ptrOf_plug] at hroot
      rw [hroot]
      apply Ne.symm
      apply ne_of_mem_of_not_mem _ hgctx
      cases inner <;> exact topOf_mem
    have hga : g.ptr ≠ a.ptr := by
      apply Ne.symm
      apply ne_of_mem_of_not_mem _ hgctx
      rw [addrsAround_append, addrsAround_step, Multiset.mem_add]
      exact .inr (Multiset.mem_cons_self _ _)
    have hblack : (s.mem g.ptr).isblack = decide (cy = .black) := by
      rw [hcell]
      exact isblack_eq (cell_color ..)
    rw [RbTree.delete, if_neg (fun h => h.elim Ptr.noConfusion Ptr.noConfusion)]
    dsimp only
    rw [h0.chooseTemp_next hl hx hmin hcell, ok_bind]
    dsimp only
    rw [if_neg hroot, RbTree.load_ptr, ok_bind]
    dsimp only
    rw [hs1, ok_bind, if_pos hga, hs2, ok_bind, hs3, ok_bind, hblack]
    exact hs4
  · rw [horder, hplug, inorder_plug, inorder_plug]
    simp only [inorder, inorder_plug, hbefore, List.nil_append]
    exact ⟨ctx.before ++ l.inorder, g :: (ry.inorder ++ inner.after) ++ ctx.after, by
      simp only [List.append_assoc, List.cons_append], by
      simp only [List.append_assoc, List.cons_append]⟩
  · rw [← h.size]

/-- The root with exactly one child, as `util_rbtree_delete` finds it. -/
def OneChildRoot (s : RbTree) (p : Ptr) : Prop :=
  p = s.root ∧ ((s.mem p).left = .null ↔ (s.mem p).right ≠ .null)

instance (s : RbTree) (p : Ptr) : Decidable (OneChildRoot s p) :=
  inferInstanceAs (Decidable (_ ∧ _))

theorem Holds.oneChildRoot_iff (h : Holds e (ctx.plug (CTree.mk d c .nil a t)) s) :
    OneChildRoot s a.ptr ↔ a.ptr = s.root ∧ t ≠ .nil := by
  have hnil : ptrOf .nil = .null := rfl
  unfold OneChildRoot
  rw [h.cell_eq, hnil]
  cases d with
  | left =>
    have hleft : (cell .left a (parentOf e.above ctx) .null (ptrOf t) c).left = .null := rfl
    have hright : (cell .left a (parentOf e.above ctx) .null (ptrOf t) c).right = ptrOf t := rfl
    simp only [hleft, hright, ne_eq, true_iff, ptrOf_eq_null]
  | right =>
    have hleft : (cell .right a (parentOf e.above ctx) .null (ptrOf t) c).left = ptrOf t := rfl
    have hright : (cell .right a (parentOf e.above ctx) .null (ptrOf t) c).right = .null := rfl
    simp only [hleft, hright, ne_eq, not_true_eq_false, iff_false, ptrOf_eq_null]

theorem Valid.delete_side (h : Valid e (ctx.plug (CTree.mk d c .nil a t)) s)
    (hfuel : (ctx.plug (CTree.mk d c .nil a t)).labels.card + 2 ≤ fuel) :
    ∃ s' e' t', s.delete fuel a.ptr = .ok s' ∧
      Deleted e (ctx.plug (CTree.mk d c .nil a t)) a e' t' s' ∧
      (OneChildRoot s a.ptr → e'.above = a.ptr) ∧
      (¬ OneChildRoot s a.ptr → e'.above = e.above ∨ e'.above = .null) := by
  rw [h.holds.oneChildRoot_iff]
  cases ctx with
  | top =>
    obtain ⟨m, hrb⟩ := h.rb
    have hc := hrb.color_eq
    have hrb : RB (CTree.mk d c .nil a t) .black m := hrb
    have hroot : a.ptr = s.root := by
      rw [h.holds.root, ptrOf_plug, ptrOf_mk]
      rfl
    rw [plug, color_mk] at hc
    subst hc
    obtain ⟨-, cx, n, -, -, -, ht⟩ := hrb.of_mk_black
    obtain ⟨s', e', t', hs', hdel, hnil, hne⟩ := Holds.delete_root h.holds ht fuel
    exact ⟨s', e', t', hs', hdel, fun h => hne h.2,
      fun h => .inr (hnil (by_contra fun ht => h ⟨hroot, ht⟩))⟩
  | step d' c' b x up =>
    obtain ⟨s', e', t', hs', hdel, habove⟩ := h.holds.delete_one h.rb hfuel
    refine ⟨s', e', t', hs', hdel, fun h' => absurd h'.1 ?_, fun _ => .inl habove⟩
    have hroot := h.holds.root
    rw [ptrOf_plug] at hroot
    rw [hroot]
    intro heq
    apply h.holds.nodup_plug.2.2 _ topOf_mem
    rw [← heq, addrs_mk]
    exact Multiset.mem_cons_self _ _

/-- `util_rbtree_delete` takes the entry of the node away. The parent of the root stays as it is,
unless the root is deleted when it has one child. -/
theorem Valid.delete (h : Valid e t s) (ha : a ∈ t.labels) (hfuel : t.labels.card + 2 ≤ fuel) :
    ∃ s' e' t', s.delete fuel a.ptr = .ok s' ∧ Valid e' t' s' ∧ t.labels = a ::ₘ t'.labels ∧
      e'.size = e.size - 1 ∧
      (OneChildRoot s a.ptr → e'.above = a.ptr) ∧
      (¬ OneChildRoot s a.ptr → e'.above = e.above ∨ e'.above = .null) := by
  obtain ⟨ctx, c, l, r, rfl⟩ := exists_plug ha
  have hcases : ∃ s' e' t', s.delete fuel a.ptr = .ok s' ∧
      Deleted e (ctx.plug (.node c l a r)) a e' t' s' ∧
      (OneChildRoot s a.ptr → e'.above = a.ptr) ∧
      (¬ OneChildRoot s a.ptr → e'.above = e.above ∨ e'.above = .null) := by
    by_cases hl : l = .nil
    · subst hl
      exact Valid.delete_side (d := .left) h hfuel
    · by_cases hr : r = .nil
      · subst hr
        exact Valid.delete_side (d := .right) h hfuel
      · obtain ⟨s', e', t', hs', hdel, habove⟩ := h.holds.delete_two h.rb hl hr hfuel
        obtain ⟨-, hleft, hright⟩ := h.holds.node_left
        refine ⟨s', e', t', hs', hdel, fun h' => ?_, fun _ => .inl habove⟩
        have hboth := h'.2
        rw [hleft, hright, Ne, ptrOf_eq_null, ptrOf_eq_null] at hboth
        exact absurd (hboth.mpr hr) hl
  obtain ⟨s', e', t', hs', hdel, habove⟩ := hcases
  obtain ⟨xs, ys, hxs, hys⟩ := hdel.order
  refine ⟨s', e', t', hs', ⟨hdel.holds, hdel.rb, ?_⟩, ?_, hdel.size, habove⟩
  · have hsorted := h.sorted
    rw [hxs] at hsorted
    rw [hys]
    exact hsorted.sublist ((List.sublist_cons_self a ys).append_left xs)
  · rw [CTree.labels, CTree.labels, hxs, hys]
    exact Multiset.coe_eq_coe.mpr List.perm_middle

theorem Holds.oneChildRoot_card (h : Holds e t s) (ha : a ∈ t.labels)
    (hone : OneChildRoot s a.ptr) : 2 ≤ t.labels.card := by
  obtain ⟨ctx, c, l, r, rfl⟩ := exists_plug ha
  obtain ⟨-, hleft, hright⟩ := h.node_left
  have hchild := hone.2
  rw [hleft, hright, Ne, ptrOf_eq_null, ptrOf_eq_null] at hchild
  have hpos : ∀ t : CTree Entry, t ≠ .nil → 0 < t.labels.card := by
    intro t ht
    obtain ⟨c, x, b, y, rfl⟩ := eq_mk .left ht
    rw [labels_mk, Multiset.card_cons]
    omega
  rw [labels_plug, labels_node, Multiset.card_add, Multiset.card_cons, Multiset.card_add]
  by_cases hl : l = .nil
  · have hr := hpos r (hchild.mp hl)
    omega
  · have hl := hpos l hl
    omega

end

end TstMuduo.ConnHash
