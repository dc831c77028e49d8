import TstMuduo.ConnHash.RbTree

/-!
# The tree that the nodes in memory are

The nodes that can be reached from the root are a tree of the library, each node labelled with its
address and its key. Every field of every node follows from that tree: so a rotation or a new colour
in memory is a rotation or a new colour of the tree, and what is not in the tree stays as it is.
-/

namespace TstMuduo.ConnHash
open TstMuduo.Lib CTree Ctx

structure Entry where
  addr : Nat
  key : Int
  deriving DecidableEq, Repr

def Entry.ptr (a : Entry) : Ptr := .node a.addr

theorem Entry.ptr_ne_null (a : Entry) : a.ptr ≠ .null := Ptr.noConfusion

def colorInt : Color → Int
  | .red => 0
  | .black => 1

/-- The node of `a` with the child `near` on the side `d`. -/
def cell (d : Dir) (a : Entry) (parent near far : Ptr) (c : Color) : RbNode :=
  match d with
  | .left => ⟨a.key, parent, far, near, colorInt c⟩
  | .right => ⟨a.key, parent, near, far, colorInt c⟩

section
variable (d : Dir) (a : Entry) (parent near far p : Ptr) (c c' : Color)

@[simp] theorem cell_key : (cell d a parent near far c).key = a.key := by cases d <;> rfl

@[simp] theorem cell_parent : (cell d a parent near far c).parent = parent := by cases d <;> rfl

@[simp] theorem cell_near : (cell d a parent near far c).child d = near := by cases d <;> rfl

@[simp] theorem cell_far : (cell d a parent near far c).child d.flip = far := by cases d <;> rfl

@[simp] theorem cell_color : (cell d a parent near far c).color = colorInt c := by cases d <;> rfl

@[simp] theorem cell_setParent :
    (cell d a parent near far c).setParent p = cell d a p near far c := by cases d <;> rfl

@[simp] theorem cell_setNear :
    (cell d a parent near far c).setChild d p = cell d a parent p far c := by cases d <;> rfl

@[simp] theorem cell_setFar :
    (cell d a parent near far c).setChild d.flip p = cell d a parent near p c := by
  cases d <;> rfl

theorem cell_setColor : { cell d a parent near far c with color := colorInt c' } =
    cell d a parent near far c' := by cases d <;> rfl

end

/-! ### The tree in memory -/

def ptrOf : CTree Entry → Ptr
  | .nil => .null
  | .node _ _ a _ => a.ptr

def addrs (t : CTree Entry) : Multiset Ptr := t.labels.map Entry.ptr

def addrsAround (ctx : Ctx Entry) : Multiset Ptr := ctx.labels.map Entry.ptr

/-- The nodes of the tree are in memory, and `p` is the parent of its root. -/
def Rep (mem : Ptr → RbNode) : Ptr → CTree Entry → Prop
  | _, .nil => True
  | p, .node c l a r =>
    mem a.ptr = cell .left a p (ptrOf l) (ptrOf r) c ∧ Rep mem a.ptr l ∧ Rep mem a.ptr r

def parentOf (r : Ptr) : Ctx Entry → Ptr
  | .top => r
  | .step _ _ a _ _ => a.ptr

/-- The pointer to the whole tree if the one to what is in the hole is `p`. -/
def topOf : Ctx Entry → Ptr → Ptr
  | .top, p => p
  | .step _ _ a _ up, _ => topOf up a.ptr

def RepCtx (mem : Ptr → RbNode) (r : Ptr) : Ctx Entry → Ptr → Prop
  | .top, _ => True
  | .step d c a sib up, hole =>
    mem a.ptr = cell d a (parentOf r up) hole (ptrOf sib) c ∧ Rep mem a.ptr sib ∧
      RepCtx mem r up a.ptr

section
variable {mem mem' : Ptr → RbNode} {p q r hole : Ptr} {t x y : CTree Entry} {ctx : Ctx Entry}
  {d : Dir} {c : Color} {a : Entry}

@[simp] theorem ptrOf_mk : ptrOf (mk d c x a y) = a.ptr := by cases d <;> rfl

theorem ptrOf_ne_NULL (t : CTree Entry) : ptrOf t ≠ .NULL := by
  cases t <;> exact Ptr.noConfusion

theorem ptrOf_eq_null : ptrOf t = .null ↔ t = .nil := by
  cases t with
  | nil => exact ⟨fun _ => rfl, fun _ => rfl⟩
  | node c l a r => exact ⟨fun h => Ptr.noConfusion h, fun h => nomatch h⟩

@[simp] theorem addrs_nil : addrs .nil = 0 := rfl

@[simp] theorem addrs_mk : addrs (mk d c x a y) = a.ptr ::ₘ (addrs x + addrs y) := by
  rw [addrs, labels_mk, Multiset.map_cons, Multiset.map_add]
  rfl

@[simp] theorem addrs_paint : addrs (t.paint c) = addrs t := by
  rw [addrs, addrs, CTree.labels, CTree.labels, inorder_paint]

@[simp] theorem addrs_plug : addrs (ctx.plug t) = addrsAround ctx + addrs t := by
  rw [addrs, labels_plug, Multiset.map_add]
  rfl

@[simp] theorem addrsAround_step {sib : CTree Entry} {up : Ctx Entry} :
    addrsAround (.step d c a sib up) = a.ptr ::ₘ (addrs sib + addrsAround up) := by
  rw [addrsAround, Ctx.labels, Multiset.map_cons, Multiset.map_add]
  rfl

theorem null_notMem_map (m : Multiset Entry) : Ptr.null ∉ m.map Entry.ptr := by
  intro h
  obtain ⟨a, -, ha⟩ := Multiset.mem_map.mp h
  exact a.ptr_ne_null ha

theorem null_notMem_addrs (t : CTree Entry) : Ptr.null ∉ addrs t := null_notMem_map _

theorem null_notMem_around (ctx : Ctx Entry) : Ptr.null ∉ addrsAround ctx := null_notMem_map _

theorem ptrOf_mem (h : t ≠ .nil) : ptrOf t ∈ addrs t := by
  obtain ⟨c, x, a, y, rfl⟩ := eq_mk .left h
  rw [ptrOf_mk, addrs_mk]
  exact Multiset.mem_cons_self _ _

theorem rep_mk : Rep mem p (mk d c x a y) ↔
    mem a.ptr = cell d a p (ptrOf x) (ptrOf y) c ∧ Rep mem a.ptr x ∧ Rep mem a.ptr y := by
  cases d with
  | left => exact Iff.rfl
  | right =>
    rw [mk, Rep, and_comm (a := Rep mem a.ptr y)]
    rfl

theorem rep_plug : Rep mem r (ctx.plug t) ↔
    RepCtx mem r ctx (ptrOf t) ∧ Rep mem (parentOf r ctx) t := by
  induction ctx generalizing t with
  | top => exact ⟨fun h => ⟨trivial, h⟩, fun h => h.2⟩
  | step d c a sib up ih =>
    rw [plug, ih, rep_mk, ptrOf_mk, RepCtx, parentOf]
    tauto

theorem ptrOf_plug : ptrOf (ctx.plug t) = topOf ctx (ptrOf t) := by
  induction ctx generalizing t with
  | top => rfl
  | step d c a sib up ih => rw [plug, ih, ptrOf_mk, topOf]

theorem addrsAround_append (ctx up : Ctx Entry) :
    addrsAround (ctx.append up) = addrsAround ctx + addrsAround up := by
  rw [addrsAround, labels_append, Multiset.map_add]
  rfl

theorem parentOf_append (ctx up : Ctx Entry) :
    parentOf r (ctx.append up) = parentOf (parentOf r up) ctx := by
  cases ctx <;> rfl

theorem repCtx_append {inner : Ctx Entry} : RepCtx mem r (inner.append ctx) hole ↔
    RepCtx mem (parentOf r ctx) inner hole ∧ RepCtx mem r ctx (topOf inner hole) := by
  induction inner generalizing hole with
  | top => exact ⟨fun h => ⟨trivial, h⟩, fun h => h.2⟩
  | step d c a sib inner ih =>
    rw [append, RepCtx, RepCtx, ih, parentOf_append, topOf, and_assoc, and_assoc]

theorem Rep.congr (h : Rep mem p t) (hmem : ∀ q ∈ addrs t, mem' q = mem q) : Rep mem' p t := by
  induction t generalizing p with
  | nil => trivial
  | node c l a r ihl ihr =>
    have haddrs : addrs (.node c l a r) = a.ptr ::ₘ (addrs l + addrs r) := addrs_mk (d := .left)
    rw [haddrs] at hmem
    simp only [Multiset.mem_cons, Multiset.mem_add] at hmem
    obtain ⟨ha, hl, hr⟩ := h
    exact ⟨(hmem _ (.inl rfl)).trans ha, ihl hl fun q hq => hmem q (.inr (.inl hq)),
      ihr hr fun q hq => hmem q (.inr (.inr hq))⟩

theorem RepCtx.congr (h : RepCtx mem r ctx hole) (hmem : ∀ q ∈ addrsAround ctx, mem' q = mem q) :
    RepCtx mem' r ctx hole := by
  induction ctx generalizing hole with
  | top => trivial
  | step d c a sib up ih =>
    simp only [addrsAround_step, Multiset.mem_cons, Multiset.mem_add] at hmem
    obtain ⟨ha, hsib, hup⟩ := h
    exact ⟨(hmem _ (.inl rfl)).trans ha, hsib.congr fun q hq => hmem q (.inr (.inl hq)),
      ih hup fun q hq => hmem q (.inr (.inr hq))⟩

end

/-! ### Memory outside the tree -/

/-- What an operation on the tree does not see: the memory of the other nodes and of the sentinel,
the parent that the root has and the number of nodes. -/
structure Rest where
  mem : Ptr → RbNode
  above : Ptr
  size : BitVec 32

/-- The tree is `t`. The sentinel is black, and so is the node above the root, whatever it is. -/
structure Holds (e : Rest) (t : CTree Entry) (s : RbTree) : Prop where
  root : s.root = ptrOf t
  size : s.size = e.size
  rep : Rep s.mem e.above t
  nodup : (addrs t).Nodup
  other : ∀ p, p ∉ addrs t → s.mem p = e.mem p
  above_ne : e.above ≠ .NULL
  above_out : e.above ∉ addrs t
  above_black : (e.mem e.above).color = 1
  null_black : (e.mem .null).color = 1

/-- The state changes in the nodes of `A` only. -/
structure Keeps (A : Multiset Ptr) (s s' : RbTree) : Prop where
  root : s'.root = s.root
  size : s'.size = s.size
  mem : ∀ p, p ∉ A → s'.mem p = s.mem p

namespace RbTree

variable {s : RbTree} {p q : Ptr}

theorem load_eq (s : RbTree) (h : p ≠ .NULL) : s.load p = .ok (s.mem p) := if_neg h

@[simp] theorem load_ptr (s : RbTree) (a : Entry) : s.load a.ptr = .ok (s.mem a.ptr) := rfl

@[simp] theorem load_ptrOf (s : RbTree) (t : CTree Entry) :
    s.load (ptrOf t) = .ok (s.mem (ptrOf t)) := load_eq s (ptrOf_ne_NULL t)

end RbTree

section
variable {e : Rest} {s s' : RbTree} {p q r : Ptr} {t t' x y z : CTree Entry} {ctx up : Ctx Entry}
  {d : Dir} {c c' : Color} {a b : Entry} {f : RbNode → RbNode}

theorem Keeps.of_ne (h : Keeps {p} s s') (hq : q ≠ p) : s'.mem q = s.mem q :=
  h.mem q (mt Multiset.mem_singleton.mp hq)

theorem Keeps.of_ne_of_ne (h : Keeps {p, r} s s') (hp : q ≠ p) (hr : q ≠ r) :
    s'.mem q = s.mem q := by
  apply h.mem
  simpa only [Multiset.insert_eq_cons, Multiset.mem_cons, Multiset.mem_singleton, not_or] using
    ⟨hp, hr⟩

theorem modify_spec (s : RbTree) (a : Entry) (f : RbNode → RbNode) :
    ∃ s', s.modify a.ptr f = .ok s' ∧ s'.mem a.ptr = f (s.mem a.ptr) ∧ Keeps {a.ptr} s s' := by
  refine ⟨_, rfl, Function.update_self .., rfl, rfl, fun q hq => ?_⟩
  exact Function.update_of_ne (mt Multiset.mem_singleton.mpr hq) _ _

theorem Holds.focus (h : Holds e (ctx.plug t) s) :
    RepCtx s.mem e.above ctx (ptrOf t) ∧ Rep s.mem (parentOf e.above ctx) t :=
  rep_plug.mp h.rep

theorem Holds.nodup_plug (h : Holds e (ctx.plug t) s) : (addrsAround ctx).Nodup ∧ (addrs t).Nodup ∧
    ∀ p ∈ addrsAround ctx, p ∉ addrs t := by
  have hnodup := h.nodup
  rw [addrs_plug, Multiset.nodup_add] at hnodup
  exact ⟨hnodup.1, hnodup.2.1, fun p hp => Multiset.disjoint_left.mp hnodup.2.2 hp⟩

theorem Holds.above_color (h : Holds e t s) : (s.mem e.above).color = 1 := by
  rw [h.other _ h.above_out]
  exact h.above_black

theorem Holds.null_color (h : Holds e t s) : (s.mem .null).color = 1 := by
  rw [h.other _ (null_notMem_addrs _)]
  exact h.null_black

theorem Holds.change (h : Holds e (ctx.plug t) s) (haddrs : addrs t' = addrs t)
    (hroot : s'.root = topOf ctx (ptrOf t')) (hsize : s'.size = s.size)
    (hctx : RepCtx s'.mem e.above ctx (ptrOf t')) (hrep : Rep s'.mem (parentOf e.above ctx) t')
    (hother : ∀ p, p ∉ addrsAround ctx → p ∉ addrs t → s'.mem p = s.mem p) :
    Holds e (ctx.plug t') s' := by
  have hsame : addrs (ctx.plug t') = addrs (ctx.plug t) := by rw [addrs_plug, addrs_plug, haddrs]
  exact {
    root := by rw [hroot, ptrOf_plug]
    size := hsize.trans h.size
    rep := rep_plug.mpr ⟨hctx, hrep⟩
    nodup := by rw [hsame]; exact h.nodup
    other := by
      intro p hp
      rw [hsame] at hp
      rw [← h.other p hp]
      rw [addrs_plug, Multiset.mem_add, not_or] at hp
      exact hother p hp.1 hp.2
    above_ne := h.above_ne
    above_out := by rw [hsame]; exact h.above_out
    above_black := h.above_black
    null_black := h.null_black }

theorem Holds.withSize (h : Holds e t s) (n : BitVec 32) :
    Holds { e with size := n } t { s with size := n } :=
  { h with size := rfl }

theorem Holds.near (h : Holds e (ctx.plug (CTree.mk d c x a y)) s) :
    Holds e ((Ctx.step d c a y ctx).plug x) s := h

theorem Holds.far (h : Holds e (ctx.plug (CTree.mk d c x a y)) s) :
    Holds e ((Ctx.step d.flip c a x ctx).plug y) s := by
  rw [plug_flip]
  exact h

theorem Holds.setColor (h : Holds e (ctx.plug (CTree.mk d c x a y)) s)
    (hf : ∀ n, f n = { n with color := colorInt c' }) :
    ∃ s', s.modify a.ptr f = .ok s' ∧ Holds e (ctx.plug (CTree.mk d c' x a y)) s' := by
  obtain ⟨hctx, hrep⟩ := h.focus
  obtain ⟨ha, hx, hy⟩ := rep_mk.mp hrep
  obtain ⟨-, hnodup, hdisj⟩ := h.nodup_plug
  simp only [addrs_mk, Multiset.nodup_cons, Multiset.mem_add, not_or] at hnodup
  simp only [addrs_mk, Multiset.mem_cons, not_or] at hdisj
  obtain ⟨⟨hax, hay⟩, -⟩ := hnodup
  obtain ⟨s', hs', ha', hkeep⟩ := modify_spec s a f
  refine ⟨s', hs', h.change ?_ ?_ hkeep.size ?_ ?_ ?_⟩
  · rw [addrs_mk, addrs_mk]
  · rw [hkeep.root, h.root, ptrOf_plug, ptrOf_mk, ptrOf_mk]
  · rw [ptrOf_mk] at hctx ⊢
    exact hctx.congr fun q hq => hkeep.of_ne (hdisj q hq).1
  · refine rep_mk.mpr ⟨?_, hx.congr fun q hq => ?_, hy.congr fun q hq => ?_⟩
    · rw [ha', hf, ha, cell_setColor]
    · exact hkeep.of_ne (ne_of_mem_of_not_mem hq hax)
    · exact hkeep.of_ne (ne_of_mem_of_not_mem hq hay)
  · intro q _ hq
    rw [addrs_mk, Multiset.mem_cons, not_or] at hq
    exact hkeep.of_ne hq.1

theorem Holds.black (h : Holds e (ctx.plug (CTree.mk d c x a y)) s) :
    ∃ s', s.modify a.ptr RbNode.black = .ok s' ∧ Holds e (ctx.plug (CTree.mk d .black x a y)) s' :=
  h.setColor fun _ => rfl

theorem Holds.red (h : Holds e (ctx.plug (CTree.mk d c x a y)) s) :
    ∃ s', s.modify a.ptr RbNode.red = .ok s' ∧ Holds e (ctx.plug (CTree.mk d .red x a y)) s' :=
  h.setColor fun _ => rfl

theorem Holds.paintBlack (h : Holds e (ctx.plug t) s) (ht : t ≠ .nil) :
    ∃ s', s.modify (ptrOf t) RbNode.black = .ok s' ∧ Holds e (ctx.plug (t.paint .black)) s' := by
  obtain ⟨c', x, a, y, rfl⟩ := eq_mk .left ht
  rw [ptrOf_mk, paint_mk]
  exact h.black

/-! ### What is read -/

theorem Holds.cell_eq (h : Holds e (ctx.plug (CTree.mk d c x a y)) s) :
    s.mem a.ptr = cell d a (parentOf e.above ctx) (ptrOf x) (ptrOf y) c :=
  (rep_mk.mp h.focus.2).1

theorem Holds.parent_eq (h : Holds e (ctx.plug t) s) (ht : t ≠ .nil) :
    (s.mem (ptrOf t)).parent = parentOf e.above ctx := by
  obtain ⟨c, x, a, y, rfl⟩ := eq_mk .left ht
  rw [ptrOf_mk, h.cell_eq, cell_parent]

theorem Holds.color_eq (h : Holds e (ctx.plug t) s) :
    (s.mem (ptrOf t)).color = colorInt t.color := by
  cases t with
  | nil =>
    exact h.null_color
  | node c x a y =>
    have hcell : s.mem a.ptr = cell .left a (parentOf e.above ctx) (ptrOf x) (ptrOf y) c :=
      h.focus.2.1
    rw [ptrOf, hcell, cell_color]
    rfl

theorem isred_iff {n : RbNode} (h : n.color = colorInt c) : n.isred = true ↔ c = .red := by
  unfold RbNode.isred
  rw [h]
  cases c <;> decide

theorem isblack_eq {n : RbNode} (h : n.color = colorInt c) : n.isblack = decide (c = .black) := by
  unfold RbNode.isblack
  rw [h]
  cases c <;> rfl

theorem isblack_iff {n : RbNode} (h : n.color = colorInt c) : n.isblack = true ↔ c = .black := by
  rw [isblack_eq h, decide_eq_true_iff]

theorem Holds.parentOf_ne (h : Holds e t s) (ctx : Ctx Entry) : parentOf e.above ctx ≠ .NULL := by
  cases ctx with
  | top => exact h.above_ne
  | step d c a sib up => exact Ptr.noConfusion

theorem Holds.ptrOf_ne (h : Holds e (ctx.plug (CTree.mk d c x a y)) s) (hxy : x ≠ .nil ∨ y ≠ .nil) :
    ptrOf x ≠ ptrOf y := by
  have hnodup := h.nodup_plug.2.1
  rw [addrs_mk, Multiset.nodup_cons, Multiset.nodup_add] at hnodup
  have hdisj := hnodup.2.2.2
  intro heq
  have hx : x ≠ .nil := by
    intro hx
    rw [hx] at heq
    exact hxy.elim (fun h => h hx) fun h => h (ptrOf_eq_null.mp heq.symm)
  have hy : y ≠ .nil := by
    intro hy
    rw [hy] at heq
    exact hx (ptrOf_eq_null.mp heq)
  apply Multiset.disjoint_left.mp hdisj (ptrOf_mem hx)
  rw [heq]
  exact ptrOf_mem hy

theorem Holds.sideOf_eq (h : Holds e (ctx.plug (CTree.mk d c x a y)) s)
    (hxy : x ≠ .nil ∨ y ≠ .nil) :
    RbTree.sideOf (s.mem a.ptr) (ptrOf x) = d := by
  have hne := h.ptrOf_ne hxy
  rw [h.cell_eq]
  cases d with
  | left => exact if_pos rfl
  | right => exact if_neg hne

/-! ### Rotations -/

theorem RepCtx.relink {sib : CTree Entry} (h : RepCtx s.mem r (.step d c a sib up) q)
    (hq : q ∉ addrsAround (.step d c a sib up)) (hnull : q ≠ .null) (p : Ptr) :
    s.relink a.ptr q p = s.modify a.ptr (RbNode.setChild d p) := by
  obtain ⟨ha, -, -⟩ := h
  rw [RbTree.relink, RbTree.load_ptr, ok_bind, ha]
  cases d with
  | left => rw [if_pos (by rfl)]
  | right =>
    rw [if_neg]
    intro heq
    have hsib : ptrOf sib = q := heq
    by_cases hnil : sib = .nil
    · rw [hnil] at hsib
      exact hnull hsib.symm
    · apply hq
      rw [← hsib, addrsAround_step, Multiset.mem_cons, Multiset.mem_add]
      exact .inr (.inl (ptrOf_mem hnil))

theorem RepCtx.refill {mem mem' : Ptr → RbNode} {sib : CTree Entry}
    (h : RepCtx mem r (.step d c a sib up) q)
    (hnodup : (addrsAround (.step d c a sib up)).Nodup)
    (ha : mem' a.ptr = (mem a.ptr).setChild d p)
    (hother : ∀ q ∈ addrsAround (.step d c a sib up), q ≠ a.ptr → mem' q = mem q) :
    RepCtx mem' r (.step d c a sib up) p := by
  obtain ⟨hcell, hsib, hup⟩ := h
  simp only [addrsAround_step, Multiset.nodup_cons, Multiset.mem_add, not_or] at hnodup
  simp only [addrsAround_step, Multiset.mem_cons, Multiset.mem_add] at hother
  obtain ⟨⟨hasib, haup⟩, -⟩ := hnodup
  refine ⟨?_, hsib.congr fun q hq => ?_, hup.congr fun q hq => ?_⟩
  · rw [ha, hcell, cell_setNear]
  · exact hother q (.inr (.inl hq)) (ne_of_mem_of_not_mem hq hasib)
  · exact hother q (.inr (.inr hq)) (ne_of_mem_of_not_mem hq haup)

theorem topOf_mem {sib : CTree Entry} : topOf (.step d c a sib up) p ∈
    addrsAround (.step d c a sib up) := by
  induction up generalizing d c a sib p with
  | top =>
    rw [topOf, topOf, addrsAround_step]
    exact Multiset.mem_cons_self _ _
  | step d' c' a' sib' up ih =>
    rw [topOf, addrsAround_step, Multiset.mem_cons, Multiset.mem_add]
    exact .inr (.inr ih)

theorem replace_spec (hroot : s.root = topOf ctx q) (hctx : RepCtx s.mem r ctx q)
    (hnodup : (addrsAround ctx).Nodup) (hq : q ∉ addrsAround ctx) (hnode : ∃ a, q = Ptr.node a)
    (hparent : (s.mem q).parent = parentOf r ctx) (p : Ptr) :
    ∃ s', s.replace q p = .ok s' ∧ s'.root = topOf ctx p ∧ s'.size = s.size ∧
      RepCtx s'.mem r ctx p ∧ ∀ q', q' ∉ addrsAround ctx → s'.mem q' = s.mem q' := by
  obtain ⟨k, rfl⟩ := hnode
  cases ctx with
  | top =>
    rw [RbTree.replace, if_pos (by exact hroot.symm)]
    exact ⟨_, rfl, rfl, rfl, trivial, fun _ _ => rfl⟩
  | step d c a sib up =>
    have hne : Ptr.node k ≠ s.root := by
      rw [hroot]
      exact (ne_of_mem_of_not_mem topOf_mem hq).symm
    have hload : s.load (.node k) = .ok (s.mem (.node k)) := rfl
    rw [RbTree.replace, if_neg hne, hload, ok_bind, hparent, parentOf, hctx.relink hq
      Ptr.noConfusion]
    obtain ⟨s', hs', ha, hkeep⟩ := modify_spec s a (RbNode.setChild d p)
    refine ⟨s', hs', hkeep.root.trans hroot, hkeep.size, hctx.refill hnodup ha fun q _ hq =>
      hkeep.of_ne hq, ?_⟩
    intro q' hq'
    apply hkeep.of_ne
    intro heq
    rw [heq, addrsAround_step] at hq'
    exact hq' (Multiset.mem_cons_self _ _)

theorem reparent_spec (h : ∃ q, Rep s.mem q t) (hnodup : (addrs t).Nodup) (p : Ptr) :
    ∃ s', s.reparent (ptrOf t) p = .ok s' ∧ Rep s'.mem p t ∧ Keeps (addrs t) s s' := by
  obtain ⟨q, hrep⟩ := h
  cases t with
  | nil =>
    exact ⟨s, rfl, trivial, rfl, rfl, fun _ _ => rfl⟩
  | node c x a y =>
    obtain ⟨ha, hx, hy⟩ := hrep
    have haddrs : addrs (.node c x a y) = a.ptr ::ₘ (addrs x + addrs y) := addrs_mk (d := .left)
    rw [haddrs, Multiset.nodup_cons, Multiset.mem_add, not_or] at hnodup
    have hmodify : s.reparent (ptrOf (.node c x a y)) p = .ok { s with
        mem := Function.update s.mem a.ptr ((s.mem a.ptr).setParent p) } := if_pos a.ptr_ne_null
    refine ⟨_, hmodify, ⟨?_, hx.congr fun q hq => ?_, hy.congr fun q hq => ?_⟩, rfl, rfl,
      fun q hq => ?_⟩
    · dsimp only
      rw [Function.update_self, ha, cell_setParent]
    · exact Function.update_of_ne (ne_of_mem_of_not_mem hq hnodup.1.1) _ _
    · exact Function.update_of_ne (ne_of_mem_of_not_mem hq hnodup.1.2) _ _
    · apply Function.update_of_ne
      intro heq
      rw [heq, haddrs] at hq
      exact hq (Multiset.mem_cons_self _ _)

theorem linkDown_spec (hab : a.ptr ≠ b.ptr) (s : RbTree) (d : Dir) :
    ∃ s', s.linkDown d a.ptr b.ptr = .ok s' ∧ s'.mem a.ptr = (s.mem a.ptr).setParent b.ptr ∧
      s'.mem b.ptr = (s.mem b.ptr).setChild d a.ptr ∧ Keeps {a.ptr, b.ptr} s s' := by
  have hne : ∀ q, q ∉ ({a.ptr, b.ptr} : Multiset Ptr) → q ≠ a.ptr ∧ q ≠ b.ptr := by
    intro q hq
    simpa only [Multiset.insert_eq_cons, Multiset.mem_cons, Multiset.mem_singleton, not_or] using hq
  cases d with
  | left =>
    obtain ⟨s1, hs1, ha1, hkeep1⟩ := modify_spec s a (RbNode.setParent b.ptr)
    obtain ⟨s2, hs2, hb2, hkeep2⟩ := modify_spec s1 b (RbNode.setChild .left a.ptr)
    refine ⟨s2, by rw [RbTree.linkDown, hs1, ok_bind, hs2], (hkeep2.of_ne hab).trans ha1, ?_,
      hkeep2.root.trans hkeep1.root, hkeep2.size.trans hkeep1.size, fun q hq => ?_⟩
    · rw [hb2, hkeep1.of_ne hab.symm]
    · rw [hkeep2.of_ne (hne q hq).2, hkeep1.of_ne (hne q hq).1]
  | right =>
    obtain ⟨s1, hs1, hb1, hkeep1⟩ := modify_spec s b (RbNode.setChild .right a.ptr)
    obtain ⟨s2, hs2, ha2, hkeep2⟩ := modify_spec s1 a (RbNode.setParent b.ptr)
    refine ⟨s2, by rw [RbTree.linkDown, hs1, ok_bind, hs2], ?_, (hkeep2.of_ne hab.symm).trans hb1,
      hkeep2.root.trans hkeep1.root, hkeep2.size.trans hkeep1.size, fun q hq => ?_⟩
    · rw [ha2, hkeep1.of_ne hab]
    · rw [hkeep2.of_ne (hne q hq).1, hkeep1.of_ne (hne q hq).2]

/-- A rotation in memory is the rotation of the tree. -/
theorem Holds.rotate (h : Holds e (ctx.plug (CTree.mk d c x a (CTree.mk d c' y b z))) s) :
    ∃ s', s.rotate d a.ptr = .ok s' ∧
      Holds e (ctx.plug (CTree.mk d c' (CTree.mk d c x a y) b z)) s' := by
  obtain ⟨hctx, hrep⟩ := h.focus
  obtain ⟨ha, hx, hrep⟩ := rep_mk.mp hrep
  obtain ⟨hb, hy, hz⟩ := rep_mk.mp hrep
  rw [ptrOf_mk] at hctx ha
  obtain ⟨hnctx, hnodup, hdisj⟩ := h.nodup_plug
  simp only [addrs_mk, Multiset.nodup_cons, Multiset.nodup_add, Multiset.mem_add, Multiset.mem_cons,
    not_or, Multiset.disjoint_cons_right, Multiset.disjoint_add_right] at hnodup
  obtain ⟨⟨hax, hab, hay, haz⟩, -, ⟨⟨hby, hbz⟩, hny, -, hyz⟩, hbx, hxy, -⟩ := hnodup
  simp only [addrs_mk, Multiset.mem_add, Multiset.mem_cons, not_or] at hdisj
  have hactx : a.ptr ∉ addrsAround ctx := fun hq => (hdisj _ hq).1 rfl
  have hbctx : b.ptr ∉ addrsAround ctx := fun hq => (hdisj _ hq).2.2.1 rfl
  have hroot := h.root
  rw [ptrOf_plug, ptrOf_mk] at hroot
  -- `b` takes the place of `a`
  obtain ⟨s1, hmodify1, hb1, hs1⟩ := modify_spec s b (RbNode.setParent (parentOf e.above ctx))
  have ha1 := (hs1.of_ne hab).trans ha
  obtain ⟨s2, hreplace, hroot2, hsize2, hctx2, hs2⟩ := replace_spec (hs1.root.trans hroot)
    (hctx.congr fun q hq => hs1.of_ne (ne_of_mem_of_not_mem hq hbctx)) hnctx hactx
    ⟨a.addr, rfl⟩ (by rw [ha1, cell_parent]) b.ptr
  -- `a` becomes a child of `b`, and `y` one of `a`
  obtain ⟨s3, hdown, ha3, hb3, hs3⟩ := linkDown_spec hab s2 d
  obtain ⟨s4, hmodify4, ha4, hs4⟩ := modify_spec s3 a (RbNode.setChild d.flip (ptrOf y))
  have hkept : ∀ q, q ≠ a.ptr → q ≠ b.ptr → q ∉ addrsAround ctx → s4.mem q = s.mem q := by
    intro q hqa hqb hq
    rw [hs4.of_ne hqa, hs3.of_ne_of_ne hqa hqb, hs2 q hq, hs1.of_ne hqb]
  have hrepy : Rep s4.mem b.ptr y := hy.congr fun q hq => hkept q (ne_of_mem_of_not_mem hq hay)
    (ne_of_mem_of_not_mem hq hby) fun hctx => (hdisj q hctx).2.2.2.1 hq
  obtain ⟨s5, hre, hy5, hs5⟩ := reparent_spec ⟨b.ptr, hrepy⟩ hny a.ptr
  refine ⟨s5, ?_, h.change ?_ ?_ ?_ ?_ ?_ ?_⟩
  · rw [RbTree.rotate]
    simp only [RbTree.load_ptr, ok_bind, ha, cell_far, hb, cell_near, cell_parent, hmodify1,
      hreplace, hdown, hmodify4, hre]
  · rw [addrs_mk, addrs_mk, addrs_mk, addrs_mk, Multiset.cons_add, Multiset.add_cons,
      Multiset.cons_swap, Multiset.add_assoc]
  · rw [hs5.root, hs4.root, hs3.root, hroot2, ptrOf_mk]
  · rw [hs5.size, hs4.size, hs3.size, hsize2, hs1.size]
  · rw [ptrOf_mk]
    apply hctx2.congr
    intro q hq
    obtain ⟨hqa, -, hqb, hqy, -⟩ := hdisj q hq
    rw [hs5.mem q hqy, hs4.of_ne hqa, hs3.of_ne_of_ne hqa hqb]
  · refine rep_mk.mpr ⟨?_, rep_mk.mpr ⟨?_, ?_, hy5⟩, ?_⟩
    · rw [hs5.mem _ hby, hs4.of_ne (Ne.symm hab), hb3, hs2 _ hbctx, hb1, hb, cell_setParent,
        cell_setNear, ptrOf_mk]
    · rw [hs5.mem _ hay, ha4, ha3, hs2 _ hactx, ha1, cell_setParent, cell_setFar]
    · apply hx.congr
      intro q hq
      rw [hs5.mem q (Multiset.disjoint_left.mp hxy hq), hkept q (ne_of_mem_of_not_mem hq hax)
        (ne_of_mem_of_not_mem hq hbx) fun hctx => (hdisj q hctx).2.1 hq]
    · apply hz.congr
      intro q hq
      rw [hs5.mem q (Multiset.disjoint_right.mp hyz hq), hkept q (ne_of_mem_of_not_mem hq haz)
        (ne_of_mem_of_not_mem hq hbz) fun hctx => (hdisj q hctx).2.2.2.2 hq]
  · intro q hqctx hq
    simp only [addrs_mk, Multiset.mem_add, Multiset.mem_cons, not_or] at hq
    rw [hs5.mem q hq.2.2.2.1, hkept q hq.1 hq.2.2.1 hqctx]

end

end TstMuduo.ConnHash
