import Mathlib.Data.Finset.Card
import TstMuduo.ConnHash.RbTreeDelete

/-!
# Runs of the red-black tree

Nodes are inserted and deleted in any order; the memory of a node that is not in the tree is the
caller's. While every node is inserted at most once, and removed nodes keep what was left in them,
the tree is a red-black tree after every operation. If the memory of removed nodes is used again,
that is so exactly if the root is never deleted when it has one child: then the child keeps a
pointer to the deleted node.
-/

namespace TstMuduo.ConnHash
open TstMuduo.Lib CTree Ctx

/-- The tree, the nodes that have been in it at some time, and those that are in it. -/
structure RbState where
  tree : RbTree
  ever : Finset Nat
  live : Finset Nat

inductive RbAct where
  | insert (a : Nat)
  | delete (a : Nat)
  | store (a : Nat) (n : RbNode)
  deriving DecidableEq, Repr

namespace RbState

def fuel (s : RbState) : Nat := s.live.card + 2

/- A node is inserted or written by the caller only while it is not in the tree, and deleted only
while it is. -/
def step (s : RbState) : RbAct → Option (Except RbFault RbState)
  | .insert a =>
    if a ∈ s.live then none
    else some do
      let tree ← s.tree.insert s.fuel (.node a)
      return ⟨tree, insert a s.ever, insert a s.live⟩
  | .delete a =>
    if a ∈ s.live then some do
      let tree ← s.tree.delete s.fuel (.node a)
      return ⟨tree, s.ever, s.live.erase a⟩
    else none
  | .store a n =>
    if a ∈ s.live then none
    else some (.ok { s with tree.mem := Function.update s.tree.mem (.node a) n })

def machine (mem : Ptr → RbNode) : Machine RbState RbAct RbFault where
  init := ⟨RbTree.init mem, ∅, ∅⟩
  step := step

/-- No node is inserted a second time, and what the tree has left in a removed node stays. -/
def Fresh (s : RbState) : RbAct → Prop
  | .insert a | .store a _ => a ∉ s.ever
  | .delete _ => True

/-- The root is not deleted while it has exactly one child. -/
def KeepsRoot (s : RbState) : RbAct → Prop
  | .delete a => ¬ OneChildRoot s.tree (.node a)
  | _ => True

/-- The tree in memory is a red-black search tree of the nodes in it: the key, the parent, both
children and the colour of every node are those of `t`, up to the parent `r` of the root. -/
def Sound (s : RbState) : Prop :=
  ∃ t r, s.tree.root = ptrOf t ∧ Rep s.tree.mem r t ∧ (∃ m, RB t .black m) ∧
    t.inorder.Pairwise (fun a b => a.key ≤ b.key) ∧ (s.tree.mem .null).isblack = true ∧
    t.labels.map Entry.addr = s.live.val ∧ s.tree.size = BitVec.ofNat 32 s.live.card

def Inside (s : RbState) (p : Ptr) : Prop := p = .null ∨ ∃ a ∈ s.live, p = .node a

/-- The pointers of the nodes in the tree go to such nodes or to the sentinel. -/
def NoStale (s : RbState) : Prop :=
  ∀ a ∈ s.live, s.Inside (s.tree.mem (.node a)).parent ∧ s.Inside (s.tree.mem (.node a)).left ∧
    s.Inside (s.tree.mem (.node a)).right

/-! ### The invariant -/

/-- The tree is valid with `r` as the parent of its root. -/
def Inv (s : RbState) (r : Ptr) : Prop :=
  ∃ e t, Valid e t s.tree ∧ e.above = r ∧ t.labels.map Entry.addr = s.live.val ∧
    e.size = BitVec.ofNat 32 s.live.card

variable {s s' : RbState} {r : Ptr} {t : CTree Entry} {a : Nat}

theorem mem_addrs_iff (h : t.labels.map Entry.addr = s.live.val) :
    Ptr.node a ∈ addrs t ↔ a ∈ s.live := by
  rw [← Finset.mem_val, ← h, addrs, Multiset.mem_map, Multiset.mem_map]
  constructor
  · rintro ⟨b, hb, heq⟩
    exact ⟨b, hb, Ptr.node.inj heq⟩
  · rintro ⟨b, hb, rfl⟩
    exact ⟨b, hb, rfl⟩

theorem card_labels (h : t.labels.map Entry.addr = s.live.val) : t.labels.card = s.live.card := by
  rw [← Multiset.card_map Entry.addr, h]
  rfl

theorem inv_init (mem : Ptr → RbNode) : (machine mem).init.Inv .null := by
  have hblack : ((Function.update mem .null (mem .null).black) .null).color = 1 := by
    rw [Function.update_self]
    rfl
  refine ⟨⟨Function.update mem .null (mem .null).black, .null, 0⟩, .nil, ⟨?_, ⟨0, .nil⟩, .nil⟩, rfl,
    rfl, rfl⟩
  exact holds_self (RbTree.init mem) .null .top .nil rfl trivial trivial Multiset.nodup_zero
    Ptr.noConfusion (Multiset.notMem_zero _) hblack hblack

theorem Inv.sound (h : s.Inv r) : s.Sound := by
  obtain ⟨e, t, hvalid, -, hlive, hsize⟩ := h
  exact ⟨t, e.above, hvalid.holds.root, hvalid.holds.rep, hvalid.rb, hvalid.sorted,
    decide_eq_true hvalid.holds.null_color, hlive, hvalid.holds.size.trans hsize⟩

theorem Inv.fuel_le (hlive : t.labels.map Entry.addr = s.live.val) :
    t.labels.card + 2 ≤ s.fuel := by
  rw [card_labels hlive, fuel]

theorem Inv.insert (h : s.Inv r) (ha : a ∉ s.live) (hr : r ≠ .node a) :
    ∃ tree, s.tree.insert s.fuel (.node a) = .ok tree ∧
      (Inv ⟨tree, Insert.insert a s.ever, Insert.insert a s.live⟩ r ∨
        Inv ⟨tree, Insert.insert a s.ever, Insert.insert a s.live⟩ .null) := by
  obtain ⟨e, t, hvalid, rfl, hlive, hsize⟩ := h
  obtain ⟨tree, t', q, htree, hq, hvalid', hlabels⟩ := Valid.insert
    (a := ⟨a, (s.tree.mem (.node a)).key⟩) hvalid (mt (mem_addrs_iff hlive).mp ha) hr rfl
    (Inv.fuel_le hlive)
  have hinv : Inv ⟨tree, Insert.insert a s.ever, Insert.insert a s.live⟩ q := by
    refine ⟨_, t', hvalid', rfl, ?_, ?_⟩
    · rw [hlabels, Multiset.map_cons, hlive, Finset.insert_val_of_notMem ha]
    · dsimp only
      rw [hsize, Finset.card_insert_of_notMem ha, BitVec.ofNat_add]
      rfl
  refine ⟨tree, htree, ?_⟩
  rcases hq with rfl | rfl
  · exact .inl hinv
  · exact .inr hinv

theorem Inv.delete (h : s.Inv r) (ha : a ∈ s.live) :
    ∃ tree, s.tree.delete s.fuel (.node a) = .ok tree ∧
      (OneChildRoot s.tree (.node a) → Inv ⟨tree, s.ever, s.live.erase a⟩ (.node a)) ∧
      (¬ OneChildRoot s.tree (.node a) → Inv ⟨tree, s.ever, s.live.erase a⟩ r ∨
        Inv ⟨tree, s.ever, s.live.erase a⟩ .null) := by
  obtain ⟨e, t, hvalid, rfl, hlive, hsize⟩ := h
  have hmem : a ∈ t.labels.map Entry.addr := by rw [hlive]; exact ha
  obtain ⟨b, hb, rfl⟩ := Multiset.mem_map.mp hmem
  obtain ⟨tree, e', t', htree, hvalid', hlabels, hsize', hone, hother⟩ := hvalid.delete hb
    (Inv.fuel_le hlive)
  have hinv : ∀ q, e'.above = q → Inv ⟨tree, s.ever, s.live.erase b.addr⟩ q := by
    intro q hq
    refine ⟨e', t', hvalid', hq, ?_, ?_⟩
    · rw [hlabels, Multiset.map_cons] at hlive
      rw [Finset.erase_val, ← hlive, Multiset.erase_cons_head]
    · dsimp only
      have hpos := Finset.card_pos.mpr ⟨_, ha⟩
      obtain ⟨k, hk⟩ : ∃ k, s.live.card = k + 1 := ⟨s.live.card - 1, by omega⟩
      rw [hsize', hsize, Finset.card_erase_of_mem ha, hk, Nat.add_sub_cancel, BitVec.ofNat_add]
      exact BitVec.add_sub_cancel _ _
  exact ⟨tree, htree, fun h => hinv _ (hone h), fun h => (hother h).imp (hinv _) (hinv _)⟩

/-- The caller stores into a node outside, which is not the one above the root. -/
theorem Inv.store (h : s.Inv r) (ha : a ∉ s.live) (hr : r ≠ .node a) (n : RbNode) :
    Inv { s with tree.mem := Function.update s.tree.mem (.node a) n } r := by
  obtain ⟨e, t, hvalid, rfl, hlive, hsize⟩ := h
  have hout : Ptr.node a ∉ addrs t := mt (mem_addrs_iff hlive).mp ha
  have hkeep : ∀ q, q ≠ .node a → Function.update s.tree.mem (.node a) n q = s.tree.mem q :=
    fun q hq => Function.update_of_ne hq _ _
  have hh := hvalid.holds
  refine ⟨⟨Function.update s.tree.mem (.node a) n, e.above, e.size⟩, t,
    ⟨?_, hvalid.rb, hvalid.sorted⟩, rfl, hlive, hsize⟩
  exact {
    root := hh.root
    size := hh.size
    rep := hh.rep.congr fun q hq => hkeep q (ne_of_mem_of_not_mem hq hout)
    nodup := hh.nodup
    other := fun _ _ => rfl
    above_ne := hh.above_ne
    above_out := hh.above_out
    above_black := by
      dsimp only
      rw [hkeep _ hr]
      exact hh.above_color
    null_black := by
      dsimp only
      rw [hkeep _ Ptr.noConfusion]
      exact hh.null_color }

/-! ### Nodes that are inserted once -/

def Old (s : RbState) (r : Ptr) : Prop := ∀ a, r = .node a → a ∈ s.ever

theorem Inv.step_fresh {act : RbAct} {x : Except RbFault RbState} (h : s.Inv r) (hold : s.Old r)
    (hlive : s.live ⊆ s.ever) (hfresh : s.Fresh act) (hx : s.step act = some x) :
    ∃ t r', x = .ok t ∧ t.Inv r' ∧ t.Old r' ∧ t.live ⊆ t.ever := by
  have hnull : ∀ t : RbState, t.Old .null := fun t a ha => Ptr.noConfusion ha
  cases act with
  | insert a =>
    have ha : a ∉ s.live := fun hmem => hfresh (hlive hmem)
    obtain ⟨tree, htree, hinv⟩ := h.insert ha fun heq => hfresh (hold a heq)
    have hsub : Insert.insert a s.live ⊆ Insert.insert a s.ever :=
      Finset.insert_subset_insert a hlive
    rw [step, if_neg ha, htree] at hx
    cases hx
    rcases hinv with hinv | hinv
    · exact ⟨_, r, rfl, hinv, fun b hb => Finset.mem_insert_of_mem (hold b hb), hsub⟩
    · exact ⟨_, .null, rfl, hinv, hnull _, hsub⟩
  | delete a =>
    by_cases ha : a ∈ s.live
    · obtain ⟨tree, htree, hone, hother⟩ := h.delete ha
      have hsub : s.live.erase a ⊆ s.ever := (Finset.erase_subset a s.live).trans hlive
      rw [step, if_pos ha, htree] at hx
      cases hx
      by_cases hroot : OneChildRoot s.tree (.node a)
      · refine ⟨_, .node a, rfl, hone hroot, ?_, hsub⟩
        intro b hb
        cases hb
        exact hlive ha
      · rcases hother hroot with hinv | hinv
        · exact ⟨_, r, rfl, hinv, hold, hsub⟩
        · exact ⟨_, .null, rfl, hinv, hnull _, hsub⟩
    · rw [step, if_neg ha] at hx
      cases hx
  | store a n =>
    have ha : a ∉ s.live := fun hmem => hfresh (hlive hmem)
    rw [step, if_neg ha] at hx
    cases hx
    exact ⟨_, r, rfl, h.store ha (fun heq => hfresh (hold a heq)) n, hold, hlive⟩

/-- While no node is inserted twice, the tree is a red-black search tree of the nodes in it after
every operation, and all loops end. -/
theorem rbtree_invariants (mem : Ptr → RbNode) (as : List RbAct)
    (hfresh : (machine mem).Along Fresh (machine mem).init as) {x : Except RbFault RbState}
    (hx : (machine mem).run (machine mem).init as = some x) : ∃ s, x = .ok s ∧ s.Sound := by
  have hstep : ∀ s a x, (∃ r, s.Inv r ∧ s.Old r ∧ s.live ⊆ s.ever) → s.Fresh a →
      (machine mem).step s a = some x →
      ∃ t, x = .ok t ∧ ∃ r, t.Inv r ∧ t.Old r ∧ t.live ⊆ t.ever := by
    intro s a x hp hg hx
    obtain ⟨r, hinv, hold, hlive⟩ := hp
    obtain ⟨t, r', ht, hinv'⟩ := hinv.step_fresh hold hlive hg hx
    exact ⟨t, ht, r', hinv'⟩
  have hinit : ∃ r, (machine mem).init.Inv r ∧ (machine mem).init.Old r ∧
      (machine mem).init.live ⊆ (machine mem).init.ever :=
    ⟨.null, inv_init mem, fun a ha => Ptr.noConfusion ha, Finset.Subset.refl ∅⟩
  obtain ⟨s, hs, r, hinv, -⟩ := Machine.run_ok hstep hinit hfresh hx
  exact ⟨s, hs, hinv.sound⟩

instance (s : RbState) (a : RbAct) : Decidable (s.Fresh a) :=
  match a with
  | .insert a | .store a _ => inferInstanceAs (Decidable (a ∉ s.ever))
  | .delete _ => isTrue trivial

instance (s : RbState) (a : RbAct) : Decidable (s.KeepsRoot a) :=
  match a with
  | .delete a => inferInstanceAs (Decidable (¬ OneChildRoot s.tree (.node a)))
  | .insert _ | .store _ _ => isTrue trivial

def sampleNode (key : Int) : RbNode := ⟨key, .NULL, .NULL, .NULL, 0⟩

/- Five nodes, two of them with the same key; the root is deleted, once with one child. -/
def sampleActs : List RbAct :=
  [.store 2 (sampleNode 3), .insert 0, .insert 1, .delete 0, .insert 2, .insert 3,
    .store 4 (sampleNode 9), .insert 4, .delete 1]

theorem rbtree_invariants_five : ∃ s, (machine fun _ => sampleNode 7).run
    (machine fun _ => sampleNode 7).init sampleActs = some (.ok s) ∧ s.Sound := by
  have hfresh : (machine fun _ => sampleNode 7).Along Fresh (machine fun _ => sampleNode 7).init
    sampleActs := by decide +kernel
  have hruns : ((machine fun _ => sampleNode 7).run (machine fun _ => sampleNode 7).init
    sampleActs).isSome = true := by decide +kernel
  obtain ⟨x, hx⟩ := Option.isSome_iff_exists.mp hruns
  obtain ⟨s, rfl, hs⟩ := rbtree_invariants _ _ hfresh hx
  exact ⟨s, hx, hs⟩

/-! ### Nodes that come again -/

theorem rep_inside {mem : Ptr → RbNode} {p q : Ptr} (h : Rep mem p t) (hq : q ∈ addrs t) :
    ((mem q).parent = p ∨ (mem q).parent ∈ addrs t) ∧
      ((mem q).left = .null ∨ (mem q).left ∈ addrs t) ∧
      ((mem q).right = .null ∨ (mem q).right ∈ addrs t) := by
  have hptr : ∀ t : CTree Entry, ptrOf t = .null ∨ ptrOf t ∈ addrs t := by
    intro t
    by_cases ht : t = .nil
    · exact .inl (ptrOf_eq_null.mpr ht)
    · exact .inr (ptrOf_mem ht)
  induction t generalizing p with
  | nil => exact absurd hq (Multiset.notMem_zero q)
  | node c l a r ihl ihr =>
    obtain ⟨ha, hl, hr⟩ := h
    have haddrs : addrs (.node c l a r) = a.ptr ::ₘ (addrs l + addrs r) := addrs_mk (d := .left)
    rw [haddrs] at hq ⊢
    simp only [Multiset.mem_cons, Multiset.mem_add] at hq ⊢
    rcases hq with rfl | hq | hq
    · rw [ha]
      refine ⟨.inl rfl, (hptr l).imp_right fun h => ?_, (hptr r).imp_right fun h => ?_⟩
      · exact .inr (.inl h)
      · exact .inr (.inr h)
    · obtain ⟨h1, h2, h3⟩ := ihl hl hq
      exact ⟨.inr (h1.imp_right .inl), h2.imp_right fun h => .inr (.inl h),
        h3.imp_right fun h => .inr (.inl h)⟩
    · obtain ⟨h1, h2, h3⟩ := ihr hr hq
      exact ⟨.inr (h1.imp_right .inr), h2.imp_right fun h => .inr (.inr h),
        h3.imp_right fun h => .inr (.inr h)⟩

theorem Inv.noStale (h : s.Inv .null) : s.NoStale := by
  obtain ⟨e, t, hvalid, habove, hlive, -⟩ := h
  have hin : ∀ q ∈ addrs t, s.Inside q := by
    intro q hq
    obtain ⟨b, -, rfl⟩ := Multiset.mem_map.mp hq
    exact .inr ⟨b.addr, (mem_addrs_iff hlive).mp hq, rfl⟩
  intro a ha
  obtain ⟨h1, h2, h3⟩ := rep_inside hvalid.holds.rep ((mem_addrs_iff hlive).mpr ha)
  rw [habove] at h1
  exact ⟨h1.elim .inl (hin _), h2.elim .inl (hin _), h3.elim .inl (hin _)⟩

theorem Inv.stale (h : s.Inv (.node a)) (ha : a ∉ s.live) (hne : s.live.Nonempty) :
    ¬ s.NoStale := by
  obtain ⟨e, t, hvalid, habove, hlive, -⟩ := h
  have ht : t ≠ .nil := by
    rintro rfl
    obtain ⟨b, hb⟩ := hne
    rw [← Finset.mem_val, ← hlive] at hb
    exact Multiset.notMem_zero b hb
  obtain ⟨c, x, b, y, rfl⟩ := eq_mk .left ht
  have hb : b.addr ∈ s.live := by
    rw [← mem_addrs_iff hlive, addrs_mk]
    exact Multiset.mem_cons_self _ _
  have hparent : (s.tree.mem (.node b.addr)).parent = .node a := by
    rw [← habove]
    exact (congrArg RbNode.parent (rep_mk.mp hvalid.holds.rep).1).trans (cell_parent ..)
  intro hstale
  obtain ⟨hin, -⟩ := hstale _ hb
  rw [hparent] at hin
  rcases hin with hin | ⟨b', hb', heq⟩
  · cases hin
  · cases heq
    exact ha hb'

theorem Inv.two_le (h : s.Inv r) (ha : a ∈ s.live) (hone : OneChildRoot s.tree (.node a)) :
    2 ≤ s.live.card := by
  obtain ⟨e, t, hvalid, -, hlive, -⟩ := h
  have hmem : a ∈ t.labels.map Entry.addr := by rw [hlive]; exact ha
  obtain ⟨b, hb, rfl⟩ := Multiset.mem_map.mp hmem
  rw [← card_labels hlive]
  exact hvalid.holds.oneChildRoot_card hb hone

theorem Inv.step_keeps {act : RbAct} {x : Except RbFault RbState} (h : s.Inv .null)
    (hg : s.KeepsRoot act) (hx : s.step act = some x) : ∃ t, x = .ok t ∧ t.Inv .null := by
  cases act with
  | insert a =>
    by_cases ha : a ∈ s.live
    · rw [step, if_pos ha] at hx
      cases hx
    · obtain ⟨tree, htree, hinv⟩ := h.insert ha Ptr.noConfusion
      rw [step, if_neg ha, htree] at hx
      cases hx
      exact ⟨_, rfl, hinv.elim id id⟩
  | delete a =>
    by_cases ha : a ∈ s.live
    · obtain ⟨tree, htree, -, hother⟩ := h.delete ha
      rw [step, if_pos ha, htree] at hx
      cases hx
      exact ⟨_, rfl, (hother hg).elim id id⟩
    · rw [step, if_neg ha] at hx
      cases hx
  | store a n =>
    by_cases ha : a ∈ s.live
    · rw [step, if_pos ha] at hx
      cases hx
    · rw [step, if_neg ha] at hx
      cases hx
      exact ⟨_, rfl, h.store ha Ptr.noConfusion n⟩

theorem Inv.step_stale {act : RbAct} (h : s.Inv .null) (hg : ¬ s.KeepsRoot act)
    (hx : s.step act = some (.ok s')) : ¬ s'.NoStale := by
  cases act with
  | insert a => exact absurd trivial hg
  | store a n => exact absurd trivial hg
  | delete a =>
    have hroot : OneChildRoot s.tree (.node a) := not_not.mp hg
    by_cases ha : a ∈ s.live
    · obtain ⟨tree, htree, hone, -⟩ := h.delete ha
      rw [step, if_pos ha, htree] at hx
      cases hx
      apply (hone hroot).stale (Finset.notMem_erase a s.live)
      rw [← Finset.card_pos, Finset.card_erase_of_mem ha]
      have hcard := h.two_le ha hroot
      omega
    · rw [step, if_neg ha] at hx
      cases hx

/-- No pointer in the tree is stale, and the tree is a red-black search tree, after every operation
exactly if the root is never deleted while it has one child. -/
theorem rbtree_no_stale_iff (mem : Ptr → RbNode) (as : List RbAct) {x : Except RbFault RbState}
    (hx : (machine mem).run (machine mem).init as = some x) :
    (∀ pre, pre <+: as → ∃ s, (machine mem).run (machine mem).init pre = some (.ok s) ∧
      s.NoStale ∧ s.Sound) ↔ (machine mem).Along KeepsRoot (machine mem).init as := by
  refine Machine.run_always_iff (P := fun s => s.Inv .null) (Q := fun s => s.NoStale ∧ s.Sound)
    ?_ ?_ ?_ (inv_init mem) hx
  · intro s h
    exact ⟨h.noStale, h.sound⟩
  · intro s a x h hg hx
    exact h.step_keeps hg hx
  · intro s a t h hg hx hq
    exact h.step_stale hg hx hq.1

/- A node that was removed is written and comes again. -/
def reusedActs : List RbAct :=
  [.insert 0, .insert 1, .insert 2, .delete 2, .store 2 (sampleNode 1), .insert 2, .delete 0]

theorem rbtree_no_stale_reused :
    ∃ x, (machine fun _ => sampleNode 7).run (machine fun _ => sampleNode 7).init reusedActs =
        some x ∧
      ∀ pre, pre <+: reusedActs → ∃ s, (machine fun _ => sampleNode 7).run
        (machine fun _ => sampleNode 7).init pre = some (.ok s) ∧ s.NoStale ∧ s.Sound := by
  have hruns : ((machine fun _ => sampleNode 7).run (machine fun _ => sampleNode 7).init
    reusedActs).isSome = true := by decide +kernel
  obtain ⟨x, hx⟩ := Option.isSome_iff_exists.mp hruns
  exact ⟨x, hx, (rbtree_no_stale_iff _ _ hx).mpr (by decide +kernel)⟩

/- The root is deleted while it has one child, and the child still points to it. -/
theorem rbtree_stale_parent : ∃ s, (machine fun _ => sampleNode 7).run
    (machine fun _ => sampleNode 7).init [.insert 0, .insert 1, .delete 0] = some (.ok s) ∧
    s.live = {1} ∧ (s.tree.mem (.node 1)).parent = .node 0 ∧ ¬ (s.NoStale ∧ s.Sound) := by
  obtain ⟨s, hs, hp⟩ := Machine.exists_of_runsTo
    (m := machine fun _ => sampleNode 7) (s := (machine fun _ => sampleNode 7).init)
    (p := fun s => decide (s.live = {1} ∧ (s.tree.mem (.node 1)).parent = .node 0))
    (by decide +kernel : Machine.runsTo _ _ [.insert 0, .insert 1, .delete 0] _ = true)
  obtain ⟨hlive, hparent⟩ := of_decide_eq_true hp
  refine ⟨s, hs, hlive, hparent, fun h => ?_⟩
  obtain ⟨hin, -⟩ := h.1 1 (by rw [hlive]; exact Finset.mem_singleton_self 1)
  rw [hparent] at hin
  rcases hin with hin | ⟨b, hb, heq⟩
  · cases hin
  · cases heq
    rw [hlive] at hb
    exact absurd hb (by decide)

end RbState

end TstMuduo.ConnHash
