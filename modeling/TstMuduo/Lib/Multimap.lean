import Mathlib.Data.List.Nodup

/-!
# Multimaps with stable iterators

The entries stand in the order of their keys. An iterator refers to its entry until that entry
is erased, whatever is inserted or erased beside it, and no iterator is given out twice. So an
iterator that refers to nothing stays so, and `erase` tells.
-/

namespace TstMuduo.Lib

structure Multimap.Node (κ β : Type) where
  iter : Nat
  key : κ
  val : β
  deriving DecidableEq, Repr

structure Multimap (κ β : Type) where
  nodes : List (Multimap.Node κ β)
  fresh : Nat
  nodup : (nodes.map Multimap.Node.iter).Nodup
  lt_fresh : ∀ n ∈ nodes, n.iter < fresh

namespace Multimap

variable {κ β : Type}

def empty : Multimap κ β where
  nodes := []
  fresh := 0
  nodup := List.nodup_nil
  lt_fresh := fun _ h => (List.not_mem_nil h).elim

def insertNode (before : κ → κ → Bool) (n : Node κ β) : List (Node κ β) → List (Node κ β)
  | [] => [n]
  | m :: ms => if before n.key m.key then n :: m :: ms else m :: insertNode before n ms

theorem insertNode_perm (before : κ → κ → Bool) (n : Node κ β) (ns : List (Node κ β)) :
    (insertNode before n ns).Perm (n :: ns) := by
  induction ns with
  | nil => exact List.Perm.refl _
  | cons m ms ih =>
    unfold insertNode
    split
    · exact List.Perm.refl _
    · exact (ih.cons m).trans (List.Perm.swap n m ms)

/-- The new entry has the iterator `m.fresh`. -/
def insert (before : κ → κ → Bool) (m : Multimap κ β) (k : κ) (v : β) : Multimap κ β where
  nodes := insertNode before ⟨m.fresh, k, v⟩ m.nodes
  fresh := m.fresh + 1
  nodup := by
    rw [((insertNode_perm before ⟨m.fresh, k, v⟩ m.nodes).map Node.iter).nodup_iff]
    apply List.nodup_cons.mpr
    refine ⟨?_, m.nodup⟩
    intro hm
    obtain ⟨n, hn, he⟩ := List.mem_map.mp hm
    exact Nat.lt_irrefl _ (he ▸ m.lt_fresh n hn)
  lt_fresh := by
    intro n hn
    rcases List.mem_cons.mp ((insertNode_perm before _ m.nodes).mem_iff.mp hn) with rfl | hn
    · exact Nat.lt_succ_self m.fresh
    · exact Nat.lt_succ_of_lt (m.lt_fresh n hn)

def get (m : Multimap κ β) (it : Nat) : Option (κ × β) :=
  (m.nodes.find? fun n => n.iter = it).map fun n => (n.key, n.val)

/-- Without the entry of the iterator, if it refers to one. -/
def erase (m : Multimap κ β) (it : Nat) : Option (Multimap κ β) :=
  if (m.get it).isSome then
    some {
      nodes := m.nodes.filter fun n => n.iter ≠ it
      fresh := m.fresh
      nodup := m.nodup.sublist (List.filter_sublist.map Node.iter)
      lt_fresh := fun n hn => m.lt_fresh n (List.mem_of_mem_filter hn) }
  else none

variable {m t : Multimap κ β} {before : κ → κ → Bool} {it jt : Nat} {k : κ} {v : β}

theorem get_eq_some : m.get it = some (k, v) ↔ ⟨it, k, v⟩ ∈ m.nodes := by
  constructor
  · intro h
    obtain ⟨n, hn, he⟩ := Option.map_eq_some_iff.mp h
    have hit : n.iter = it := by simpa using List.find?_some hn
    cases he
    rw [← hit]
    exact List.mem_of_find?_eq_some hn
  · intro h
    have hfind : (m.nodes.find? fun n => n.iter = it).isSome := by
      rw [List.find?_isSome]
      exact ⟨_, h, decide_eq_true rfl⟩
    obtain ⟨n, hn⟩ := Option.isSome_iff_exists.mp hfind
    have hit : n.iter = it := by simpa using List.find?_some hn
    have hsame : n = ⟨it, k, v⟩ :=
      List.inj_on_of_nodup_map m.nodup (List.mem_of_find?_eq_some hn) h hit
    rw [get, hn, hsame]
    rfl

theorem get_iter {n : Node κ β} (h : n ∈ m.nodes) : m.get n.iter = some (n.key, n.val) :=
  get_eq_some.mpr h

theorem lt_fresh_of_get (h : m.get it = some (k, v)) : it < m.fresh :=
  m.lt_fresh _ (get_eq_some.mp h)

theorem get_congr {P : Prop} [Decidable P] {e : Option (κ × β)}
    (h : ∀ k v, ⟨it, k, v⟩ ∈ t.nodes ↔ if P then e = some (k, v) else ⟨it, k, v⟩ ∈ m.nodes) :
    t.get it = if P then e else m.get it := by
  apply Option.ext
  rintro ⟨k, v⟩
  rw [get_eq_some, h]
  split
  · exact Iff.rfl
  · exact get_eq_some.symm

theorem get_insert :
    (m.insert before k v).get it = if it = m.fresh then some (k, v) else m.get it := by
  apply get_congr
  intro k' v'
  have hmem : (⟨it, k', v'⟩ : Node κ β) ∈ (m.insert before k v).nodes ↔
      (⟨it, k', v'⟩ : Node κ β) = ⟨m.fresh, k, v⟩ ∨ ⟨it, k', v'⟩ ∈ m.nodes := by
    rw [← List.mem_cons]
    exact (insertNode_perm before _ m.nodes).mem_iff
  rw [hmem]
  split
  next hit =>
    have hnew : (⟨it, k', v'⟩ : Node κ β) ∉ m.nodes := by
      intro hn
      exact Nat.lt_irrefl _ (hit ▸ m.lt_fresh _ hn)
    rw [or_iff_left hnew, hit, Node.mk.injEq, Option.some.injEq, Prod.mk.injEq]
    constructor
    · rintro ⟨-, rfl, rfl⟩
      exact ⟨rfl, rfl⟩
    · rintro ⟨rfl, rfl⟩
      exact ⟨rfl, rfl, rfl⟩
  next hit =>
    apply or_iff_right
    intro h
    exact hit (congrArg Node.iter h)

theorem erase_of_get (h : m.get it = some (k, v)) : ∃ t, m.erase it = some t :=
  ⟨_, if_pos (by rw [h]; rfl)⟩

theorem erase_some (h : m.erase it = some t) :
    t.nodes = m.nodes.filter (fun n => n.iter ≠ it) ∧ t.fresh = m.fresh ∧ (m.get it).isSome := by
  unfold erase at h
  split at h
  next hsome =>
    cases h
    exact ⟨rfl, rfl, hsome⟩
  · cases h

theorem get_erase (h : m.erase it = some t) :
    t.get jt = if jt = it then none else m.get jt := by
  obtain ⟨hnodes, -, -⟩ := erase_some h
  apply get_congr
  intro k v
  rw [hnodes, List.mem_filter, decide_eq_true_iff]
  split
  next hj =>
    constructor
    · rintro ⟨-, hne⟩
      exact absurd hj hne
    · intro he
      cases he
  next hj => exact and_iff_left hj

/-! ### The order of the entries -/

def Ordered (before : κ → κ → Bool) (m : Multimap κ β) : Prop :=
  m.nodes.Pairwise fun n n' => before n'.key n.key = false

theorem insertNode_ordered (hasymm : ∀ a b, before a b = true → before b a = false)
    (htrans : ∀ a b c, before a b = true → before b c = true → before a c = true)
    (n : Node κ β) {ns : List (Node κ β)}
    (h : ns.Pairwise fun n n' => before n'.key n.key = false) :
    (insertNode before n ns).Pairwise fun n n' => before n'.key n.key = false := by
  induction ns with
  | nil => exact List.pairwise_singleton _ _
  | cons m ms ih =>
    obtain ⟨hm, hms⟩ := List.pairwise_cons.mp h
    unfold insertNode
    split
    next hfront =>
      refine List.pairwise_cons.mpr ⟨fun n' hn' => ?_, h⟩
      rcases List.mem_cons.mp hn' with rfl | hn'
      · exact hasymm _ _ hfront
      · by_contra hbefore
        have hlater := htrans _ _ _ ((Bool.not_eq_false _).mp hbefore) hfront
        rw [hm n' hn'] at hlater
        cases hlater
    next hbehind =>
      refine List.pairwise_cons.mpr ⟨fun n' hn' => ?_, ih hms⟩
      rcases List.mem_cons.mp ((insertNode_perm before n ms).mem_iff.mp hn') with rfl | hn'
      · exact (Bool.not_eq_true _).mp hbehind
      · exact hm n' hn'

theorem Ordered.insert (hasymm : ∀ a b, before a b = true → before b a = false)
    (htrans : ∀ a b c, before a b = true → before b c = true → before a c = true)
    (h : m.Ordered before) (k : κ) (v : β) : (m.insert before k v).Ordered before :=
  insertNode_ordered hasymm htrans _ h

theorem Ordered.erase (h : m.Ordered before) (ht : m.erase it = some t) : t.Ordered before := by
  unfold Ordered at h ⊢
  rw [(erase_some ht).1]
  exact h.sublist List.filter_sublist

end Multimap

end TstMuduo.Lib
