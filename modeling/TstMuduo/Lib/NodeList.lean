import Mathlib.Data.List.Nodup

/-!
# Linked lists whose nodes have an identity

A position in the list is the number of its node. Numbers are not used again, so a
position whose node has been erased can be told from all others.
-/

namespace TstMuduo.Lib

variable {α : Type}

/-- The nodes in their order. -/
structure NodeList (α : Type) where
  cells : List (Nat × α)
  next : Nat
  fresh : ∀ c ∈ cells, c.1 < next
  distinct : (cells.map Prod.fst).Nodup

namespace NodeList

def empty : NodeList α := ⟨[], 0, fun _ h => (List.not_mem_nil h).elim, List.nodup_nil⟩

def contents (l : NodeList α) : List α := l.cells.map Prod.snd

/- What a position shows; `none` if its node is not in the list. -/
def deref (l : NodeList α) (it : Nat) : Option α :=
  (l.cells.find? fun c => c.1 = it).map Prod.snd

def pushFront (l : NodeList α) (a : α) : NodeList α where
  cells := (l.next, a) :: l.cells
  next := l.next + 1
  fresh c hc := by
    rcases List.mem_cons.mp hc with rfl | hc
    · exact Nat.lt_succ_self _
    · exact Nat.lt_succ_of_lt (l.fresh c hc)
  distinct := by
    refine List.nodup_cons.mpr ⟨?_, l.distinct⟩
    intro hmem
    obtain ⟨c, hc, he⟩ := List.mem_map.mp hmem
    have hlt := l.fresh c hc
    omega

def erase (l : NodeList α) (it : Nat) : NodeList α where
  cells := l.cells.filter fun c => c.1 ≠ it
  next := l.next
  fresh c hc := l.fresh c (List.mem_filter.mp hc).1
  distinct := l.distinct.sublist (List.filter_sublist.map _)

def front (l : NodeList α) : Option Nat := l.cells.head?.map Prod.fst
def back (l : NodeList α) : Option Nat := l.cells.getLast?.map Prod.fst

variable {l : NodeList α} {it : Nat} {a : α}

theorem eq_of_mem {b : α} (ha : (it, a) ∈ l.cells) (hb : (it, b) ∈ l.cells) : a = b := by
  have hpair := List.inj_on_of_nodup_map l.distinct ha hb rfl
  exact congrArg Prod.snd hpair

theorem deref_eq_some_iff : l.deref it = some a ↔ (it, a) ∈ l.cells := by
  unfold deref
  constructor
  · intro h
    obtain ⟨c, hc, rfl⟩ := Option.map_eq_some_iff.mp h
    have hit : c.1 = it := by simpa using List.find?_some hc
    rw [← hit]
    exact List.mem_of_find?_eq_some hc
  · intro h
    have hsome : (l.cells.find? fun c => c.1 = it).isSome = true := by
      rw [List.find?_isSome]
      exact ⟨(it, a), h, by simp⟩
    obtain ⟨c, hc⟩ := Option.isSome_iff_exists.mp hsome
    have hit : c.1 = it := by simpa using List.find?_some hc
    have hmem : (it, c.2) ∈ l.cells := by
      rw [← hit]
      exact List.mem_of_find?_eq_some hc
    rw [hc, Option.map_some, eq_of_mem h hmem]

theorem mem_erase {j : Nat} : (j, a) ∈ (l.erase it).cells ↔ (j, a) ∈ l.cells ∧ j ≠ it := by
  simp [erase, List.mem_filter]

theorem deref_erase_self : (l.erase it).deref it = none := by
  cases h : (l.erase it).deref it with
  | none => rfl
  | some a => exact absurd rfl (mem_erase.mp (deref_eq_some_iff.mp h)).2

theorem mem_pushFront {j : Nat} {b : α} :
    (j, b) ∈ (l.pushFront a).cells ↔ (j = l.next ∧ b = a) ∨ (j, b) ∈ l.cells := by
  simp [pushFront, List.mem_cons]

theorem front_pushFront : (l.pushFront a).front = some l.next := rfl

end NodeList

end TstMuduo.Lib
