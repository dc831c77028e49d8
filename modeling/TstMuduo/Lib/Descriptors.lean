import Mathlib.Data.List.Basic
import Mathlib.Logic.Function.Basic

/-!
# Numbered resources

A table with a limit gives out the lowest number that is free. Who holds what is counted for
each number: a table is accounted for when every open number has one holder and a free one
has none.
-/

namespace TstMuduo.Lib

structure Descriptors where
  limit : Nat
  isOpen : Nat → Bool
  fits : ∀ n, isOpen n = true → n < limit

namespace Descriptors

variable {d e : Descriptors} {holders : Nat → Nat} {m n : Nat}

def lowest (d : Descriptors) : Option Nat := (List.range d.limit).find? fun n => !d.isOpen n

theorem lowest_spec (h : d.lowest = some n) : n < d.limit ∧ d.isOpen n = false := by
  have hn := List.find?_some h
  rw [Bool.not_eq_true'] at hn
  exact ⟨List.mem_range.mp (List.mem_of_find?_eq_some h), hn⟩

theorem lowest_ne_none (hn : n < d.limit) (h : d.isOpen n = false) : d.lowest ≠ none := by
  intro hnone
  have hall := List.find?_eq_none.mp hnone n (List.mem_range.mpr hn)
  rw [h] at hall
  exact hall rfl

def take (d : Descriptors) (n : Nat) (hn : n < d.limit) : Descriptors where
  limit := d.limit
  isOpen := Function.update d.isOpen n true
  fits m hm := by
    by_cases h : m = n
    · rw [h]
      exact hn
    · rw [Function.update_of_ne h] at hm
      exact d.fits m hm

/- `open`, `socket`, `accept`: the lowest free number, or none. -/
def alloc (d : Descriptors) : Option (Nat × Descriptors) :=
  match h : d.lowest with
  | some n => some (n, d.take n (lowest_spec h).1)
  | none => none

/- `close`, also of a number that is not open. -/
def close (d : Descriptors) (n : Nat) : Descriptors where
  limit := d.limit
  isOpen := Function.update d.isOpen n false
  fits m hm := by
    by_cases h : m = n
    · rw [h, Function.update_self] at hm
      cases hm
    · rw [Function.update_of_ne h] at hm
      exact d.fits m hm

@[simp] theorem isOpen_close_self : (d.close n).isOpen n = false := Function.update_self n _ _

theorem isOpen_close_of_ne (h : m ≠ n) : (d.close n).isOpen m = d.isOpen m :=
  Function.update_of_ne h _ _

theorem alloc_spec (h : d.alloc = some (n, e)) :
    d.isOpen n = false ∧ e.limit = d.limit ∧ e.isOpen = Function.update d.isOpen n true := by
  unfold alloc at h
  split at h
  next k hk =>
    cases h
    exact ⟨(lowest_spec hk).2, rfl, rfl⟩
  · cases h

theorem alloc_eq_none_iff : d.alloc = none ↔ d.lowest = none := by
  unfold alloc
  split
  next h => simp [h]
  next h => simp [h]

theorem alloc_close_ne_none (h : d.isOpen n = true) : (d.close n).alloc ≠ none := fun hnone =>
  lowest_ne_none (d := d.close n) (d.fits n h) isOpen_close_self (alloc_eq_none_iff.mp hnone)

theorem alloc_close_mono (h : d.alloc ≠ none) (n : Nat) : (d.close n).alloc ≠ none := by
  obtain ⟨m, hm⟩ := Option.ne_none_iff_exists'.mp fun hn => h (alloc_eq_none_iff.mpr hn)
  obtain ⟨hlt, hfree⟩ := lowest_spec hm
  intro hnone
  refine lowest_ne_none (d := d.close n) hlt ?_ (alloc_eq_none_iff.mp hnone)
  by_cases hmn : m = n
  · rw [hmn]
    exact isOpen_close_self
  · rw [isOpen_close_of_ne hmn]
    exact hfree

/-! ### Holders -/

def Accounted (d : Descriptors) (holders : Nat → Nat) : Prop :=
  ∀ n, holders n = (d.isOpen n).toNat

theorem Accounted.isOpen (h : d.Accounted holders) (hn : 0 < holders n) : d.isOpen n = true := by
  have hone := h n
  cases ho : d.isOpen n with
  | true => rfl
  | false =>
    rw [ho] at hone
    exact absurd hone (Nat.ne_of_gt hn)

theorem Accounted.le_one (h : d.Accounted holders) (n : Nat) : holders n ≤ 1 := by
  rw [h n]
  exact Bool.toNat_le _

theorem Accounted.alloc (h : d.Accounted holders) (ha : d.alloc = some (n, e))
    {holders' : Nat → Nat} (he : ∀ k, holders' k = holders k + if k = n then 1 else 0) :
    e.Accounted holders' := by
  obtain ⟨hfree, _, hopen⟩ := alloc_spec ha
  intro k
  by_cases hk : k = n
  · subst hk
    have hzero := h k
    rw [hfree] at hzero
    rw [he, if_pos rfl, hopen, Function.update_self, hzero]
    rfl
  · rw [he, if_neg hk, Nat.add_zero, hopen, Function.update_of_ne hk]
    exact h k

theorem Accounted.close (h : d.Accounted holders) {holders' : Nat → Nat}
    (he : ∀ k, holders k = holders' k + if k = n then 1 else 0) :
    (d.close n).Accounted holders' := by
  intro k
  have hk := h k
  rw [he] at hk
  by_cases hkn : k = n
  · subst hkn
    have hle := Bool.toNat_le (d.isOpen k)
    rw [if_pos rfl] at hk
    rw [isOpen_close_self, Bool.toNat_false]
    omega
  · rw [if_neg hkn, Nat.add_zero] at hk
    rw [isOpen_close_of_ne hkn]
    exact hk

end Descriptors

end TstMuduo.Lib
