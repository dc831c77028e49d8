import Mathlib.Data.List.Basic

/-!
# Binary search for the first element that is not before the one sought

`std::lower_bound` as the halving loop computes it. What the loop establishes about the
two elements around its result needs no order of the list.
-/

namespace TstMuduo.Lib

variable {α : Type}

/- The loop: `len` elements from `first` on are left. -/
def lowerBoundLoop (before : α → Bool) (xs : List α) : Nat → Nat → Nat → Nat
  | 0, first, _ => first
  | fuel + 1, first, len =>
    if len = 0 then first
    else
      match xs[first + len / 2]? with
      | none => first
      | some x =>
        if before x then lowerBoundLoop before xs fuel (first + len / 2 + 1) (len - len / 2 - 1)
        else lowerBoundLoop before xs fuel first (len / 2)

def lowerBound (before : α → Bool) (xs : List α) : Nat :=
  lowerBoundLoop before xs xs.length 0 xs.length

/-- The element left of the range is before the one sought, the element right of it is not. -/
structure SearchRange (before : α → Bool) (xs : List α) (first last : Nat) : Prop where
  le_length : last ≤ xs.length
  left : ∀ x, 0 < first → xs[first - 1]? = some x → before x = true
  right : ∀ x, xs[last]? = some x → before x = false

theorem lowerBoundLoop_range {before : α → Bool} {xs : List α} {fuel first len : Nat}
    (h : SearchRange before xs first (first + len)) (hfuel : len ≤ fuel) :
    SearchRange before xs (lowerBoundLoop before xs fuel first len)
      (lowerBoundLoop before xs fuel first len) := by
  induction fuel generalizing first len with
  | zero =>
    have hlen : len = 0 := by omega
    subst hlen
    exact h
  | succ fuel ih =>
    by_cases hlen : len = 0
    · subst hlen
      exact h
    · have hlast := h.le_length
      have hmiddle : first + len / 2 < xs.length := by omega
      simp only [lowerBoundLoop, if_neg hlen, List.getElem?_eq_getElem hmiddle]
      split
      next hbefore =>
        have hend : first + len / 2 + 1 + (len - len / 2 - 1) = first + len := by omega
        apply ih
        · rw [hend]
          refine ⟨hlast, ?_, h.right⟩
          intro x _ hx
          rw [Nat.add_sub_cancel, List.getElem?_eq_getElem hmiddle, Option.some_inj] at hx
          rw [← hx]
          exact hbefore
        · omega
      next hafter =>
        apply ih
        · refine ⟨by omega, h.left, ?_⟩
          intro x hx
          rw [List.getElem?_eq_getElem hmiddle, Option.some_inj] at hx
          rw [← hx]
          exact Bool.eq_false_iff.mpr hafter
        · omega

theorem lowerBound_range (before : α → Bool) (xs : List α) :
    SearchRange before xs (lowerBound before xs) (lowerBound before xs) := by
  apply lowerBoundLoop_range
  · refine ⟨by omega, ?_, ?_⟩
    · intro x h0
      omega
    · intro x hx
      rw [Nat.zero_add, List.getElem?_length] at hx
      cases hx
  · exact Nat.le_refl _

end TstMuduo.Lib
