import Mathlib.Algebra.Order.Group.Defs
import Mathlib.Algebra.BigOperators.Group.List.Basic
import Mathlib.Algebra.Order.BigOperators.Group.List

/-!
# Choosing by a point on a line

The segments of the labels lie on a line one behind the other. A search that adds up their widths
until it has passed a point finds the label whose segment the point is in.
-/

namespace TstMuduo.Lib

variable {α K : Type} [DecidableEq α] [AddCommGroup K] [LinearOrder K] [IsOrderedAddMonoid K]

/-- The label that the search finds for the point `x`, with the first segment at `start`. -/
def segmentAt (width : α → K) (x : K) : List α → K → Option α
  | [], _ => none
  | a :: as, start =>
    if x < start + width a then some a else segmentAt width x as (start + width a)

/-- Where the segment of `a` begins. -/
def segmentStart (width : α → K) (a : α) : List α → K → K
  | [], start => start
  | b :: bs, start => if b = a then start else segmentStart width a bs (start + width b)

variable {width : α → K} {as : List α} {a : α} {x start : K}

omit [DecidableEq α] [IsOrderedAddMonoid K] in
theorem segmentAt_mem (h : segmentAt width x as start = some a) : a ∈ as := by
  induction as generalizing start with
  | nil => exact absurd h (by simp [segmentAt])
  | cons b bs ih =>
    rw [segmentAt] at h
    by_cases hx : x < start + width b
    · rw [if_pos hx] at h
      exact Option.some.inj h ▸ List.mem_cons_self
    · rw [if_neg hx] at h
      exact List.mem_cons_of_mem _ (ih h)

omit [DecidableEq α] [IsOrderedAddMonoid K] in
theorem segmentAt_isSome (h : x < start + (as.map width).sum) (hx : start ≤ x) :
    (segmentAt width x as start).isSome := by
  induction as generalizing start with
  | nil =>
    rw [List.map_nil, List.sum_nil, add_zero] at h
    exact absurd h (not_lt_of_ge hx)
  | cons b bs ih =>
    rw [segmentAt]
    by_cases hb : x < start + width b
    · rw [if_pos hb]
      rfl
    · rw [if_neg hb]
      apply ih _ (le_of_not_gt hb)
      rw [List.map_cons, List.sum_cons, ← add_assoc] at h
      exact h

theorem start_le_segmentStart (hw : ∀ b ∈ as, 0 ≤ width b) :
    start ≤ segmentStart width a as start := by
  induction as generalizing start with
  | nil => exact le_rfl
  | cons b bs ih =>
    rw [segmentStart]
    by_cases hb : b = a
    · rw [if_pos hb]
    · rw [if_neg hb]
      exact (le_add_of_nonneg_right (hw b List.mem_cons_self)).trans
        (ih fun c hc => hw c (List.mem_cons_of_mem _ hc))

theorem segmentStart_add_le (hw : ∀ b ∈ as, 0 ≤ width b) (ha : a ∈ as) :
    segmentStart width a as start + width a ≤ start + (as.map width).sum := by
  induction as generalizing start with
  | nil => exact absurd ha List.not_mem_nil
  | cons b bs ih =>
    have hbs : ∀ c ∈ bs, 0 ≤ width c := fun c hc => hw c (List.mem_cons_of_mem _ hc)
    have hsum : 0 ≤ (bs.map width).sum := by
      apply List.sum_nonneg
      intro y hy
      obtain ⟨c, hc, rfl⟩ := List.mem_map.mp hy
      exact hbs c hc
    rw [segmentStart, List.map_cons, List.sum_cons, ← add_assoc]
    by_cases hb : b = a
    · rw [if_pos hb, hb]
      exact le_add_of_nonneg_right hsum
    · rw [if_neg hb]
      exact ih hbs ((List.mem_cons.mp ha).resolve_left (Ne.symm hb))

theorem segmentAt_eq_some_iff (hw : ∀ b ∈ as, 0 ≤ width b) (hnodup : as.Nodup) (ha : a ∈ as)
    (hx : start ≤ x) : segmentAt width x as start = some a ↔
      segmentStart width a as start ≤ x ∧ x < segmentStart width a as start + width a := by
  induction as generalizing start with
  | nil => exact absurd ha List.not_mem_nil
  | cons b bs ih =>
    obtain ⟨hnot, hnodup⟩ := List.nodup_cons.mp hnodup
    have hbs : ∀ c ∈ bs, 0 ≤ width c := fun c hc => hw c (List.mem_cons_of_mem _ hc)
    rw [segmentAt, segmentStart]
    by_cases hb : b = a
    · subst hb
      rw [if_pos rfl, and_iff_right hx]
      by_cases hlt : x < start + width b
      · exact iff_of_true (if_pos hlt) hlt
      · rw [if_neg hlt]
        exact iff_of_false (fun h => hnot (segmentAt_mem h)) hlt
    · have ha' := (List.mem_cons.mp ha).resolve_left (Ne.symm hb)
      rw [if_neg hb]
      by_cases hlt : x < start + width b
      · rw [if_pos hlt]
        refine iff_of_false (fun h => hb (Option.some.inj h)) fun h => ?_
        exact absurd (hlt.trans_le (start_le_segmentStart hbs)) (not_lt_of_ge h.1)
      · rw [if_neg hlt]
        exact ih hbs hnodup ha' (le_of_not_gt hlt)

end TstMuduo.Lib
