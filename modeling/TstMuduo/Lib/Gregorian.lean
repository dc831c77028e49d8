import Mathlib.Algebra.Order.Ring.Int
import Mathlib.Tactic.IntervalCases

/-!
# The proleptic Gregorian calendar

Dates, the day after a date, and the number of a date: how many days it lies after the
first day of the Julian day count.
-/

namespace TstMuduo.Lib

structure CalendarDate where
  year : Int
  month : Int
  day : Int
  deriving DecidableEq, Repr

namespace CalendarDate

def Leap (year : Int) : Prop := 4 ∣ year ∧ ¬ 100 ∣ year ∨ 400 ∣ year

instance (year : Int) : Decidable (Leap year) := by unfold Leap; infer_instance

def daysInMonth (year month : Int) : Int :=
  if month = 2 then
    if Leap year then 29 else 28
  else if month = 4 ∨ month = 6 ∨ month = 9 ∨ month = 11 then 30 else 31

def Valid (d : CalendarDate) : Prop :=
  (1 ≤ d.month ∧ d.month ≤ 12) ∧ 1 ≤ d.day ∧ d.day ≤ daysInMonth d.year d.month

instance (d : CalendarDate) : Decidable d.Valid := by unfold Valid; infer_instance

/-- The next day. -/
def succ (d : CalendarDate) : CalendarDate :=
  if d.day < daysInMonth d.year d.month then { d with day := d.day + 1 }
  else if d.month < 12 then ⟨d.year, d.month + 1, 1⟩
  else ⟨d.year + 1, 1, 1⟩

def daysBeforeMonth (year month : Int) : Int :=
  ((List.range (month - 1).toNat).map fun i : Nat => daysInMonth year (i + 1)).sum

def daysBeforeYear (year : Int) : Int :=
  365 * (year - 1) + (year - 1) / 4 - (year - 1) / 100 + (year - 1) / 400

/-- The days since 1 January. -/
def dayOfYear (d : CalendarDate) : Int := daysBeforeMonth d.year d.month + (d.day - 1)

def dayNumber (d : CalendarDate) : Int := 1721426 + daysBeforeYear d.year + d.dayOfYear

theorem daysBeforeYear_succ (year : Int) :
    daysBeforeYear (year + 1) = daysBeforeYear year + if Leap year then 366 else 365 := by
  unfold daysBeforeYear
  split
  next h =>
    unfold Leap at h
    omega
  next h =>
    unfold Leap at h
    omega

theorem daysBeforeMonth_succ {year month : Int} (h : 1 ≤ month) :
    daysBeforeMonth year (month + 1) = daysBeforeMonth year month + daysInMonth year month := by
  obtain ⟨n, rfl⟩ : ∃ n : Nat, month = n + 1 := ⟨(month - 1).toNat, by omega⟩
  have h1 : ((n : Int) + 1 + 1 - 1).toNat = n + 1 := by omega
  have h2 : ((n : Int) + 1 - 1).toNat = n := by omega
  simp only [daysBeforeMonth, h1, h2, List.range_succ, List.map_append, List.sum_append,
    List.map_cons, List.map_nil, List.sum_cons, List.sum_nil, Int.add_zero]

theorem daysBeforeMonth_march (year : Int) {month : Int} (h1 : 1 ≤ month) (h12 : month ≤ 12) :
    (month ≤ 2 ∧ daysBeforeMonth year month = (153 * (month + 9) + 2) / 5 - 306) ∨
      (3 ≤ month ∧ daysBeforeMonth year month =
        (153 * (month - 3) + 2) / 5 + 59 + if Leap year then 1 else 0) := by
  have hstep : ∀ m, 1 ≤ m → daysBeforeMonth year (m + 1) = daysBeforeMonth year m +
      daysInMonth year m := fun m hm => daysBeforeMonth_succ hm
  have hjan : daysBeforeMonth year 1 = 0 := rfl
  have hfeb : daysBeforeMonth year 2 = 31 := hstep 1 (by decide)
  have hmar : daysBeforeMonth year 3 = 59 + if Leap year then 1 else 0 := by
    have hdays : daysInMonth year 2 = if Leap year then 29 else 28 := rfl
    have := hstep 2 (by decide)
    rw [hfeb, hdays] at this
    rw [show (3 : Int) = 2 + 1 from rfl, this]
    split <;> rfl
  have hapr : daysBeforeMonth year 4 = daysBeforeMonth year 3 + 31 := hstep 3 (by decide)
  have hmay : daysBeforeMonth year 5 = daysBeforeMonth year 4 + 30 := hstep 4 (by decide)
  have hjun : daysBeforeMonth year 6 = daysBeforeMonth year 5 + 31 := hstep 5 (by decide)
  have hjul : daysBeforeMonth year 7 = daysBeforeMonth year 6 + 30 := hstep 6 (by decide)
  have haug : daysBeforeMonth year 8 = daysBeforeMonth year 7 + 31 := hstep 7 (by decide)
  have hsep : daysBeforeMonth year 9 = daysBeforeMonth year 8 + 31 := hstep 8 (by decide)
  have hoct : daysBeforeMonth year 10 = daysBeforeMonth year 9 + 30 := hstep 9 (by decide)
  have hnov : daysBeforeMonth year 11 = daysBeforeMonth year 10 + 31 := hstep 10 (by decide)
  have hdec : daysBeforeMonth year 12 = daysBeforeMonth year 11 + 30 := hstep 11 (by decide)
  interval_cases month <;> omega

theorem Valid.day_le {d : CalendarDate} (h : d.Valid) : d.day ≤ 31 := by
  have hd := h.2.2
  unfold daysInMonth at hd
  split_ifs at hd <;> omega

theorem Valid.dayOfYear_range {d : CalendarDate} (h : d.Valid) :
    0 ≤ d.dayOfYear ∧ d.dayOfYear ≤ 400 := by
  have hday := h.day_le
  obtain ⟨hm, hd⟩ := h
  unfold dayOfYear
  rcases daysBeforeMonth_march d.year hm.1 hm.2 with ⟨hmonth, hdays⟩ | ⟨hmonth, hdays⟩
  · omega
  · split at hdays <;> omega

theorem valid_newYear (year : Int) : (⟨year, 1, 1⟩ : CalendarDate).Valid := by
  have hjan : daysInMonth year 1 = 31 := rfl
  have hday : (1 : Int) ≤ daysInMonth year 1 := by
    rw [hjan]
    decide
  have hmonth : (1 : Int) ≤ 12 := by decide
  exact ⟨⟨Int.le_refl 1, hmonth⟩, Int.le_refl 1, hday⟩

theorem dayNumber_newYear (d : CalendarDate) :
    (⟨d.year, 1, 1⟩ : CalendarDate).dayNumber + d.dayOfYear = d.dayNumber := by
  have hjan : daysBeforeMonth d.year 1 = 0 := rfl
  simp only [dayNumber, dayOfYear, hjan]
  omega

theorem Valid.succ {d : CalendarDate} (h : d.Valid) : d.succ.Valid := by
  obtain ⟨hm, hd⟩ := h
  unfold CalendarDate.succ
  split
  next hlt => exact ⟨hm, by dsimp only; omega, by dsimp only; omega⟩
  · split
    next hlt =>
      refine ⟨⟨by dsimp only; omega, by dsimp only; omega⟩, Int.le_refl 1, ?_⟩
      unfold daysInMonth
      dsimp only
      split_ifs <;> omega
    · have hjan : daysInMonth (d.year + 1) 1 = 31 := rfl
      refine ⟨⟨Int.le_refl 1, by dsimp only; omega⟩, Int.le_refl 1, ?_⟩
      dsimp only
      omega

theorem dayNumber_succ {d : CalendarDate} (h : d.Valid) : d.succ.dayNumber = d.dayNumber + 1 := by
  obtain ⟨hm, hd⟩ := h
  unfold succ
  split
  · simp only [dayNumber, dayOfYear]
    omega
  next hend =>
    split
    · simp only [dayNumber, dayOfYear, daysBeforeMonth_succ hm.1]
      omega
    · have hdec : d.month = 12 := by omega
      have hlast : daysInMonth d.year 12 = 31 := rfl
      have hyear : daysBeforeMonth d.year 12 = 334 + if Leap d.year then 1 else 0 := by
        have hm1 : (1 : Int) ≤ 12 := by decide
        rcases daysBeforeMonth_march d.year hm1 (Int.le_refl 12) with
          ⟨h, -⟩ | ⟨-, h⟩
        · exact absurd h (by decide)
        · rw [h]
          split <;> rfl
      have hjan : daysBeforeMonth (d.year + 1) 1 = 0 := rfl
      rw [hdec, hlast] at hd hend
      simp only [dayNumber, dayOfYear, daysBeforeYear_succ, hdec, hjan, hyear]
      split <;> omega

end CalendarDate

end TstMuduo.Lib
