import TstMuduo.Lib.CInt
import TstMuduo.Lib.Gregorian

/-!
# Julian day numbers (muduo/base/Date.h, Date.cc)

Every operation on `int` is checked, so that a result also says that nothing overflowed
on the way to it.
-/

namespace TstMuduo.Base
open TstMuduo.Lib

abbrev YearMonthDay := CalendarDate

/- `getJulianDayNumber` (`Date.cc:20`). -/
def getJulianDayNumber (year month day : Int) : Option Int := do
  let a := (← int32 (14 - month)).tdiv 12
  let y ← int32 ((← int32 (year + 4800)) - a)
  let m ← int32 ((← int32 (month + (← int32 (12 * a)))) - 3)
  let s1 ← int32 (day + (← int32 ((← int32 (153 * m)) + 2)).tdiv 5)
  let s2 ← int32 (s1 + (← int32 (y * 365)))
  let s3 ← int32 (s2 + y.tdiv 4)
  let s4 ← int32 (s3 - y.tdiv 100)
  let s5 ← int32 (s4 + y.tdiv 400)
  int32 (s5 - 32045)

/- `getYearMonthDay` (`Date.cc:29`). -/
def getYearMonthDay (julianDayNumber : Int) : Option YearMonthDay := do
  let a ← int32 (julianDayNumber + 32044)
  let b := (← int32 ((← int32 (4 * a)) + 3)).tdiv 146097
  let c ← int32 (a - (← int32 (b * 146097)).tdiv 4)
  let d := (← int32 ((← int32 (4 * c)) + 3)).tdiv 1461
  let e ← int32 (c - (← int32 (1461 * d)).tdiv 4)
  let m := (← int32 ((← int32 (5 * e)) + 2)).tdiv 153
  let day ← int32 ((← int32 (e - (← int32 ((← int32 (153 * m)) + 2)).tdiv 5)) + 1)
  let month ← int32 ((← int32 (m + 3)) - (← int32 (12 * m.tdiv 10)))
  let year ← int32 ((← int32 ((← int32 ((← int32 (b * 100)) + d)) - 4800)) + m.tdiv 10)
  return ⟨year, month, day⟩

/-! ### Without the checks -/

theorem getJulianDayNumber_eq {year month day a y m : Int} (hm1 : 1 ≤ month) (hm2 : month ≤ 12)
    (hd1 : 1 ≤ day) (hd2 : day ≤ 31) (ha : a = (14 - month) / 12) (hy : y = year + 4800 - a)
    (hm : m = month + 12 * a - 3) (hy1 : 0 ≤ y) (hy2 : y ≤ 1400000) :
    getJulianDayNumber year month day =
      some (day + (153 * m + 2) / 5 + y * 365 + y / 4 - y / 100 + y / 400 - 32045) := by
  have hsmall : 0 ≤ a ∧ a ≤ 1 := by omega
  have hmonth : 0 ≤ m ∧ m ≤ 11 := by omega
  have d1 : (14 - month).tdiv 12 = a := by
    rw [ha]
    exact Int.tdiv_eq_ediv_of_nonneg (by omega)
  have d2 : (153 * m + 2).tdiv 5 = (153 * m + 2) / 5 := Int.tdiv_eq_ediv_of_nonneg (by omega)
  have d3 : y.tdiv 4 = y / 4 := Int.tdiv_eq_ediv_of_nonneg hy1
  have d4 : y.tdiv 100 = y / 100 := Int.tdiv_eq_ediv_of_nonneg hy1
  have d5 : y.tdiv 400 = y / 400 := Int.tdiv_eq_ediv_of_nonneg hy1
  have e1 : int32 (14 - month) = some (14 - month) := int32_ok (by omega)
  have e2 : int32 (year + 4800) = some (year + 4800) := int32_ok (by omega)
  have e3 : int32 (year + 4800 - a) = some y := by
    rw [← hy]
    exact int32_ok (by omega)
  have e4 : int32 (12 * a) = some (12 * a) := int32_ok (by omega)
  have e5 : int32 (month + 12 * a) = some (month + 12 * a) := int32_ok (by omega)
  have e6 : int32 (month + 12 * a - 3) = some m := by
    rw [← hm]
    exact int32_ok (by omega)
  -- from here on the numbers count only through their bounds
  clear ha hy hm
  have e7 : int32 (153 * m) = some (153 * m) := int32_ok (by omega)
  have e8 : int32 (153 * m + 2) = some (153 * m + 2) := int32_ok (by omega)
  have e9 : int32 (y * 365) = some (y * 365) := int32_ok (by omega)
  have e10 : int32 (day + (153 * m + 2) / 5) = some (day + (153 * m + 2) / 5) :=
    int32_ok (by omega)
  have e11 : int32 (day + (153 * m + 2) / 5 + y * 365) =
      some (day + (153 * m + 2) / 5 + y * 365) := int32_ok (by omega)
  have e12 : int32 (day + (153 * m + 2) / 5 + y * 365 + y / 4) =
      some (day + (153 * m + 2) / 5 + y * 365 + y / 4) := int32_ok (by omega)
  have e13 : int32 (day + (153 * m + 2) / 5 + y * 365 + y / 4 - y / 100) =
      some (day + (153 * m + 2) / 5 + y * 365 + y / 4 - y / 100) := int32_ok (by omega)
  have e14 : int32 (day + (153 * m + 2) / 5 + y * 365 + y / 4 - y / 100 + y / 400) =
      some (day + (153 * m + 2) / 5 + y * 365 + y / 4 - y / 100 + y / 400) := int32_ok (by omega)
  unfold getJulianDayNumber
  refine bind_of e1 ?_
  rw [d1]
  refine bind_of e2 (bind_of e3 ?_)
  rw [d3, d4, d5]
  refine bind_of e4 (bind_of e5 (bind_of e6 (bind_of e7 (bind_of e8 ?_))))
  rw [d2]
  refine bind_of e10 (bind_of e9 (bind_of e11 (bind_of e12 (bind_of e13 (bind_of e14 ?_)))))
  exact int32_ok (by omega)

/-- The quantities that `getYearMonthDay` goes through: centuries, days in the century, years,
days in the year from March on, and months. -/
structure Split (j a b c d e m : Int) : Prop where
  ha : a = j + 32044
  hb : b = (4 * a + 3) / 146097
  hc : c = a - b * 146097 / 4
  hd : d = (4 * c + 3) / 1461
  he : e = c - 1461 * d / 4
  hm : m = (5 * e + 2) / 153

structure SplitBounds (a b c d e m : Int) : Prop where
  a_range : 0 ≤ a ∧ a ≤ 500032045
  b_range : 0 ≤ b ∧ b ≤ 13691
  c_range : 0 ≤ c ∧ c ≤ 36524
  d_range : 0 ≤ d ∧ d ≤ 99
  e_range : 0 ≤ e ∧ e ≤ 365
  m_range : 0 ≤ m ∧ m ≤ 11

theorem Split.bounds {j a b c d e m : Int} (h : Split j a b c d e m) (h0 : 0 ≤ j)
    (h1 : j ≤ 500000001) : SplitBounds a b c d e m := by
  have ha : 0 ≤ a ∧ a ≤ 500032045 := by
    have := h.ha
    omega
  have hb : 0 ≤ b ∧ b ≤ 13691 := by
    have := h.hb
    omega
  have hc : 0 ≤ c ∧ c ≤ 36524 := by
    have := h.hb
    have := h.hc
    omega
  have hd : 0 ≤ d ∧ d ≤ 99 := by
    have := h.hd
    omega
  have he : 0 ≤ e ∧ e ≤ 365 := by
    have := h.hd
    have := h.he
    omega
  have hm : 0 ≤ m ∧ m ≤ 11 := by
    have := h.hm
    omega
  exact ⟨ha, hb, hc, hd, he, hm⟩

theorem getYearMonthDay_eq {j a b c d e m : Int} (h : Split j a b c d e m) (h0 : 0 ≤ j)
    (h1 : j ≤ 500000001) :
    getYearMonthDay j =
      some ⟨b * 100 + d - 4800 + m / 10, m + 3 - 12 * (m / 10), e - (153 * m + 2) / 5 + 1⟩ := by
  obtain ⟨ha, hb, hc, hd, he, hm⟩ := h.bounds h0 h1
  have d1 : (4 * a + 3).tdiv 146097 = b := by
    rw [h.hb]
    exact Int.tdiv_eq_ediv_of_nonneg (by omega)
  have d2 : (b * 146097).tdiv 4 = b * 146097 / 4 := Int.tdiv_eq_ediv_of_nonneg (by omega)
  have d3 : (4 * c + 3).tdiv 1461 = d := by
    rw [h.hd]
    exact Int.tdiv_eq_ediv_of_nonneg (by omega)
  have d4 : (1461 * d).tdiv 4 = 1461 * d / 4 := Int.tdiv_eq_ediv_of_nonneg (by omega)
  have d5 : (5 * e + 2).tdiv 153 = m := by
    rw [h.hm]
    exact Int.tdiv_eq_ediv_of_nonneg (by omega)
  have d6 : (153 * m + 2).tdiv 5 = (153 * m + 2) / 5 := Int.tdiv_eq_ediv_of_nonneg (by omega)
  have d7 : m.tdiv 10 = m / 10 := Int.tdiv_eq_ediv_of_nonneg hm.1
  have e1 : int32 (j + 32044) = some a := by
    rw [← h.ha]
    exact int32_ok (by omega)
  have e2 : int32 (4 * a) = some (4 * a) := int32_ok (by omega)
  have e3 : int32 (4 * a + 3) = some (4 * a + 3) := int32_ok (by omega)
  have e4 : int32 (b * 146097) = some (b * 146097) := int32_ok (by omega)
  have e5 : int32 (a - b * 146097 / 4) = some c := by
    rw [← h.hc]
    exact int32_ok (by omega)
  have e6 : int32 (4 * c) = some (4 * c) := int32_ok (by omega)
  have e7 : int32 (4 * c + 3) = some (4 * c + 3) := int32_ok (by omega)
  have e8 : int32 (1461 * d) = some (1461 * d) := int32_ok (by omega)
  have e9 : int32 (c - 1461 * d / 4) = some e := by
    rw [← h.he]
    exact int32_ok (by omega)
  have e10 : int32 (5 * e) = some (5 * e) := int32_ok (by omega)
  have e11 : int32 (5 * e + 2) = some (5 * e + 2) := int32_ok (by omega)
  have e12 : int32 (153 * m) = some (153 * m) := int32_ok (by omega)
  have e13 : int32 (153 * m + 2) = some (153 * m + 2) := int32_ok (by omega)
  have e14 : int32 (e - (153 * m + 2) / 5) = some (e - (153 * m + 2) / 5) := int32_ok (by omega)
  have e15 : int32 (e - (153 * m + 2) / 5 + 1) = some (e - (153 * m + 2) / 5 + 1) :=
    int32_ok (by omega)
  have e16 : int32 (m + 3) = some (m + 3) := int32_ok (by omega)
  have e17 : int32 (12 * (m / 10)) = some (12 * (m / 10)) := int32_ok (by omega)
  have e18 : int32 (m + 3 - 12 * (m / 10)) = some (m + 3 - 12 * (m / 10)) := int32_ok (by omega)
  have e19 : int32 (b * 100) = some (b * 100) := int32_ok (by omega)
  have e20 : int32 (b * 100 + d) = some (b * 100 + d) := int32_ok (by omega)
  have e21 : int32 (b * 100 + d - 4800) = some (b * 100 + d - 4800) := int32_ok (by omega)
  have e22 : int32 (b * 100 + d - 4800 + m / 10) = some (b * 100 + d - 4800 + m / 10) :=
    int32_ok (by omega)
  unfold getYearMonthDay
  refine bind_of e1 (bind_of e2 (bind_of e3 ?_))
  rw [d1]
  refine bind_of e4 ?_
  rw [d2]
  refine bind_of e5 (bind_of e6 (bind_of e7 ?_))
  rw [d3]
  refine bind_of e8 ?_
  rw [d4]
  refine bind_of e9 (bind_of e10 (bind_of e11 ?_))
  rw [d5]
  refine bind_of e12 (bind_of e13 ?_)
  rw [d6]
  refine bind_of e14 (bind_of e15 (bind_of e16 ?_))
  rw [d7]
  exact bind_of e17 (bind_of e18 (bind_of e19 (bind_of e20 (bind_of e21 (bind_of e22 rfl)))))

/-! ### Dates and their numbers -/

open CalendarDate

/- The formula of `getJulianDayNumber` with the year from March on. -/
def marchNumber (y m day : Int) : Int :=
  day + (153 * m + 2) / 5 + y * 365 + y / 4 - y / 100 + y / 400 - 32045

theorem dayNumber_eq_marchNumber (year day : Int) {month a : Int} (h1 : 1 ≤ month)
    (h12 : month ≤ 12) (ha : a = (14 - month) / 12) :
    (⟨year, month, day⟩ : CalendarDate).dayNumber =
      marchNumber (year + 4800 - a) (month + 12 * a - 3) day := by
  simp only [dayNumber, dayOfYear, daysBeforeYear, marchNumber]
  rcases daysBeforeMonth_march year h1 h12 with ⟨hmonth, hdays⟩ | ⟨hmonth, hdays⟩
  · have ha1 : a = 1 := by omega
    rw [hdays, ha1]
    omega
  · have ha0 : a = 0 := by omega
    rw [hdays, ha0]
    split
    next hleap =>
      unfold Leap at hleap
      omega
    next hleap =>
      unfold Leap at hleap
      omega

theorem year_range {date : YearMonthDay} (hv : date.Valid) (h0 : -32000 ≤ date.dayNumber)
    (h1 : date.dayNumber ≤ 500000001) : -4800 ≤ date.year ∧ date.year ≤ 1395000 := by
  have hday := hv.dayOfYear_range
  unfold dayNumber daysBeforeYear at h0 h1
  omega

theorem getJulianDayNumber_valid {date : YearMonthDay} (hv : date.Valid)
    (h0 : -32000 ≤ date.dayNumber)
    (h1 : date.dayNumber ≤ 500000001) :
    getJulianDayNumber date.year date.month date.day = some date.dayNumber := by
  obtain ⟨year, month, day⟩ := date
  have hday := hv.day_le
  obtain ⟨⟨hm1, hm2⟩, hd1, -⟩ := hv
  dsimp only at hm1 hm2 hd1 hday
  have hnum := dayNumber_eq_marchNumber year day hm1 hm2 rfl
  rw [hnum] at h0 h1 ⊢
  unfold marchNumber at h0 h1 ⊢
  exact getJulianDayNumber_eq hm1 hm2 hd1 hday rfl rfl rfl (by omega) (by omega)

theorem marchDay_le {year month day a m e : Int} (hv : (⟨year, month, day⟩ : CalendarDate).Valid)
    (ha : a = (14 - month) / 12) (hm : m = month + 12 * a - 3)
    (he : e = (153 * m + 2) / 5 + day - 1) :
    (m ≤ 10 ∧ e < (153 * (m + 1) + 2) / 5) ∨ (m = 11 ∧ e ≤ 364) ∨
      (m = 11 ∧ e = 365 ∧ Leap (year + 4800 - a + 1)) := by
  obtain ⟨⟨hm1, hm2⟩, hd1, hd2⟩ := hv
  dsimp only at hm1 hm2 hd1 hd2
  unfold daysInMonth at hd2
  split_ifs at hd2 with hfeb hleap hshort
  · have hmonth : a = 1 ∧ m = 11 := by omega
    by_cases hlast : day = 29
    · right
      right
      refine ⟨hmonth.2, by omega, ?_⟩
      unfold Leap at hleap ⊢
      omega
    · right
      left
      omega
  · right
    left
    omega
  · left
    rcases hshort with rfl | rfl | rfl | rfl <;> omega
  · left
    interval_cases month <;> omega

theorem century_split {b r e : Int} (hr : 0 ≤ r ∧ r ≤ 99) (he : 0 ≤ e)
    (hleap : e ≤ 364 ∨ e = 365 ∧ r % 4 = 3 ∧ (r = 99 → b % 4 = 3)) :
    b = (4 * (36524 * b + b / 4 + (365 * r + r / 4 + e)) + 3) / 146097 ∧
      365 * r + r / 4 + e = 36524 * b + b / 4 + (365 * r + r / 4 + e) - b * 146097 / 4 ∧
      r = (4 * (365 * r + r / 4 + e) + 3) / 1461 ∧
      e = 365 * r + r / 4 + e - 1461 * r / 4 := by
  refine ⟨?_, ?_, ?_, ?_⟩ <;> omega

theorem marchNumber_split {y m day e : Int} (he : e = (153 * m + 2) / 5 + day - 1) :
    marchNumber y m day + 32044 =
      36524 * (y / 100) + y / 100 / 4 + (365 * (y % 100) + y % 100 / 4 + e) := by
  unfold marchNumber
  omega

/-- A date determines the quantities of `getYearMonthDay` on its number. -/
theorem split_of_valid {year month day a y m e : Int}
    (hv : (⟨year, month, day⟩ : CalendarDate).Valid) (ha : a = (14 - month) / 12)
    (hy : y = year + 4800 - a) (hm : m = month + 12 * a - 3)
    (he : e = (153 * m + 2) / 5 + day - 1) :
    Split (marchNumber y m day) (marchNumber y m day + 32044) (y / 100)
      (365 * (y % 100) + y % 100 / 4 + e) (y % 100) e m := by
  have hlast := marchDay_le hv ha hm he
  rw [← hy] at hlast
  have hmonth : 0 ≤ m ∧ m ≤ 11 := by
    have := hv.1
    dsimp only at this
    omega
  have hday : 0 ≤ e := by
    have := hv.2.1
    dsimp only at this
    omega
  have hmarch : (153 * m + 2) / 5 ≤ e := by
    have := hv.2.1
    dsimp only at this
    omega
  have hm5 : m = (5 * e + 2) / 153 := by
    clear ha hy hm he
    rcases hlast with ⟨h1, h2⟩ | ⟨h1, h2⟩ | ⟨h1, h2, -⟩ <;> omega
  -- the leap day comes at the end of every fourth year, and of a century only if it is
  -- the fourth one
  have hleap : e ≤ 364 ∨ e = 365 ∧ y % 100 % 4 = 3 ∧ (y % 100 = 99 → y / 100 % 4 = 3) := by
    rcases hlast with hlast | hlast | ⟨-, hlast, hl⟩
    · left
      omega
    · left
      omega
    · right
      unfold Leap at hl
      clear ha hy hm he hmarch hm5
      exact ⟨hlast, by omega, by omega⟩
  have hnum := marchNumber_split (y := y) he
  have hr : 0 ≤ y % 100 ∧ y % 100 ≤ 99 := by omega
  obtain ⟨hb, hc, hd, he'⟩ := century_split hr hday hleap
  refine ⟨rfl, ?_, ?_, hd, he', hm5⟩
  · rw [hnum]
    exact hb
  · rw [hnum]
    exact hc

theorem getYearMonthDay_valid {date : YearMonthDay} (hv : date.Valid) (h0 : 0 ≤ date.dayNumber)
    (h1 : date.dayNumber ≤ 500000001) : getYearMonthDay date.dayNumber = some date := by
  obtain ⟨year, month, day⟩ := date
  have hm := hv.1
  dsimp only at hm
  have hnum := dayNumber_eq_marchNumber year day hm.1 hm.2 rfl
  rw [hnum] at h0 h1 ⊢
  rw [getYearMonthDay_eq (split_of_valid hv rfl rfl rfl rfl) h0 h1, Option.some_inj,
    CalendarDate.mk.injEq]
  omega

theorem last_part {n a b c : Int} (hb : b = (4 * a + 3) / (4 * n + 1))
    (hc : c = a - (n * b + b / 4)) (hn : 1 ≤ n) (hlast : c = n) : b % 4 = 3 := by
  have hlt : 4 * a + 3 < (4 * n + 1) * b + (4 * n + 1) := by
    have hmod := Int.mul_ediv_add_emod (4 * a + 3) (4 * n + 1)
    have hrem := Int.emod_lt_of_pos (4 * a + 3) (show 0 < 4 * n + 1 by omega)
    rw [← hb] at hmod
    omega
  have hexpand : (4 * n + 1) * b = 4 * (n * b) + b := by
    rw [Int.add_mul, Int.mul_assoc, Int.one_mul]
  rw [hexpand] at hlt
  omega

theorem Split.leap {j a b c d e m : Int} (h : Split j a b c d e m) (hd : 0 ≤ d ∧ d ≤ 99)
    (hlast : e = 365) : Leap (b * 100 + d + 1) := by
  have hyear : e = c - (365 * d + d / 4) := by
    have := h.he
    omega
  have h4 : d % 4 = 3 := last_part h.hd hyear (by decide) hlast
  have h100 : d = 99 → b % 4 = 3 := by
    intro hd99
    have hc99 : c = 36524 := by
      rw [hlast, hd99] at hyear
      omega
    have hcentury : c = a - (36524 * b + b / 4) := by
      have := h.hc
      clear hyear hc99
      omega
    exact last_part h.hb hcentury (by decide) hc99
  clear hyear hlast
  unfold Leap
  by_cases hd99 : d = 99
  · have hb := h100 hd99
    right
    omega
  · left
    exact ⟨by omega, by omega⟩

theorem Split.day_le {j a b c d e m : Int} (h : Split j a b c d e m) (h0 : 0 ≤ j)
    (h1 : j ≤ 500000001) :
    e - (153 * m + 2) / 5 + 1 ≤
      daysInMonth (b * 100 + d - 4800 + m / 10) (m + 3 - 12 * (m / 10)) := by
  obtain ⟨-, -, -, hd, he, hm⟩ := h.bounds h0 h1
  have hm5 := h.hm
  by_cases hfeb : m = 11
  · have hleap : e = 365 → Leap (b * 100 + d - 4800 + m / 10) := by
      intro hlast
      have hl := h.leap hd hlast
      unfold Leap at hl ⊢
      omega
    unfold daysInMonth
    rw [if_pos (by omega)]
    split
    · omega
    next hnot =>
      have hne : e ≠ 365 := fun hlast => hnot (hleap hlast)
      omega
  · unfold daysInMonth
    rw [if_neg (by omega)]
    split
    next hshort =>
      have hm30 : m = 1 ∨ m = 3 ∨ m = 6 ∨ m = 8 := by omega
      clear hshort
      rcases hm30 with rfl | rfl | rfl | rfl <;> omega
    · omega

theorem valid_of_split {j a b c d e m : Int} (h : Split j a b c d e m) (h0 : 0 ≤ j)
    (h1 : j ≤ 500000001) :
    (⟨b * 100 + d - 4800 + m / 10, m + 3 - 12 * (m / 10), e - (153 * m + 2) / 5 + 1⟩ :
      CalendarDate).Valid ∧
    (⟨b * 100 + d - 4800 + m / 10, m + 3 - 12 * (m / 10), e - (153 * m + 2) / 5 + 1⟩ :
      CalendarDate).dayNumber = j := by
  have hday := h.day_le h0 h1
  obtain ⟨ha, hb, hc, hd, he, hm⟩ := h.bounds h0 h1
  obtain ⟨sa, sb, sc, sd, se, sm⟩ := h
  have hfirst : (153 * m + 2) / 5 ≤ e := by omega
  have hwrap : m ≤ 9 ∧ m / 10 = 0 ∨ 10 ≤ m ∧ m / 10 = 1 := by omega
  have hc4 : b * 146097 / 4 = 36524 * b + b / 4 := by omega
  have hd4 : 1461 * d / 4 = 365 * d + d / 4 := by omega
  rw [hc4] at sc
  rw [hd4] at se
  have hm1 : 1 ≤ m + 3 - 12 * (m / 10) := by omega
  have hm2 : m + 3 - 12 * (m / 10) ≤ 12 := by omega
  have hmarch : (14 - (m + 3 - 12 * (m / 10))) / 12 = m / 10 := by omega
  have hy : b * 100 + d - 4800 + m / 10 + 4800 - m / 10 = b * 100 + d := by omega
  have hm3 : m + 3 - 12 * (m / 10) + 12 * (m / 10) - 3 = m := by omega
  have hday1 : 1 ≤ e - (153 * m + 2) / 5 + 1 := by omega
  refine ⟨⟨⟨hm1, hm2⟩, hday1, hday⟩, ?_⟩
  rw [dayNumber_eq_marchNumber _ _ hm1 hm2 hmarch.symm, hy, hm3]
  unfold marchNumber
  have hquarter : (b * 100 + d) / 4 = 25 * b + d / 4 := by omega
  have hcentury : (b * 100 + d) / 100 = b := by omega
  have hfour : (b * 100 + d) / 400 = b / 4 := by omega
  rw [hquarter, hcentury, hfour]
  omega

theorem getYearMonthDay_date {j : Int} (h0 : 0 ≤ j) (h1 : j ≤ 500000001) :
    ∃ date, getYearMonthDay j = some date ∧ date.Valid ∧ date.dayNumber = j := by
  have hsplit : Split j _ _ _ _ _ _ := ⟨rfl, rfl, rfl, rfl, rfl, rfl⟩
  exact ⟨_, getYearMonthDay_eq hsplit h0 h1, valid_of_split hsplit h0 h1⟩

example : getYearMonthDay 2440588 = some ⟨1970, 1, 1⟩ := by decide

theorem getYearMonthDay_succ {j : Int} {date : YearMonthDay} (h0 : 0 ≤ j) (h1 : j ≤ 500000000)
    (hv : date.Valid) (hnum : date.dayNumber = j) : getYearMonthDay (j + 1) = some date.succ := by
  have hsucc : date.succ.dayNumber = j + 1 := by rw [dayNumber_succ hv, hnum]
  have hdate := getYearMonthDay_valid hv.succ (by omega) (by omega)
  rw [hsucc] at hdate
  exact hdate

end TstMuduo.Base
