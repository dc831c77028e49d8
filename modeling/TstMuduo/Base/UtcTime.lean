import TstMuduo.Base.Date

/-!
# UTC times (muduo/base/TimeZone.cc: `fillHMS`, `toUtcTime`, `fromUtcTime`)

A `time_t` and its `struct tm` in UTC, computed through `Date` and not by the C library.
-/

namespace TstMuduo.Base
open TstMuduo.Lib CalendarDate

/-- Where `tm_zone` points: nowhere, to a literal, or into the abbreviations of a zone. -/
inductive TmZone
  | null
  | literal (text : String)
  | abbreviation (arrbIdx : Nat)
  deriving DecidableEq, Repr

structure Tm where
  sec : Int
  min : Int
  hour : Int
  mday : Int
  mon : Int
  year : Int
  wday : Int
  yday : Int
  isdst : Int
  gmtoff : Int
  zone : TmZone
  deriving DecidableEq, Repr

namespace Tm

/- After `bzero`. -/
def zero : Tm := ⟨0, 0, 0, 0, 0, 0, 0, 0, 0, 0, .null⟩

/-- The date of the broken-down time. -/
def date (utc : Tm) : CalendarDate := ⟨utc.year + 1900, utc.mon + 1, utc.mday⟩

structure Normalised (utc : Tm) : Prop where
  sec_range : 0 ≤ utc.sec ∧ utc.sec < 60
  min_range : 0 ≤ utc.min ∧ utc.min < 60
  hour_range : 0 ≤ utc.hour ∧ utc.hour < 24
  date_valid : utc.date.Valid

end Tm

def kSecondsPerDay : Int := 24 * 60 * 60

def kDaysPerWeek : Int := 7

def kJulianDayOf1970_01_01 : Int := (getJulianDayNumber 1970 1 1).getD 0

theorem kJulianDayOf1970_01_01_eq : kJulianDayOf1970_01_01 = 2440588 := by decide

/- `Date::weekDay` (`Date.h:99`). -/
def weekDay (julianDayNumber : Int) : Option Int := do
  return (← int32 (julianDayNumber + 1)).tmod kDaysPerWeek

/- `fillHMS` (`TimeZone.cc:71`): `seconds` is unsigned. -/
def fillHMS (seconds : Int) (utc : Tm) : Tm :=
  let minutes := seconds / 60
  { utc with sec := seconds % 60, min := minutes % 60, hour := minutes / 60 }

/- The day and the second of the day at the start of `toUtcTime`. -/
def splitDay (secondsSinceEpoch : Int) : Option (Int × Int) := do
  let seconds := castInt32 (secondsSinceEpoch.tmod kSecondsPerDay)
  let days := castInt32 (secondsSinceEpoch.tdiv kSecondsPerDay)
  if seconds < 0 then
    return (← int32 (seconds + kSecondsPerDay), ← int32 (days - 1))
  else
    return (seconds, days)

/- `TimeZone::toUtcTime` (`TimeZone.cc:317`); the header's default for `yday` is `false`. -/
def toUtcTime (secondsSinceEpoch : Int) (yday : Bool) : Option Tm := do
  let utc := { Tm.zero with zone := .literal "GMT" }
  let (seconds, days) ← splitDay secondsSinceEpoch
  let utc := fillHMS (seconds % 4294967296) utc
  let date ← int32 (days + kJulianDayOf1970_01_01)
  let ymd ← getYearMonthDay date
  let utc := { utc with
    year := ← int32 (ymd.year - 1900)
    mon := ← int32 (ymd.month - 1)
    mday := ymd.day
    wday := ← weekDay date }
  if yday then
    let startOfYear ← getJulianDayNumber ymd.year 1 1
    return { utc with yday := ← int32 (date - startOfYear) }
  else
    return utc

/- `TimeZone::fromUtcTime` of the six numbers (`TimeZone.cc:350`). -/
def fromUtcTimeOf (year month day hour minute seconds : Int) : Option Int := do
  let date ← getJulianDayNumber year month day
  let hours ← int32 (hour * 3600)
  let minutes ← int32 (minute * 60)
  let secondsInDay ← int32 ((← int32 (hours + minutes)) + seconds)
  let days ← int32 (date - kJulianDayOf1970_01_01)
  int64 ((← int64 (days * kSecondsPerDay)) + secondsInDay)

/- `TimeZone::fromUtcTime` (`TimeZone.cc:344`). -/
def fromUtcTime (utc : Tm) : Option Int := do
  fromUtcTimeOf (← int32 (utc.year + 1900)) (← int32 (utc.mon + 1)) utc.mday utc.hour utc.min
    utc.sec

/-! ### The day and the second of the day -/

theorem splitDay_eq {t : Int} (h0 : -2000000000 ≤ t / 86400) (h1 : t / 86400 ≤ 2000000000) :
    splitDay t = some (t % 86400, t / 86400) := by
  have hday : kSecondsPerDay = 86400 := rfl
  unfold splitDay
  rw [hday]
  rcases tdiv_tmod_cases t (show (0 : Int) < 86400 by decide) with ⟨hmod, hdiv⟩ | ⟨hneg, hmod, hdiv⟩
  · have hs : castInt32 (t.tmod 86400) = t % 86400 := by
      rw [hmod]
      exact castInt32_ok (by omega)
    have hd : castInt32 (t.tdiv 86400) = t / 86400 := by
      rw [hdiv]
      exact castInt32_ok (by omega)
    have hpos : ¬ t % 86400 < 0 := by omega
    rw [hs, hd, if_neg hpos]
    rfl
  · -- a time before 1970 inside a day: the remainder is negative
    have hs : castInt32 (t.tmod 86400) = t % 86400 - 86400 := by
      rw [castInt32_ok (by omega)]
      omega
    have hd : castInt32 (t.tdiv 86400) = t / 86400 + 1 := by
      rw [hdiv]
      exact castInt32_ok (by omega)
    have hneg' : t % 86400 - 86400 < 0 := by omega
    have es : int32 (t % 86400 - 86400 + 86400) = some (t % 86400) := by
      rw [Int.sub_add_cancel]
      exact int32_ok (by omega)
    have ed : int32 (t / 86400 + 1 - 1) = some (t / 86400) := by
      rw [Int.add_sub_cancel]
      exact int32_ok (by omega)
    rw [hs, hd, if_pos hneg']
    exact bind_of es (bind_of ed rfl)

theorem weekDay_eq {j : Int} (h0 : 0 ≤ j) (h1 : j ≤ 500000001) :
    weekDay j = some ((j + 1) % 7) := by
  have e1 : int32 (j + 1) = some (j + 1) := int32_ok (by omega)
  have d1 : (j + 1).tmod kDaysPerWeek = (j + 1) % 7 := Int.tmod_eq_emod_of_nonneg (by omega)
  unfold weekDay
  refine bind_of e1 ?_
  rw [d1]
  rfl

/-! ### There and back -/

/-- The fields that the second of the day, the date and the request for `tm_yday` give. -/
def utcOf (seconds : Int) (date : CalendarDate) (yday : Bool) : Tm :=
  ⟨seconds % 60, seconds / 60 % 60, seconds / 60 / 60, date.day, date.month - 1,
    date.year - 1900, (date.dayNumber + 1) % 7, if yday then date.dayOfYear else 0, 0, 0,
    .literal "GMT"⟩

theorem toUtcTime_eq {t : Int} {date : CalendarDate} (yday : Bool) (hv : date.Valid)
    (hnum : date.dayNumber = t / 86400 + 2440588) (h0 : 0 ≤ date.dayNumber)
    (h1 : date.dayNumber ≤ 500000000) :
    toUtcTime t yday = some (utcOf (t % 86400) date yday) := by
  have hyear := year_range hv (by omega) (by omega)
  have hstart := dayNumber_newYear date
  have hday := hv.dayOfYear_range
  have hsplit : splitDay t = some (t % 86400, t / 86400) := splitDay_eq (by omega) (by omega)
  have hsec : t % 86400 % 4294967296 = t % 86400 := by omega
  have e1 : int32 (t / 86400 + kJulianDayOf1970_01_01) = some date.dayNumber := by
    rw [kJulianDayOf1970_01_01_eq, ← hnum]
    exact int32_ok (by omega)
  have e2 : getYearMonthDay date.dayNumber = some date := getYearMonthDay_valid hv h0 (by omega)
  have e3 : int32 (date.year - 1900) = some (date.year - 1900) := int32_ok (by omega)
  have e4 : int32 (date.month - 1) = some (date.month - 1) := int32_ok (by have := hv.1; omega)
  have e5 : weekDay date.dayNumber = some ((date.dayNumber + 1) % 7) := weekDay_eq h0 (by omega)
  have e6 : getJulianDayNumber date.year 1 1 = some (⟨date.year, 1, 1⟩ : CalendarDate).dayNumber :=
    getJulianDayNumber_valid (valid_newYear date.year) (by omega) (by omega)
  have e7 : int32 (date.dayNumber - (⟨date.year, 1, 1⟩ : CalendarDate).dayNumber) =
      some date.dayOfYear := by
    have hdiff : date.dayNumber - (⟨date.year, 1, 1⟩ : CalendarDate).dayNumber =
        date.dayOfYear := by omega
    rw [hdiff]
    exact int32_ok (by omega)
  unfold toUtcTime
  refine bind_of hsplit ?_
  dsimp only
  rw [hsec]
  refine bind_of e1 (bind_of e2 (bind_of e3 (bind_of e4 (bind_of e5 ?_))))
  cases yday with
  | false => rfl
  | true => exact bind_of e6 (bind_of e7 rfl)

theorem fromUtcTime_eq {seconds : Int} {date : CalendarDate} (yday : Bool) (hv : date.Valid)
    (h0 : 0 ≤ date.dayNumber) (h1 : date.dayNumber ≤ 500000000) (hs0 : 0 ≤ seconds)
    (hs1 : seconds < 86400) :
    fromUtcTime (utcOf seconds date yday) =
      some ((date.dayNumber - 2440588) * 86400 + seconds) := by
  have hyear := year_range hv (by omega) (by omega)
  have e1 : int32 (date.year - 1900 + 1900) = some date.year := by
    rw [Int.sub_add_cancel]
    exact int32_ok (by omega)
  have e2 : int32 (date.month - 1 + 1) = some date.month := by
    rw [Int.sub_add_cancel]
    exact int32_ok (by have := hv.1; omega)
  have e3 := getJulianDayNumber_valid hv (by omega) (by omega)
  have e4 : int32 (seconds / 60 / 60 * 3600) = some (seconds / 60 / 60 * 3600) :=
    int32_ok (by omega)
  have e5 : int32 (seconds / 60 % 60 * 60) = some (seconds / 60 % 60 * 60) := int32_ok (by omega)
  have e6 : int32 (seconds / 60 / 60 * 3600 + seconds / 60 % 60 * 60) =
      some (seconds / 60 / 60 * 3600 + seconds / 60 % 60 * 60) := int32_ok (by omega)
  have e7 : int32 (seconds / 60 / 60 * 3600 + seconds / 60 % 60 * 60 + seconds % 60) =
      some seconds := by
    rw [show seconds / 60 / 60 * 3600 + seconds / 60 % 60 * 60 + seconds % 60 = seconds by omega]
    exact int32_ok (by omega)
  have e8 : int32 (date.dayNumber - kJulianDayOf1970_01_01) = some (date.dayNumber - 2440588) := by
    rw [kJulianDayOf1970_01_01_eq]
    exact int32_ok (by omega)
  have e9 : int64 ((date.dayNumber - 2440588) * kSecondsPerDay) =
      some ((date.dayNumber - 2440588) * 86400) := int64_ok (by
    rw [show kSecondsPerDay = 86400 from rfl]
    omega)
  unfold fromUtcTime
  refine bind_of e1 (bind_of e2 ?_)
  unfold fromUtcTimeOf
  refine bind_of e3 (bind_of e4 (bind_of e5 (bind_of e6 (bind_of e7 (bind_of e8 (bind_of e9 ?_))))))
  exact int64_ok (by omega)

/-- The day of the time, counted as the Julian day numbers are, is one that `Date` converts. -/
def DayInRange (t : Int) : Prop := 0 ≤ t / 86400 + 2440588 ∧ t / 86400 + 2440588 ≤ 500000000

theorem utcOf_date (seconds : Int) (date : CalendarDate) (yday : Bool) :
    (utcOf seconds date yday).date = date := by
  obtain ⟨year, month, day⟩ := date
  simp only [Tm.date, utcOf, Int.sub_add_cancel]

theorem utcOf_normalised {seconds : Int} {date : CalendarDate} (yday : Bool) (hv : date.Valid)
    (hs0 : 0 ≤ seconds) (hs1 : seconds < 86400) : (utcOf seconds date yday).Normalised := by
  have hdate : (utcOf seconds date yday).date.Valid := by
    rw [utcOf_date]
    exact hv
  exact ⟨by dsimp only [utcOf]; omega, by dsimp only [utcOf]; omega,
    by dsimp only [utcOf]; omega, hdate⟩

theorem utcTime_round_trip {t : Int} (yday : Bool) (hrange : DayInRange t) : ∃ utc : Tm,
    toUtcTime t yday = some utc ∧ fromUtcTime utc = some t ∧ utc.Normalised ∧
      utc.date.dayNumber = t / 86400 + 2440588 ∧
      utc.wday = (4 + t / 86400) % 7 ∧
      utc.yday = if yday then utc.date.dayOfYear else 0 := by
  obtain ⟨h0, h1⟩ := hrange
  obtain ⟨date, -, hv, hnum⟩ := getYearMonthDay_date h0 (by omega)
  have hs0 : 0 ≤ t % 86400 := by omega
  have hs1 : t % 86400 < 86400 := by omega
  have hto := toUtcTime_eq yday hv hnum (by omega) (by omega)
  have hfrom := fromUtcTime_eq yday hv (by omega) (by omega) hs0 hs1
  have ht : (date.dayNumber - 2440588) * 86400 + t % 86400 = t := by omega
  rw [ht] at hfrom
  have hweek : (date.dayNumber + 1) % 7 = (4 + t / 86400) % 7 := by omega
  refine ⟨_, hto, hfrom, utcOf_normalised yday hv hs0 hs1, ?_, hweek, ?_⟩
  · rw [utcOf_date]
    exact hnum
  · rw [utcOf_date]
    rfl

/-- Numbers, dates and times are converted back and forth without loss or overflow, one day
after the other, also before 1970. `tm_yday` is filled in on request only. -/
theorem calendar_arithmetic :
    (∀ j : Int, 0 ≤ j → j ≤ 500000000 → ∃ date : YearMonthDay,
      getYearMonthDay j = some date ∧ date.Valid ∧
        getJulianDayNumber date.year date.month date.day = some j ∧
        getYearMonthDay (j + 1) = some date.succ) ∧
    (∀ date : YearMonthDay, date.Valid → 0 ≤ date.dayNumber → date.dayNumber ≤ 500000000 →
      getJulianDayNumber date.year date.month date.day = some date.dayNumber ∧
        getYearMonthDay date.dayNumber = some date) ∧
    (∀ (t : Int) (yday : Bool), DayInRange t → ∃ utc : Tm,
      toUtcTime t yday = some utc ∧ fromUtcTime utc = some t ∧ utc.Normalised ∧
        utc.date.dayNumber = t / 86400 + 2440588 ∧
        utc.wday = (4 + t / 86400) % 7 ∧
        utc.yday = if yday then utc.date.dayOfYear else 0) := by
  refine ⟨?_, ?_, ?_⟩
  · intro j h0 h1
    obtain ⟨date, hdate, hv, hnum⟩ := getYearMonthDay_date h0 (by omega)
    have hback := getJulianDayNumber_valid hv (by omega) (by omega)
    rw [hnum] at hback
    exact ⟨date, hdate, hv, hback, getYearMonthDay_succ h0 h1 hv hnum⟩
  · intro date hv h0 h1
    exact ⟨getJulianDayNumber_valid hv (by omega) (by omega),
      getYearMonthDay_valid hv h0 (by omega)⟩
  · intro t yday hrange
    exact utcTime_round_trip yday hrange

/-- The last second before 1970 is on a Wednesday, 31 December 1969. -/
theorem calendar_arithmetic_before_1970 : DayInRange (-1) ∧ ∃ utc : Tm,
    toUtcTime (-1) true = some utc ∧ fromUtcTime utc = some (-1) ∧ utc.Normalised ∧
      utc.date.dayNumber = 2440587 ∧ utc.wday = 3 ∧ utc.yday = utc.date.dayOfYear := by
  have hrange : DayInRange (-1) := by
    unfold DayInRange
    decide
  obtain ⟨utc, hto, hfrom, hnorm, hday, hweek, hyday⟩ := calendar_arithmetic.2.2 (-1) true hrange
  exact ⟨hrange, utc, hto, hfrom, hnorm, hday, hweek, hyday⟩

/-- 2 January 1970, asked for without `yday`: it is one day after 1 January. -/
theorem yday_left_out : ∃ utc : Tm, DayInRange 86400 ∧ toUtcTime 86400 false = some utc ∧
    utc.date = ⟨1970, 1, 2⟩ ∧ utc.date.dayOfYear = 1 ∧ utc.yday = 0 := by
  exact ⟨⟨0, 0, 0, 2, 0, 70, 5, 0, 0, 0, .literal "GMT"⟩, by unfold DayInRange; decide,
    by decide, by decide, by decide, rfl⟩

end TstMuduo.Base
