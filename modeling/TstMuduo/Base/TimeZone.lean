import TstMuduo.Base.UtcTime
import TstMuduo.Lib.LowerBound

/-!
# Local times (muduo/base/TimeZone.h, TimeZone.cc)

A zone is a table of offsets and the instants at which the offset changes. The functions
`gmtime_r` and `timegm` of the C library are parameters. A `time_t` is a number here: the
times whose date fits a `struct tm` are far from the ends of its 64 bits.

`none` is an access outside a vector, a failed assertion or a null `data_`.
-/

namespace TstMuduo.Base
open TstMuduo.Lib

structure Transition where
  gmttime : Int
  localtime : Int
  localtimeIdx : Nat
  deriving DecidableEq, Repr

/- `Comp` (`TimeZone.cc:34`). -/
structure Comp where
  compareGmt : Bool

namespace Comp

def less (comp : Comp) (lhs rhs : Transition) : Bool :=
  if comp.compareGmt then lhs.gmttime < rhs.gmttime else lhs.localtime < rhs.localtime

def equal (comp : Comp) (lhs rhs : Transition) : Bool :=
  if comp.compareGmt then lhs.gmttime = rhs.gmttime else lhs.localtime = rhs.localtime

/-- The time that is compared. -/
def key (comp : Comp) (t : Transition) : Int :=
  if comp.compareGmt then t.gmttime else t.localtime

theorem less_iff (comp : Comp) (lhs rhs : Transition) :
    comp.less lhs rhs = true ↔ comp.key lhs < comp.key rhs := by
  unfold less key
  split <;> exact decide_eq_true_iff

theorem equal_iff (comp : Comp) (lhs rhs : Transition) :
    comp.equal lhs rhs = true ↔ comp.key lhs = comp.key rhs := by
  unfold equal key
  split <;> exact decide_eq_true_iff

end Comp

structure Localtime where
  gmtOffset : Int
  isDst : Bool
  arrbIdx : Nat
  deriving DecidableEq, Repr

/- `TimeZone::Data`; nothing reads its `names`. -/
structure Data where
  transitions : List Transition
  localtimes : List Localtime
  abbreviation : List UInt8
  deriving DecidableEq, Repr

/- The second branch of `findLocaltime`, where the first transition is not after `sentry`. -/
def searchTransitions (data : Data) (sentry : Transition) (comp : Comp) : Option Localtime :=
  let transI := lowerBound (fun t => comp.less t sentry) data.transitions
  match data.transitions[transI]? with
  | some t =>
    if comp.equal sentry t then data.localtimes[t.localtimeIdx]?
    -- `assert(transI != data.transitions.begin())`
    else if transI = 0 then none
    else do
      let t ← data.transitions[transI - 1]?
      data.localtimes[t.localtimeIdx]?
  | none => do
    let t ← data.transitions.getLast?
    data.localtimes[t.localtimeIdx]?

/- `findLocaltime` (`TimeZone.cc:218`). -/
def findLocaltime (data : Data) (sentry : Transition) (comp : Comp) : Option Localtime :=
  match data.transitions with
  | [] => data.localtimes.head?
  | first :: _ =>
    if comp.less sentry first then data.localtimes.head? else searchTransitions data sentry comp

/- A `TimeZone` is its `data_`, which is null in an invalid one. -/
abbrev TimeZone := Option Data

namespace TimeZone

def valid (zone : TimeZone) : Bool := zone.isSome

/- `TimeZone::TimeZone(int eastOfUtc, const char* name)` (`TimeZone.cc:265`). -/
def fixed (eastOfUtc : Int) (name : List UInt8) : TimeZone :=
  some ⟨[], [⟨eastOfUtc, false, 0⟩], name⟩

section
variable (gmtime_r : Int → Tm) (timegm : Tm → Int)

/- `toLocalTime` (`TimeZone.cc:272`). -/
def toLocalTime (zone : TimeZone) (seconds : Int) : Option Tm := do
  let data ← zone
  let loc ← findLocaltime data ⟨seconds, 0, 0⟩ ⟨true⟩
  let localSeconds := seconds + loc.gmtOffset
  return { gmtime_r localSeconds with
    isdst := if loc.isDst then 1 else 0
    gmtoff := loc.gmtOffset
    zone := .abbreviation loc.arrbIdx }

/- `fromLocalTime` (`TimeZone.cc:294`). -/
def fromLocalTime (zone : TimeZone) (localTm : Tm) : Option Int := do
  let data ← zone
  let seconds := timegm localTm
  let loc ← findLocaltime data ⟨0, seconds, 0⟩ ⟨false⟩
  if localTm.isdst ≠ 0 then
    let tryTm ← zone.toLocalTime gmtime_r (seconds - loc.gmtOffset)
    if tryTm.isdst = 0 ∧ tryTm.hour = localTm.hour ∧ tryTm.min = localTm.min then
      return seconds - 3600 - loc.gmtOffset
    else
      return seconds - loc.gmtOffset
  else
    return seconds - loc.gmtOffset

end

end TimeZone

/-! ### The search -/

theorem findLocaltime_front {data : Data} {sentry : Transition} {comp : Comp}
    (h : ∀ first, data.transitions[0]? = some first → comp.key sentry < comp.key first) :
    findLocaltime data sentry comp = data.localtimes.head? := by
  unfold findLocaltime
  cases hts : data.transitions with
  | nil => rfl
  | cons first rest =>
    have hlt : comp.less sentry first = true := by
      apply (comp.less_iff sentry first).mpr
      apply h
      rw [hts]
      rfl
    exact if_pos hlt

/-- A search that does not stop at the first transition ends at one that is not after the
time sought; what comes next is after it, unless the transition is at that very time. -/
theorem searchTransitions_cases {data : Data} {sentry first : Transition} {comp : Comp}
    (h0 : data.transitions[0]? = some first) (hfirst : comp.key first ≤ comp.key sentry) :
    ∃ k t, data.transitions[k]? = some t ∧ comp.key t ≤ comp.key sentry ∧
      (∀ next, data.transitions[k + 1]? = some next →
        comp.key sentry < comp.key next ∨ comp.key sentry = comp.key t) ∧
      searchTransitions data sentry comp = data.localtimes[t.localtimeIdx]? := by
  obtain ⟨hlen, hleft, hright⟩ :=
    lowerBound_range (fun t => comp.less t sentry) data.transitions
  unfold searchTransitions
  generalize lowerBound (fun t => comp.less t sentry) data.transitions = transI at *
  have hpos : 0 < data.transitions.length := (List.getElem?_eq_some_iff.mp h0).1
  dsimp only at hleft hright ⊢
  cases hI : data.transitions[transI]? with
  | some t =>
    have hle : comp.key sentry ≤ comp.key t := by
      have hnot := mt (comp.less_iff t sentry).mpr (Bool.eq_false_iff.mp (hright t hI))
      omega
    dsimp only
    by_cases heq : comp.equal sentry t = true
    · have hkey := (comp.equal_iff sentry t).mp heq
      rw [if_pos heq]
      exact ⟨transI, t, hI, by omega, fun _ _ => Or.inr hkey, rfl⟩
    · have hlt : comp.key sentry < comp.key t := by
        have := mt (comp.equal_iff sentry t).mpr heq
        omega
      -- the first transition is not after the time sought, so it is not the one found
      have hI0 : transI ≠ 0 := by
        intro h
        rw [h, h0, Option.some_inj] at hI
        rw [hI] at hfirst
        omega
      have hprev : transI - 1 < data.transitions.length := by omega
      have hget := List.getElem?_eq_getElem hprev
      have hbefore := (comp.less_iff _ _).mp (hleft _ (by omega) hget)
      rw [if_neg heq, if_neg hI0, hget]
      refine ⟨transI - 1, _, hget, by omega, ?_, rfl⟩
      intro next hnext
      rw [Nat.sub_add_cancel (by omega), hI, Option.some_inj] at hnext
      rw [← hnext]
      exact Or.inl hlt
  | none =>
    have hend : data.transitions.length ≤ transI := List.getElem?_eq_none_iff.mp hI
    have hI' : transI = data.transitions.length := by omega
    subst hI'
    have hlast : data.transitions.length - 1 < data.transitions.length := by omega
    have hget := List.getElem?_eq_getElem hlast
    have hbefore := (comp.less_iff _ _).mp (hleft _ hpos hget)
    have hgetLast : data.transitions.getLast? = _ := List.getLast?_eq_getElem?.trans hget
    dsimp only
    rw [hgetLast]
    refine ⟨_, _, hget, by omega, ?_, rfl⟩
    intro next hnext
    rw [Nat.sub_add_cancel hpos, hI] at hnext
    cases hnext

theorem findLocaltime_cases (data : Data) (sentry : Transition) (comp : Comp) :
    ((∀ first, data.transitions[0]? = some first → comp.key sentry < comp.key first) ∧
      findLocaltime data sentry comp = data.localtimes.head?) ∨
    ∃ k t, data.transitions[k]? = some t ∧ comp.key t ≤ comp.key sentry ∧
      (∀ next, data.transitions[k + 1]? = some next →
        comp.key sentry < comp.key next ∨ comp.key sentry = comp.key t) ∧
      findLocaltime data sentry comp = data.localtimes[t.localtimeIdx]? := by
  by_cases hfront : ∀ first, data.transitions[0]? = some first →
      comp.key sentry < comp.key first
  · left
    exact ⟨hfront, findLocaltime_front hfront⟩
  · right
    push Not at hfront
    obtain ⟨first, h0, hfirst⟩ := hfront
    have hsearch : findLocaltime data sentry comp = searchTransitions data sentry comp := by
      unfold findLocaltime
      cases hts : data.transitions with
      | nil =>
        rw [hts] at h0
        cases h0
      | cons f rest =>
        rw [hts, List.getElem?_cons_zero, Option.some_inj] at h0
        have hnot : ¬ comp.less sentry f = true := by
          rw [comp.less_iff, h0]
          omega
        exact if_neg hnot
    rw [hsearch]
    exact searchTransitions_cases h0 hfirst

/-! ### Zones with daylight saving time -/

/-- Daylight saving time, one hour ahead of the standard offset `o`, begins and ends in turn,
with more than a day between two changes. -/
structure DaylightZone (o : Int) (data : Data) : Prop where
  front : ∃ l, data.localtimes.head? = some l ∧ l.gmtOffset = o ∧ l.isDst = false
  alternate : ∀ k t, data.transitions[k]? = some t → ∃ l,
    data.localtimes[t.localtimeIdx]? = some l ∧ t.localtime = t.gmttime + l.gmtOffset ∧
      (k % 2 = 0 ∧ l.isDst = true ∧ l.gmtOffset = o + 3600 ∨
        k % 2 = 1 ∧ l.isDst = false ∧ l.gmtOffset = o)
  gap : ∀ k t next, data.transitions[k]? = some t → data.transitions[k + 1]? = some next →
    t.gmttime + 86400 < next.gmttime

namespace DaylightZone

variable {o : Int} {data : Data}

theorem key_next (h : DaylightZone o data) (comp : Comp) {k : Nat} {t next : Transition}
    (hk : data.transitions[k]? = some t) (hn : data.transitions[k + 1]? = some next) :
    comp.key t + 82800 < comp.key next := by
  obtain ⟨l, -, hl, hdst⟩ := h.alternate k t hk
  obtain ⟨l', -, hl', hdst'⟩ := h.alternate (k + 1) next hn
  have hgap := h.gap k t next hk hn
  unfold Comp.key
  split <;> omega

theorem key_le (h : DaylightZone o data) (comp : Comp) {i : Nat} {t t' : Transition}
    (hi : data.transitions[i]? = some t) (d : Nat) (hj : data.transitions[i + d]? = some t') :
    comp.key t ≤ comp.key t' := by
  induction d generalizing t' with
  | zero =>
    rw [Nat.add_zero, hi, Option.some_inj] at hj
    rw [hj]
  | succ d ih =>
    have hlen : i + d < data.transitions.length := by
      have := (List.getElem?_eq_some_iff.mp hj).1
      omega
    have hd := List.getElem?_eq_getElem hlen
    have hle := ih hd
    have hlt := h.key_next comp hd hj
    omega

theorem findLocaltime_at (h : DaylightZone o data) (sentry : Transition) (comp : Comp)
    {t : Transition} {k : Nat}
    (hk : data.transitions[k]? = some t) (hle : comp.key t ≤ comp.key sentry)
    (hnext : ∀ next, data.transitions[k + 1]? = some next → comp.key sentry < comp.key next) :
    findLocaltime data sentry comp = data.localtimes[t.localtimeIdx]? := by
  rcases findLocaltime_cases data sentry comp with ⟨hfront, -⟩ | ⟨k', t', hk', hle', hnext', hfind⟩
  · have hlen : 0 < data.transitions.length := by
      have := (List.getElem?_eq_some_iff.mp hk).1
      omega
    have h0 := List.getElem?_eq_getElem hlen
    have hlt := hfront _ h0
    have := h.key_le comp h0 k (by rw [Nat.zero_add]; exact hk)
    omega
  · have hkk : k' = k := by
      rcases Nat.lt_trichotomy k' k with hlt | heq | hlt
      · -- the transition after `k'` is at most the one found at `k`
        have hlen : k' + 1 < data.transitions.length := by
          have := (List.getElem?_eq_some_iff.mp hk).1
          omega
        have h1 := List.getElem?_eq_getElem hlen
        have hle1 := h.key_le comp h1 (k - (k' + 1)) (by
          rw [show k' + 1 + (k - (k' + 1)) = k by omega]
          exact hk)
        have hgap := h.key_next comp hk' h1
        have := hnext' _ h1
        omega
      · exact heq
      · have hlen : k + 1 < data.transitions.length := by
          have := (List.getElem?_eq_some_iff.mp hk').1
          omega
        have h1 := List.getElem?_eq_getElem hlen
        have hle1 := h.key_le comp h1 (k' - (k + 1)) (by
          rw [show k + 1 + (k' - (k + 1)) = k' by omega]
          exact hk')
        have := hnext _ h1
        omega
    rw [hkk, hk, Option.some_inj] at hk'
    rw [hfind, hk']

/-- The entry of transition `k` is in force at the instant. -/
structure InForce (data : Data) (k : Nat) (tr : Transition) (loc : Localtime) (t : Int) : Prop where
  trans : data.transitions[k]? = some tr
  entry : data.localtimes[tr.localtimeIdx]? = some loc
  le : tr.gmttime ≤ t
  next : ∀ next, data.transitions[k + 1]? = some next → t < next.gmttime

theorem InForce.find {k : Nat} {tr : Transition} {loc : Localtime} {t : Int}
    (h : DaylightZone o data) (hf : InForce data k tr loc t) :
    findLocaltime data ⟨t, 0, 0⟩ ⟨true⟩ = some loc := by
  rw [← hf.entry]
  exact h.findLocaltime_at ⟨t, 0, 0⟩ ⟨true⟩ hf.trans hf.le hf.next

theorem find_local (h : DaylightZone o data) {k : Nat} {tr : Transition} {loc : Localtime}
    {seconds : Int} (hk : data.transitions[k]? = some tr)
    (hloc : data.localtimes[tr.localtimeIdx]? = some loc) (hle : tr.localtime ≤ seconds)
    (hnext : ∀ next, data.transitions[k + 1]? = some next → seconds < next.localtime) :
    findLocaltime data ⟨0, seconds, 0⟩ ⟨false⟩ = some loc := by
  rw [← hloc]
  exact h.findLocaltime_at ⟨0, seconds, 0⟩ ⟨false⟩ hk hle hnext

theorem front_or_inForce (h : DaylightZone o data) (t : Int) :
    (∀ first, data.transitions[0]? = some first → t < first.gmttime) ∨
      ∃ k tr loc, InForce data k tr loc t := by
  rcases findLocaltime_cases data ⟨t, 0, 0⟩ ⟨true⟩ with ⟨hfront, -⟩ | ⟨k, tr, hk, hle, hnext, -⟩
  · left
    exact hfront
  · right
    obtain ⟨loc, hloc, -⟩ := h.alternate k tr hk
    refine ⟨k, tr, loc, hk, hloc, hle, ?_⟩
    intro next hn
    have hgap := h.gap k tr next hk hn
    rcases hnext next hn with hlt | heq
    · exact hlt
    · have : t = tr.gmttime := heq
      omega

end DaylightZone

/-! ### From a local time back to the instant -/

/-- On the times that a `struct tm` can hold `timegm` undoes `gmtime_r`; it reads the fields of
the date and of the time of day only. -/
structure TimegmUndoes (gmtime_r : Int → Tm) (timegm : Tm → Int) (Holds : Int → Prop) : Prop where
  undo : ∀ x, Holds x → ∀ (isdst gmtoff : Int) (zone : TmZone),
    timegm { gmtime_r x with isdst := isdst, gmtoff := gmtoff, zone := zone } = x

namespace TimeZone

def localTm (gmtime_r : Int → Tm) (seconds : Int) (loc : Localtime) : Tm :=
  { gmtime_r (seconds + loc.gmtOffset) with
    isdst := if loc.isDst then 1 else 0
    gmtoff := loc.gmtOffset
    zone := .abbreviation loc.arrbIdx }

theorem toLocalTime_eq {gmtime_r : Int → Tm} {data : Data} {seconds : Int} {loc : Localtime}
    (h : findLocaltime data ⟨seconds, 0, 0⟩ ⟨true⟩ = some loc) :
    toLocalTime gmtime_r (some data) seconds = some (localTm gmtime_r seconds loc) :=
  bind_of rfl (bind_of h rfl)

section
variable {gmtime_r : Int → Tm} {timegm : Tm → Int} {Holds : Int → Prop} {data : Data} {t : Int}
  {loc loc' : Localtime}

theorem fromLocalTime_standard (hinv : TimegmUndoes gmtime_r timegm Holds)
    (hholds : Holds (t + loc.gmtOffset)) (hdst : loc.isDst = false)
    (hfind : findLocaltime data ⟨0, t + loc.gmtOffset, 0⟩ ⟨false⟩ = some loc')
    (hoff : loc'.gmtOffset = loc.gmtOffset) :
    fromLocalTime gmtime_r timegm (some data) (localTm gmtime_r t loc) = some t := by
  have hsec : timegm (localTm gmtime_r t loc) = t + loc.gmtOffset := hinv.undo _ hholds _ _ _
  have hflag : ¬ (localTm gmtime_r t loc).isdst ≠ 0 := by
    simp only [localTm, hdst, Bool.false_eq_true, if_false, ne_eq, not_true_eq_false,
      not_false_eq_true]
  have hback : t + loc.gmtOffset - loc'.gmtOffset = t := by omega
  unfold fromLocalTime
  refine bind_of rfl ?_
  rw [hsec]
  refine bind_of hfind ?_
  rw [if_neg hflag, hback]
  rfl

theorem fromLocalTime_daylight (hinv : TimegmUndoes gmtime_r timegm Holds)
    (hholds : Holds (t + loc.gmtOffset)) (hdst : loc.isDst = true)
    (hfind : findLocaltime data ⟨0, t + loc.gmtOffset, 0⟩ ⟨false⟩ = some loc')
    (htry : findLocaltime data ⟨t + loc.gmtOffset - loc'.gmtOffset, 0, 0⟩ ⟨true⟩ = some loc')
    (hoff : loc'.isDst = true ∧ loc'.gmtOffset = loc.gmtOffset ∨
      loc'.isDst = false ∧ loc'.gmtOffset + 3600 = loc.gmtOffset) :
    fromLocalTime gmtime_r timegm (some data) (localTm gmtime_r t loc) = some t := by
  have hsec : timegm (localTm gmtime_r t loc) = t + loc.gmtOffset := hinv.undo _ hholds _ _ _
  have hflag : (localTm gmtime_r t loc).isdst ≠ 0 := by
    simp only [localTm, hdst, if_true, ne_eq, one_ne_zero, not_false_eq_true]
  -- the second conversion is of the same local time
  have hsame : t + loc.gmtOffset - loc'.gmtOffset + loc'.gmtOffset = t + loc.gmtOffset := by omega
  unfold fromLocalTime
  refine bind_of rfl ?_
  rw [hsec]
  refine bind_of hfind ?_
  rw [if_pos hflag]
  refine bind_of (toLocalTime_eq htry) ?_
  simp only [localTm, hsame, and_true]
  rcases hoff with ⟨hdst', hoff⟩ | ⟨hdst', hoff⟩
  · have hback : t + loc.gmtOffset - loc'.gmtOffset = t := by omega
    simp only [hdst', if_true, one_ne_zero, if_false, hback]
    rfl
  · have hback : t + loc.gmtOffset - 3600 - loc'.gmtOffset = t := by omega
    simp only [hdst', Bool.false_eq_true, if_false, if_true, hback]
    rfl

end

section
variable {gmtime_r : Int → Tm} {timegm : Tm → Int} {Holds : Int → Prop} {o : Int} {data : Data}
  {k : Nat} {tr : Transition} {loc : Localtime} {t : Int}

theorem round_trip_before (hinv : TimegmUndoes gmtime_r timegm Holds) (h : DaylightZone o data)
    (hfront : ∀ first, data.transitions[0]? = some first → t < first.gmttime)
    (hloc : data.localtimes.head? = some loc) (hoff : loc.gmtOffset = o) (hdst : loc.isDst = false)
    (hholds : Holds (t + loc.gmtOffset)) :
    fromLocalTime gmtime_r timegm (some data) (localTm gmtime_r t loc) = some t := by
  have hfind : findLocaltime data ⟨0, t + loc.gmtOffset, 0⟩ ⟨false⟩ = some loc := by
    rw [← hloc]
    apply findLocaltime_front
    intro first h0
    have hlt := hfront first h0
    obtain ⟨l, -, hlocal, hl⟩ := h.alternate 0 first h0
    change t + loc.gmtOffset < first.localtime
    omega
  exact fromLocalTime_standard hinv hholds hdst hfind rfl

theorem round_trip_standard (hinv : TimegmUndoes gmtime_r timegm Holds) (h : DaylightZone o data)
    (hf : DaylightZone.InForce data k tr loc t) (hlocal : tr.localtime = tr.gmttime + loc.gmtOffset)
    (hoff : loc.gmtOffset = o) (hdst : loc.isDst = false) (hholds : Holds (t + loc.gmtOffset)) :
    fromLocalTime gmtime_r timegm (some data) (localTm gmtime_r t loc) = some t := by
  have hle := hf.le
  have hfind : findLocaltime data ⟨0, t + loc.gmtOffset, 0⟩ ⟨false⟩ = some loc := by
    apply h.find_local hf.trans hf.entry
    · omega
    · intro next hn
      have hlt := hf.next next hn
      obtain ⟨l, -, hlocal', hl⟩ := h.alternate (k + 1) next hn
      omega
  exact fromLocalTime_standard hinv hholds hdst hfind rfl

theorem round_trip_daylight (hinv : TimegmUndoes gmtime_r timegm Holds) (h : DaylightZone o data)
    (hf : DaylightZone.InForce data k tr loc t) (hlocal : tr.localtime = tr.gmttime + loc.gmtOffset)
    (hdst : loc.isDst = true)
    (hnext : ∀ next, data.transitions[k + 1]? = some next → t + loc.gmtOffset < next.localtime)
    (hholds : Holds (t + loc.gmtOffset)) :
    fromLocalTime gmtime_r timegm (some data) (localTm gmtime_r t loc) = some t := by
  have hle := hf.le
  have hfind : findLocaltime data ⟨0, t + loc.gmtOffset, 0⟩ ⟨false⟩ = some loc :=
    h.find_local hf.trans hf.entry (by omega) hnext
  have htry : findLocaltime data ⟨t + loc.gmtOffset - loc.gmtOffset, 0, 0⟩ ⟨true⟩ = some loc := by
    rw [Int.add_sub_cancel]
    exact hf.find h
  exact fromLocalTime_daylight hinv hholds hdst hfind htry (Or.inl ⟨hdst, rfl⟩)

theorem round_trip_repeated (hinv : TimegmUndoes gmtime_r timegm Holds) (h : DaylightZone o data)
    (hf : DaylightZone.InForce data k tr loc t) (hoff : loc.gmtOffset = o + 3600)
    (hdst : loc.isDst = true) (hparity : k % 2 = 0) {next : Transition}
    (hn : data.transitions[k + 1]? = some next) (hrep : next.localtime ≤ t + loc.gmtOffset)
    (hholds : Holds (t + loc.gmtOffset)) :
    fromLocalTime gmtime_r timegm (some data) (localTm gmtime_r t loc) = some t := by
  obtain ⟨loc', hloc', hlocal', hdst'⟩ := h.alternate (k + 1) next hn
  obtain ⟨hdst', hoff'⟩ : loc'.isDst = false ∧ loc'.gmtOffset = o := by
    rcases hdst' with ⟨hp, -⟩ | ⟨-, hd⟩
    · omega
    · exact hd
  have hlt := hf.next next hn
  have hfind : findLocaltime data ⟨0, t + loc.gmtOffset, 0⟩ ⟨false⟩ = some loc' := by
    apply h.find_local hn hloc' hrep
    intro after hafter
    have hgap : next.localtime + 82800 < after.localtime := h.key_next ⟨false⟩ hn hafter
    omega
  have hf' : DaylightZone.InForce data (k + 1) next loc' (t + loc.gmtOffset - loc'.gmtOffset) := by
    refine ⟨hn, hloc', by omega, ?_⟩
    intro after hafter
    have hgap := h.gap (k + 1) next after hn hafter
    omega
  exact fromLocalTime_daylight hinv hholds hdst hfind (hf'.find h) (Or.inr ⟨hdst', by omega⟩)

theorem daylight_round_trip (hinv : TimegmUndoes gmtime_r timegm Holds) (h : DaylightZone o data)
    (t : Int) :
    ∃ loc, findLocaltime data ⟨t, 0, 0⟩ ⟨true⟩ = some loc ∧ (Holds (t + loc.gmtOffset) →
      fromLocalTime gmtime_r timegm (some data) (localTm gmtime_r t loc) = some t) := by
  rcases h.front_or_inForce t with hfront | ⟨k, tr, loc, hf⟩
  · obtain ⟨loc, hloc, hoff, hdst⟩ := h.front
    have hfind : findLocaltime data ⟨t, 0, 0⟩ ⟨true⟩ = some loc := by
      rw [← hloc]
      exact findLocaltime_front hfront
    exact ⟨loc, hfind, round_trip_before hinv h hfront hloc hoff hdst⟩
  · refine ⟨loc, hf.find h, ?_⟩
    intro hholds
    obtain ⟨loc', hloc', hlocal, hdst⟩ := h.alternate k tr hf.trans
    rw [hf.entry, Option.some_inj] at hloc'
    subst hloc'
    rcases hdst with ⟨hparity, hdst, hoff⟩ | ⟨-, hdst, hoff⟩
    · by_cases hrep : ∃ next, data.transitions[k + 1]? = some next ∧
          next.localtime ≤ t + loc.gmtOffset
      · obtain ⟨next, hn, hrep⟩ := hrep
        exact round_trip_repeated hinv h hf hoff hdst hparity hn hrep hholds
      · apply round_trip_daylight hinv h hf hlocal hdst ?_ hholds
        intro next hn
        have hnot : ¬ next.localtime ≤ t + loc.gmtOffset := fun hle => hrep ⟨next, hn, hle⟩
        omega
    · exact round_trip_standard hinv h hf hlocal hoff hdst hholds

theorem fixed_round_trip (hinv : TimegmUndoes gmtime_r timegm Holds) {eastOfUtc : Int}
    {name : List UInt8} (hholds : Holds (t + eastOfUtc)) :
    ∃ tm, toLocalTime gmtime_r (fixed eastOfUtc name) t = some tm ∧
      fromLocalTime gmtime_r timegm (fixed eastOfUtc name) tm = some t := by
  have hto : toLocalTime gmtime_r (fixed eastOfUtc name) t =
      some (localTm gmtime_r t ⟨eastOfUtc, false, 0⟩) := toLocalTime_eq rfl
  exact ⟨_, hto, fromLocalTime_standard hinv hholds rfl rfl rfl⟩

end

/-- Local times lead back to the instants they stand for: in every zone with daylight saving
time, where an hour is skipped and an hour repeated each year, and in every zone with a fixed
offset. -/
theorem local_time_round_trip {gmtime_r : Int → Tm} {timegm : Tm → Int} {Holds : Int → Prop}
    (hinv : TimegmUndoes gmtime_r timegm Holds) :
    (∀ (o : Int) (data : Data), DaylightZone o data → ∀ t : Int, ∃ loc tm,
      findLocaltime data ⟨t, 0, 0⟩ ⟨true⟩ = some loc ∧
        toLocalTime gmtime_r (some data) t = some tm ∧
        (Holds (t + loc.gmtOffset) →
          fromLocalTime gmtime_r timegm (some data) tm = some t)) ∧
    (∀ (eastOfUtc : Int) (name : List UInt8) (t : Int), Holds (t + eastOfUtc) → ∃ tm,
      toLocalTime gmtime_r (fixed eastOfUtc name) t = some tm ∧
        fromLocalTime gmtime_r timegm (fixed eastOfUtc name) tm = some t) := by
  refine ⟨?_, ?_⟩
  · intro o data h t
    obtain ⟨loc, hfind, hback⟩ := daylight_round_trip hinv h t
    exact ⟨loc, _, hfind, toLocalTime_eq hfind, hback⟩
  · intro eastOfUtc name t hholds
    exact fixed_round_trip hinv hholds

theorem utcTime_undoes : TimegmUndoes (fun x => (toUtcTime x true).getD Tm.zero)
    (fun utc => (fromUtcTime utc).getD 0) DayInRange := by
  refine ⟨?_⟩
  intro x hx isdst gmtoff zone
  obtain ⟨utc, hto, hfrom, -⟩ := utcTime_round_trip true hx
  have hfields : fromUtcTime { utc with isdst := isdst, gmtoff := gmtoff, zone := zone } =
      fromUtcTime utc := rfl
  dsimp only
  rw [hto, Option.getD_some, hfields, hfrom, Option.getD_some]

/-- One summer of eight hours east, as a zone file has it. -/
def summer1986 : Data :=
  ⟨[⟨515527200, 515559600, 1⟩, ⟨527014800, 527043600, 0⟩],
    [⟨28800, false, 0⟩, ⟨32400, true, 4⟩], []⟩

theorem summer1986_daylightZone : DaylightZone 28800 summer1986 := by
  refine ⟨⟨_, rfl, rfl, rfl⟩, ?_, ?_⟩
  · intro k t hk
    match k, hk with
    | 0, hk =>
      cases hk
      exact ⟨_, rfl, rfl, Or.inl ⟨rfl, rfl, rfl⟩⟩
    | 1, hk =>
      cases hk
      exact ⟨_, rfl, rfl, Or.inr ⟨rfl, rfl, rfl⟩⟩
    | k + 2, hk => cases hk
  · intro k t next hk hn
    match k, hk, hn with
    | 0, hk, hn =>
      cases hk
      cases hn
      decide
    | k + 1, hk, hn => cases hn

/-- The last second of that summer, whose local time comes again after it. -/
theorem local_time_round_trip_repeated_hour :
    DaylightZone 28800 summer1986 ∧ DayInRange (527014799 + 32400) ∧ ∃ tm,
      toLocalTime (fun x => (toUtcTime x true).getD Tm.zero) (some summer1986) 527014799 =
        some tm ∧ tm.isdst = 1 ∧ tm.hour = 1 ∧
      fromLocalTime (fun x => (toUtcTime x true).getD Tm.zero)
        (fun utc => (fromUtcTime utc).getD 0) (some summer1986) tm = some 527014799 := by
  have hrange : DayInRange (527014799 + 32400) := by
    unfold DayInRange
    decide
  obtain ⟨loc, tm, hfind, hto, hback⟩ := (local_time_round_trip utcTime_undoes).1 28800 summer1986
    summer1986_daylightZone 527014799
  have hloc : findLocaltime summer1986 ⟨527014799, 0, 0⟩ ⟨true⟩ = some ⟨32400, true, 4⟩ := by decide
  rw [hloc, Option.some_inj] at hfind
  rw [← hfind] at hback
  have htm : toLocalTime (fun x => (toUtcTime x true).getD Tm.zero) (some summer1986) 527014799 =
      some ⟨59, 59, 1, 14, 8, 86, 0, 256, 1, 32400, .abbreviation 4⟩ := by decide
  rw [htm, Option.some_inj] at hto
  refine ⟨summer1986_daylightZone, hrange, tm, ?_, ?_, ?_, hback hrange⟩
  · rw [← hto]
    exact htm
  · rw [← hto]
  · rw [← hto]

end TimeZone

end TstMuduo.Base
