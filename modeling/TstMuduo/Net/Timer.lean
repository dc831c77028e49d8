import TstMuduo.Lib.OrderedSet
import TstMuduo.Net.Basic

/-!
# Timestamps and timers (muduo/base/Timestamp.h, muduo/net/Timer.h, Timer.cc)

A `Timestamp` is its number of microseconds. Signed overflow is undefined in the
source, so the numbers are integers without a bound.
-/

namespace TstMuduo.Net

namespace Timestamp

def kMicroSecondsPerSecond : Int := 1000 * 1000

def invalid : Int := 0

def valid (t : Int) : Bool := 0 < t

end Timestamp

/-- A reading of `Timestamp::now()`: the time since the epoch, which is past. -/
structure Clock where
  now : Int
  running : 0 < now

def Clock.tick (c : Clock) (d : Nat) : Clock := ⟨c.now + d, by have := c.running; omega⟩

structure Timespec where
  tv_sec : Int
  tv_nsec : Int
  deriving DecidableEq, Repr

/- TimerQueue.cc:45, with the reading of the clock as an argument. -/
def howMuchTimeFromNow (when_ now : Int) : Timespec :=
  let microseconds := if when_ - now < 100 then 100 else when_ - now
  { tv_sec := microseconds.tdiv Timestamp.kMicroSecondsPerSecond
    tv_nsec := microseconds.tmod Timestamp.kMicroSecondsPerSecond * 1000 }

def Timespec.micros (ts : Timespec) : Int :=
  ts.tv_sec * Timestamp.kMicroSecondsPerSecond + ts.tv_nsec.tdiv 1000

/- What `timerfd_settime` takes as a value that arms the timer. -/
def Timespec.Arms (ts : Timespec) : Prop :=
  (ts.tv_sec ≠ 0 ∨ ts.tv_nsec ≠ 0) ∧ 0 ≤ ts.tv_nsec ∧ ts.tv_nsec < 10 ^ 9

theorem howMuchTimeFromNow_spec (when_ now : Int) :
    (howMuchTimeFromNow when_ now).Arms ∧
      (howMuchTimeFromNow when_ now).micros = max (when_ - now) 100 := by
  have split : ∀ m : Int, 100 ≤ m →
      Timespec.Arms ⟨m.tdiv 1000000, m.tmod 1000000 * 1000⟩ ∧
        Timespec.micros ⟨m.tdiv 1000000, m.tmod 1000000 * 1000⟩ = m := by
    intro m hm
    have hd : m.tdiv 1000000 = m / 1000000 := Int.tdiv_eq_ediv_of_nonneg (by omega)
    have hr : m.tmod 1000000 = m % 1000000 := Int.tmod_eq_emod_of_nonneg (by omega)
    have hn : (m % 1000000 * 1000).tdiv 1000 = m % 1000000 := Int.mul_tdiv_cancel _ (by omega)
    simp only [Timespec.Arms, Timespec.micros, hd, hr, hn, Timestamp.kMicroSecondsPerSecond]
    omega
  unfold howMuchTimeFromNow
  by_cases h : when_ - now < 100
  · have hmax : max (when_ - now) 100 = 100 := by omega
    simp only [h, if_true, hmax]
    exact split 100 (by omega)
  · have hmax : max (when_ - now) 100 = when_ - now := by omega
    simp only [h, if_false, hmax]
    exact split (when_ - now) (by omega)

/- `interval_` and `repeat_`: `delta` is what `addTime` makes of the interval, an
integral number of microseconds, and it is not negative for an interval that
repeats. -/
structure Interval where
  repeats : Bool
  delta : Int
  nonneg : repeats = true → 0 ≤ delta

structure Timer where
  expiration : Int
  interval : Interval
  sequence : Nat

/- Timer.cc:16 -/
def Timer.restart (t : Timer) (now : Int) : Timer :=
  if t.interval.repeats = true then { t with expiration := now + t.interval.delta }
  else { t with expiration := Timestamp.invalid }

@[simp]
theorem Timer.restart_sequence (t : Timer) (now : Int) :
    (t.restart now).sequence = t.sequence := by
  unfold restart
  split <;> rfl

@[simp]
theorem Timer.restart_interval (t : Timer) (now : Int) :
    (t.restart now).interval = t.interval := by
  unfold restart
  split <;> rfl

theorem Timer.restart_expiration (t : Timer) (now : Int)
    (h : t.interval.repeats = true) : (t.restart now).expiration = now + t.interval.delta := by
  simp only [restart, h, if_true]

theorem Timer.restart_later (t : Timer) (now : Int) (h : t.interval.repeats = true) :
    now ≤ (t.restart now).expiration := by
  have hd := t.interval.nonneg h
  rw [t.restart_expiration now h]
  omega

end TstMuduo.Net
