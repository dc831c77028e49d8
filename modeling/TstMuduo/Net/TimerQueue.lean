import Mathlib.Logic.Function.Basic
import TstMuduo.Net.Timer

/-!
# TimerQueue (muduo/net/TimerQueue.cc)

The member functions that run in the loop thread, on a heap of `Timer` objects
at addresses that are natural numbers.
Reading a `Timer` that has been deleted and deleting one twice are faults, like
the failure of an assertion.
-/

namespace TstMuduo.Net
open TstMuduo.Lib

def UINTPTR_MAX : Nat := 2 ^ 64 - 1

/- `Entry`, a pair of a timestamp and a pointer in lexicographic order. -/
structure Entry where
  expiration : Int
  timer : Nat
  deriving DecidableEq, Repr

/- `ActiveTimer`, and also what a `TimerId` holds. -/
structure ActiveTimer where
  timer : Nat
  sequence : Nat
  deriving DecidableEq, Repr

namespace Entry

def key (e : Entry) : Int ×ₗ Nat := toLex (e.expiration, e.timer)

theorem key_injective : Function.Injective key := by
  intro e f h
  have hp : (e.expiration, e.timer) = (f.expiration, f.timer) := toLex.injective h
  cases e
  cases f
  simp only [Prod.mk.injEq] at hp
  simp only [Entry.mk.injEq]
  exact hp

instance : LinearOrder Entry := LinearOrder.lift' key key_injective

theorem lt_iff (e f : Entry) :
    e < f ↔ e.expiration < f.expiration ∨ e.expiration = f.expiration ∧ e.timer < f.timer := by
  change e.key < f.key ↔ _
  exact Prod.Lex.toLex_lt_toLex

theorem expiration_le {e f : Entry} (h : e ≤ f) : e.expiration ≤ f.expiration := by
  rcases lt_or_eq_of_le h with h | rfl
  · have hl := (lt_iff e f).mp h
    omega
  · exact le_refl _

theorem lt_sentry {e : Entry} {now : Int} (h : e.timer < UINTPTR_MAX) :
    e < ⟨now, UINTPTR_MAX⟩ ↔ e.expiration ≤ now := by
  rw [lt_iff]
  dsimp only
  omega

end Entry

namespace ActiveTimer

def key (p : ActiveTimer) : Nat ×ₗ Nat := toLex (p.timer, p.sequence)

theorem key_injective : Function.Injective key := by
  intro p q h
  have hp : (p.timer, p.sequence) = (q.timer, q.sequence) := toLex.injective h
  cases p
  cases q
  simp only [Prod.mk.injEq] at hp
  simp only [ActiveTimer.mk.injEq]
  exact hp

instance : LinearOrder ActiveTimer := LinearOrder.lift' key key_injective

end ActiveTimer

/-- The asserts of TimerQueue.cc and the two faults of the heap. -/
inductive TimerFault where
  | sizes
  | insertTimers
  | insertActive
  | cancelErase
  | expiredEnd
  | expiredErase
  | deletedTimer
  | doubleDelete
  deriving DecidableEq, Repr

/- `timerfd` is the time at which the descriptor becomes readable, if it is armed;
`lastArm` and `settimes` record the calls of `timerfd_settime`. -/
structure TimerQueue where
  heap : Nat → Option Timer
  timers : OrderedSet Entry
  activeTimers : OrderedSet ActiveTimer
  callingExpiredTimers : Bool
  cancelingTimers : OrderedSet ActiveTimer
  timerfd : Option Int
  lastArm : Int
  settimes : List Timespec

namespace TimerQueue

def new : TimerQueue where
  heap := fun _ => none
  timers := .empty
  activeTimers := .empty
  callingExpiredTimers := false
  cancelingTimers := .empty
  timerfd := none
  lastArm := 0
  settimes := []

def deref (q : TimerQueue) (a : Nat) : Except TimerFault Timer :=
  match q.heap a with
  | some t => .ok t
  | none => .error .deletedTimer

def delete (q : TimerQueue) (a : Nat) : Except TimerFault TimerQueue :=
  match q.heap a with
  | some _ => .ok { q with heap := Function.update q.heap a none }
  | none => .error .doubleDelete

/- TimerQueue.cc:62; reading an expired one-shot timerfd disarms it. -/
def readTimerfd (q : TimerQueue) (now : Int) : TimerQueue :=
  match q.timerfd with
  | some fire => if fire ≤ now then { q with timerfd := none } else q
  | none => q

/- TimerQueue.cc:74; the kernel counts from the reading of the clock. -/
def resetTimerfd (q : TimerQueue) (expiration now : Int) : TimerQueue :=
  { q with
    timerfd := some (now + (howMuchTimeFromNow expiration now).micros)
    lastArm := now
    settimes := q.settimes ++ [howMuchTimeFromNow expiration now] }

/- The test of `insert`: no timer, or all later than this time. -/
def earliest (q : TimerQueue) (time : Int) : Bool :=
  match q.timers.first with
  | none => true
  | some e => time < e.expiration

/- TimerQueue.cc:304 -/
def insert (q : TimerQueue) (a : Nat) : Except TimerFault (Bool × TimerQueue) := do
  check (q.timers.size = q.activeTimers.size) .sizes
  let t ← q.deref a
  check (¬ ⟨t.expiration, a⟩ ∈ q.timers) .insertTimers
  check (¬ ⟨a, t.sequence⟩ ∈ q.activeTimers) .insertActive
  let r := { q with
    timers := q.timers.insert ⟨t.expiration, a⟩
    activeTimers := q.activeTimers.insert ⟨a, t.sequence⟩ }
  check (r.timers.size = r.activeTimers.size) .sizes
  return (q.earliest t.expiration, r)

/- TimerQueue.cc:163 -/
def addTimerInLoop (q : TimerQueue) (a : Nat) (now : Int) : Except TimerFault TimerQueue := do
  let (earliestChanged, r) ← q.insert a
  if earliestChanged = true then
    let t ← r.deref a
    return r.resetTimerfd t.expiration now
  else return r

/- TimerQueue.cc:176 -/
def cancelInLoop (q : TimerQueue) (id : ActiveTimer) : Except TimerFault TimerQueue := do
  check (q.timers.size = q.activeTimers.size) .sizes
  let r ←
    if id ∈ q.activeTimers then do
      let t ← q.deref id.timer
      check (⟨t.expiration, id.timer⟩ ∈ q.timers) .cancelErase
      let d ← { q with timers := q.timers.erase ⟨t.expiration, id.timer⟩ }.delete id.timer
      pure { d with activeTimers := d.activeTimers.erase id }
    else if q.callingExpiredTimers = true then
      pure { q with cancelingTimers := q.cancelingTimers.insert id }
    else pure q
  check (r.timers.size = r.activeTimers.size) .sizes
  return r

/- The loop of `getExpired` over the expired entries. -/
def eraseActive (q : TimerQueue) : List Entry → Except TimerFault TimerQueue
  | [] => .ok q
  | e :: es => do
    let t ← q.deref e.timer
    check (⟨e.timer, t.sequence⟩ ∈ q.activeTimers) .expiredErase
    eraseActive { q with activeTimers := q.activeTimers.erase ⟨e.timer, t.sequence⟩ } es

def endAfter (now : Int) : Option Entry → Bool
  | none => true
  | some e => now < e.expiration

/- The entry that `getExpired` compares with. -/
def sentry (now : Int) : Entry := ⟨now, UINTPTR_MAX⟩

/- TimerQueue.cc:231 -/
def getExpired (q : TimerQueue) (now : Int) : Except TimerFault (List Entry × TimerQueue) := do
  check (q.timers.size = q.activeTimers.size) .sizes
  let expired := q.timers.before (sentry now)
  let rest := q.timers.notBefore (sentry now)
  check (endAfter now rest.first = true) .expiredEnd
  let r ← { q with timers := rest }.eraseActive expired
  check (r.timers.size = r.activeTimers.size) .sizes
  return (expired, r)

def resetOne (q : TimerQueue) (now : Int) (e : Entry) : Except TimerFault TimerQueue := do
  let t ← q.deref e.timer
  if t.interval.repeats = true ∧ ¬ ⟨e.timer, t.sequence⟩ ∈ q.cancelingTimers then
    let r ← { q with heap := Function.update q.heap e.timer (some (t.restart now)) }.insert e.timer
    return r.2
  else q.delete e.timer

def resetAll (q : TimerQueue) (now : Int) : List Entry → Except TimerFault TimerQueue
  | [] => .ok q
  | e :: es => do
    let r ← q.resetOne now e
    resetAll r now es

def nextExpire (q : TimerQueue) : Except TimerFault Int :=
  match q.timers.first with
  | none => .ok Timestamp.invalid
  | some e => do
    let t ← q.deref e.timer
    return t.expiration

/- TimerQueue.cc:267; `clock` is the time of the call, `now` that of the batch. -/
def reset (q : TimerQueue) (expired : List Entry) (now clock : Int) :
    Except TimerFault TimerQueue := do
  let r ← q.resetAll now expired
  let next ← r.nextExpire
  return if Timestamp.valid next = true then r.resetTimerfd next clock else r

/- TimerQueue.cc:199, up to the loop over the expired timers. -/
def handleReadBegin (q : TimerQueue) (now : Int) : Except TimerFault (List Entry × TimerQueue) := do
  let (expired, r) ← (q.readTimerfd now).getExpired now
  return (expired, { r with callingExpiredTimers := true, cancelingTimers := .empty })

/- TimerQueue.cc:199, after the loop over the expired timers. -/
def handleReadEnd (q : TimerQueue) (expired : List Entry) (now clock : Int) :
    Except TimerFault TimerQueue :=
  { q with callingExpiredTimers := false }.reset expired now clock

end TimerQueue
end TstMuduo.Net
