import TstMuduo.Lib.CInt
import TstMuduo.Lib.Machine

/-!
# The time wheel of three levels (examples/tsttimewheel/timewheel.h, timewheel.cpp)

A ring of milliseconds in steps, one of sixty seconds and one of minutes. A timer waits in
the list of the minute in which it is due, then in that of the second, then in that of the
step; after its callback it starts again. The callbacks do not touch the wheel.
-/

namespace TstMuduo.LevelWheel
open TstMuduo.Lib

/- What a statement of the wheel must not do; `loopEnd` is the error return of `DoLoop`. -/
inductive WheelFault where
  | listIndex
  | overflow
  | loopEnd
  deriving DecidableEq, Repr

structure TimePos where
  msPos : Int
  sPos : Int
  minPos : Int
  deriving DecidableEq, Repr

/- `callBack` is which callback it is. -/
structure EventInfo where
  interval : Int
  callBack : Nat
  timePos : TimePos
  timerId : Int
  deriving DecidableEq, Repr

structure TimeWheel where
  pCallbackList : Nat → List EventInfo
  timePos : TimePos
  lowCount : Int
  midCount : Int
  highCount : Int
  stepMs : Int

/- An `int` result; a sum of non-negative parts overflows where one of its parts does. -/
def arith (x : Int) : Except WheelFault Int :=
  match int32 x with
  | some y => .ok y
  | none => .error .overflow

namespace TimeWheel

/- `InitTimerWheel` (`timewheel.cpp:78`), without the thread that runs `DoLoop`. -/
def initTimerWheel (stepMs maxMin : Int) : Option TimeWheel :=
  if (1000 : Int).tmod stepMs ≠ 0 then none
  else some ⟨fun _ => [], ⟨0, 0, 0⟩, (1000 : Int).tdiv stepMs, 60, maxMin, stepMs⟩

def nCount (w : TimeWheel) : Int := w.lowCount + w.midCount + w.highCount

/- `GetMS` (`timewheel.cpp:229`). -/
def getMS (w : TimeWheel) (timePos : TimePos) : Int :=
  w.stepMs * timePos.msPos + timePos.sPos * 1000 + timePos.minPos * 60 * 1000

/- `GetNextTrigerPos` (`timewheel.cpp:217`). -/
def getNextTrigerPos (w : TimeWheel) (interval : Int) : Except WheelFault TimePos := do
  let curMs ← arith (w.getMS w.timePos)
  let futureMs ← arith (curMs + interval)
  return {
    minPos := ((futureMs.tdiv 1000).tdiv 60).tmod w.highCount
    sPos := (futureMs.tmod (1000 * 60)).tdiv 1000
    msPos := (futureMs.tmod 1000).tdiv w.stepMs }

def pushBack (w : TimeWheel) (i : Int) (einfo : EventInfo) : Except WheelFault TimeWheel := do
  check (0 ≤ i ∧ i < w.nCount) .listIndex
  return { w with
    pCallbackList := Function.update w.pCallbackList i.toNat (w.pCallbackList i.toNat ++ [einfo]) }

/- `InsertTimer` (`timewheel.cpp:201`). -/
def insertTimer (w : TimeWheel) (diffMs : Int) (einfo : EventInfo) :
    Except WheelFault TimeWheel := do
  let timePos ← w.getNextTrigerPos diffMs
  if timePos.minPos ≠ w.timePos.minPos then
    w.pushBack (w.lowCount + w.midCount + timePos.minPos) einfo
  else if timePos.sPos ≠ w.timePos.sPos then w.pushBack (w.lowCount + timePos.sPos) einfo
  else if timePos.msPos ≠ w.timePos.msPos then w.pushBack timePos.msPos einfo
  else return w

/- `AddTimer` (`timewheel.cpp:104`); `timerId` is what `GenerateTimerID` returns, from `rand`
and `time`. -/
def addTimer (w : TimeWheel) (interval : Int) (callBack : Nat) (timerId : Int) :
    Except WheelFault (Option Int × TimeWheel) := do
  if interval < w.stepMs ∨ interval.tmod w.stepMs ≠ 0 then return (none, w)
  else
    let round ← arith (w.stepMs * w.lowCount * w.midCount * w.highCount)
    if round ≤ interval then return (none, w)
    else
      let w ← w.insertTimer interval ⟨interval, callBack, w.timePos, timerId⟩
      return (some timerId, w)

/- The loop of `DeleteTimer`: `n` lists from the `i`-th on are still to be looked at. -/
def deleteLoop (w : TimeWheel) (timeId : Int) : Nat → Nat → Option EventInfo × TimeWheel
  | 0, _ => (none, w)
  | n + 1, i =>
    match (w.pCallbackList i).find? fun item => item.timerId = timeId with
    | some item => (some item, { w with
        pCallbackList := Function.update w.pCallbackList i
          ((w.pCallbackList i).eraseP fun item => item.timerId = timeId) })
    | none => deleteLoop w timeId n (i + 1)

/- `DeleteTimer` (`timewheel.cpp:127`), with the timer that it erases. -/
def deleteTimer (w : TimeWheel) (timeId : Int) : Option EventInfo × TimeWheel :=
  w.deleteLoop timeId w.nCount.toNat 0

/- `DealTimeWheeling` (`timewheel.cpp:233`), on a copy of the list, with the callbacks that it
calls. -/
def dealTimeWheeling : TimeWheel → List EventInfo → Except WheelFault (TimeWheel × List Nat)
  | w, [] => .ok (w, [])
  | w, item :: leinfo => do
    let curMs ← arith (w.getMS w.timePos)
    let lastMs ← arith (w.getMS item.timePos)
    let round ← arith ((w.highCount + 1) * 60 * 1000)
    let since ← arith (curMs - lastMs + round)
    let diffMs := since.tmod round
    if diffMs = item.interval then
      let w ← w.insertTimer item.interval { item with timePos := w.timePos }
      let (w, called) ← dealTimeWheeling w leinfo
      return (w, item.callBack :: called)
    else
      let w ← w.insertTimer (item.interval - diffMs) item
      dealTimeWheeling w leinfo

/- What `DoLoop` does with the list that has come up; it is cleared at the end. -/
def trigger (w : TimeWheel) (i : Int) : Except WheelFault (TimeWheel × List Nat) := do
  check (0 ≤ i ∧ i < w.nCount) .listIndex
  let (w, called) ← w.dealTimeWheeling (w.pCallbackList i.toNat)
  return ({ w with pCallbackList := Function.update w.pCallbackList i.toNat [] }, called)

/- One iteration of `DoLoop` (`timewheel.cpp:153`). -/
def doLoop (w : TimeWheel) : Except WheelFault (TimeWheel × List Nat) := do
  let pos ← w.getNextTrigerPos w.stepMs
  let lastPos := w.timePos
  let w := { w with timePos := pos }
  if pos.minPos ≠ lastPos.minPos then w.trigger (w.timePos.minPos + w.midCount + w.lowCount)
  else if pos.sPos ≠ lastPos.sPos then w.trigger (w.timePos.sPos + w.lowCount)
  else if pos.msPos ≠ lastPos.msPos then w.trigger w.timePos.msPos
  else .error .loopEnd

end TimeWheel

/-! ### Runs -/

/-- A step that divides a second and is shorter, and at least two minutes. -/
structure Config where
  stepMs : Int
  maxMin : Int
  pos : 0 < stepMs
  dvd : stepMs ∣ 1000
  short : stepMs < 1000
  minutes : 2 ≤ maxMin

def Config.wheel (c : Config) : TimeWheel :=
  ⟨fun _ => [], ⟨0, 0, 0⟩, (1000 : Int).tdiv c.stepMs, 60, c.maxMin, c.stepMs⟩

/- A timer that was added in the step `since`, and the step of its deletion. -/
structure Timer where
  key : Nat
  interval : Int
  since : Nat
  deleted : Option Nat
  deriving DecidableEq, Repr

def Timer.period (t : Timer) (stepMs : Int) : Nat := (t.interval / stepMs).toNat

def Timer.times (t : Timer) (stepMs : Int) (n : Nat) : List (Nat × Nat) :=
  (List.range n).map fun k => (t.key, t.since + (k + 1) * t.period stepMs)

def Timer.firings (t : Timer) (stepMs : Int) (now : Nat) : List (Nat × Nat) :=
  t.times stepMs ((now - t.since) / t.period stepMs)

/- `steps` counts the iterations of `DoLoop`, and `fired` has the number of the step beside
each callback. -/
structure WheelRun where
  wheel : TimeWheel
  steps : Nat
  timers : List Timer
  fired : List (Nat × Nat)

inductive WheelCall where
  | addTimer (interval : Int) (timerId : Int)
  | deleteTimer (timeId : Int)
  | doLoop

namespace WheelRun

def new (c : Config) : WheelRun := ⟨c.wheel, 0, [], []⟩

/- The timers with the callback `key` are deleted now. -/
def markDeleted (now key : Nat) (t : Timer) : Timer :=
  if t.key = key then { t with deleted := some now } else t

def call (s : WheelRun) : WheelCall → Except WheelFault WheelRun
  | .addTimer interval timerId => do
    let (id, wheel) ← s.wheel.addTimer interval s.timers.length timerId
    let added := id.toList.map fun _ => ⟨s.timers.length, interval, s.steps, none⟩
    return { s with wheel := wheel, timers := added ++ s.timers }
  | .deleteTimer timeId =>
    match s.wheel.deleteTimer timeId with
    | (none, wheel) => .ok { s with wheel := wheel }
    | (some item, wheel) => .ok { s with
        wheel := wheel
        timers := s.timers.map (markDeleted s.steps item.callBack) }
  | .doLoop => do
    let (wheel, called) ← s.wheel.doLoop
    return { s with
      wheel := wheel
      steps := s.steps + 1
      fired := s.fired ++ called.map fun key => (key, s.steps + 1) }

/- An interval is an `int`. -/
def Asked : WheelCall → Prop
  | .addTimer interval _ => -2147483648 ≤ interval ∧ interval ≤ 2147483647
  | _ => True

instance (a : WheelCall) : Decidable (Asked a) := by
  cases a <;> unfold Asked <;> infer_instance

def machine (c : Config) : Machine WheelRun WheelCall WheelFault where
  init := new c
  step s a := if Asked a then some (s.call a) else none

/-- Every timer has fired in the steps in which it was to fire, until it was deleted, and
nothing else has. -/
structure Right (s : WheelRun) : Prop where
  keys : (s.timers.map Timer.key).Nodup
  punctual : ∀ t ∈ s.timers, s.fired.filter (fun f => f.1 = t.key) =
    t.firings s.wheel.stepMs (t.deleted.getD s.steps)
  known : ∀ f ∈ s.fired, ∃ t ∈ s.timers, t.key = f.1

end WheelRun

end TstMuduo.LevelWheel
