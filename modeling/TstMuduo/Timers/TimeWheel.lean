import TstMuduo.Lib.Linked
import TstMuduo.Lib.Machine

/-!
# The time wheel with rotations (examples/tst-tw-timer/timewheel.h, timewheel.cpp)

Sixty slots, each with a doubly linked list of timers. A timer knows its slot and how many
rotations it still has to wait. The callbacks do not touch the wheel, so what is kept of a
call is that it happened.
-/

namespace TstMuduo.Timers
open TstMuduo.Lib

/- What a statement of the wheel must not do. -/
inductive WheelFault where
  | slotIndex
  | nullTimer
  | danglingTimer
  | endless
  deriving DecidableEq, Repr

structure TwTimer where
  rotation : Nat
  timeSolt : Nat
  deriving DecidableEq, Repr

def N : Nat := 60
def TI : Int := 1

/- `timers` are the timers that are allocated; the next one gets the address `next`. -/
structure TimeWheel where
  curSlot : Nat
  slots : Nat → Option Nat
  timers : LinkHeap TwTimer
  next : Nat

namespace TimeWheel

/- `time_wheel()` (`timewheel.cpp:71`). -/
def new : TimeWheel := ⟨0, fun _ => none, fun _ => none, 0⟩

def read (timers : LinkHeap TwTimer) : Option Nat → Except WheelFault (LinkCell TwTimer)
  | none => .error .nullTimer
  | some p =>
    match timers p with
    | none => .error .danglingTimer
    | some c => .ok c

/- `if (p) p->prev = prev`. -/
def setPrev (timers : LinkHeap TwTimer) (p prev : Option Nat) :
    Except WheelFault (LinkHeap TwTimer) :=
  match p with
  | none => .ok timers
  | some _ => do
    let _ ← read timers p
    return timers.setPrev p prev

def ticksOf (timeout : Int) : Nat := if timeout < TI then 1 else (timeout / TI).toNat

/- `add_timer` (`timewheel.cpp:95`). -/
def addTimer (w : TimeWheel) (timeout : Int) : Except WheelFault (Option Nat × TimeWheel) :=
  if timeout < 0 then .ok (none, w)
  else do
    let ticks := ticksOf timeout
    let rotation := ticks / N
    let ts := w.curSlot + ticks
    check (ts < N) .slotIndex
    match w.slots ts with
    | none =>
      return (some w.next, { w with
        slots := Function.update w.slots ts (some w.next)
        timers := Function.update w.timers w.next (some ⟨⟨rotation, ts⟩, none, none⟩)
        next := w.next + 1 })
    | some head =>
      let _ ← read w.timers (some head)
      return (some w.next, { w with
        slots := Function.update w.slots ts (some w.next)
        timers := w.timers.push w.next ⟨rotation, ts⟩ (some head)
        next := w.next + 1 })

/- A timer is taken out of the list of a slot and deleted: what `tick` and `del_timer` both
do, by whether it is at the head. -/
def removeTimer (w : TimeWheel) (slot p : Nat) (c : LinkCell TwTimer) :
    Except WheelFault TimeWheel :=
  if w.slots slot = some p then do
    let timers ← setPrev w.timers c.next none
    return { w with slots := Function.update w.slots slot c.next, timers := timers.free p }
  else do
    let _ ← read w.timers c.prev
    let timers ← setPrev (w.timers.setNext c.prev c.next) c.next c.prev
    return { w with timers := timers.free p }

/- `del_timer` (`timewheel.cpp:169`). -/
def delTimer (w : TimeWheel) : Option Nat → Except WheelFault TimeWheel
  | none => .ok w
  | some p => do
    let c ← read w.timers (some p)
    check (c.value.timeSolt < N) .slotIndex
    w.removeTimer c.value.timeSolt p c

/- The loop of `tick`; `fired` are the timers whose callbacks have been called. -/
def tickLoop : Nat → TimeWheel → Option Nat → List Nat → Except WheelFault (TimeWheel × List Nat)
  | _, w, none, fired => .ok (w, fired)
  | 0, _, some _, _ => .error .endless
  | fuel + 1, w, some p, fired => do
    let c ← read w.timers (some p)
    if 0 < c.value.rotation then
      let waiting := { c with value := { c.value with rotation := c.value.rotation - 1 } }
      tickLoop fuel { w with timers := Function.update w.timers p (some waiting) } c.next fired
    else
      let v ← w.removeTimer w.curSlot p c
      let following := if w.slots w.curSlot = some p then v.slots w.curSlot else c.next
      tickLoop fuel v following (fired ++ [p])

/- `tick` (`timewheel.cpp:128`). -/
def tick (w : TimeWheel) : Except WheelFault (TimeWheel × List Nat) := do
  check (w.curSlot < N) .slotIndex
  let (v, fired) ← tickLoop w.next w (w.slots w.curSlot) []
  return ({ v with curSlot := (v.curSlot + 1) % N }, fired)

end TimeWheel

/-! ### Runs -/

/- A timer that was added: what it waits, and how many ticks there had been. -/
structure Added where
  id : Nat
  wait : Nat
  since : Nat
  deriving DecidableEq, Repr

/- `fired` has the number of the tick beside each timer. -/
structure WheelRun where
  wheel : TimeWheel
  ticks : Nat
  added : List Added
  deleted : List Nat
  fired : List (Nat × Nat)

inductive WheelCall where
  | addTimer (timeout : Int)
  | delTimer (p : Nat)
  | tick

namespace WheelRun

def new : WheelRun := ⟨.new, 0, [], [], []⟩

def Pending (s : WheelRun) (p : Nat) : Prop :=
  p ∈ s.added.map Added.id ∧ p ∉ s.deleted ∧ p ∉ s.fired.map Prod.fst

instance (s : WheelRun) (p : Nat) : Decidable (s.Pending p) := by
  unfold Pending
  infer_instance

def waitOf (timeout : Int) : Nat := max 1 (timeout / TI).toNat

def call (s : WheelRun) : WheelCall → Except WheelFault WheelRun
  | .addTimer timeout => do
    let (id, wheel) ← s.wheel.addTimer timeout
    let added := id.toList.map fun i => ⟨i, waitOf timeout, s.ticks⟩
    return { s with wheel := wheel, added := added ++ s.added }
  | .delTimer p => do
    let wheel ← s.wheel.delTimer (some p)
    return { s with wheel := wheel, deleted := p :: s.deleted }
  | .tick => do
    let (wheel, fired) ← s.wheel.tick
    return { s with
      wheel := wheel
      ticks := s.ticks + 1
      fired := s.fired ++ fired.map fun p => (p, s.ticks + 1) }

def Asked (s : WheelRun) : WheelCall → Prop
  | .addTimer timeout => 0 ≤ timeout
  | .delTimer p => s.Pending p
  | .tick => True

instance (s : WheelRun) (a : WheelCall) : Decidable (s.Asked a) := by
  cases a <;> unfold Asked <;> infer_instance

def machine : Machine WheelRun WheelCall WheelFault where
  init := new
  step s a := if s.Asked a then some (s.call a) else none

/-- The lists of the slots are chains, with exactly the pending timers, each in one place;
a timer that is not deleted fires once, at the tick after those that it waits, and a deleted
one does not fire. -/
structure Right (s : WheelRun) : Prop where
  lists : ∃ l : Nat → List (Nat × TwTimer),
    (∀ i < N, s.wheel.timers.Chain none (s.wheel.slots i) (l i) ∧ ((l i).map Prod.fst).Nodup) ∧
    (∀ i j p, i < N → j < N → p ∈ (l i).map Prod.fst → p ∈ (l j).map Prod.fst → i = j) ∧
    ∀ p, s.Pending p ↔ ∃ i < N, p ∈ (l i).map Prod.fst
  punctual : ∀ a ∈ s.added, a.id ∉ s.deleted →
    s.fired.filter (fun f => f.1 = a.id) =
      if a.since + a.wait + 1 ≤ s.ticks then [(a.id, a.since + a.wait + 1)] else []
  silent : ∀ p ∈ s.deleted, p ∉ s.fired.map Prod.fst

end WheelRun

end TstMuduo.Timers
