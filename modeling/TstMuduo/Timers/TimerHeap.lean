import TstMuduo.Lib.CInt
import TstMuduo.Lib.Machine
import TstMuduo.Lib.StdHeap

/-!
# The timer heap (examples/tst-tw-timer/heapopr.h, heapopr.cpp)

Pointers to timers in an array whose first `cur_size` entries are a heap by expiry. A timer
that is deleted by its owner is only marked; `del_timer` now and then drops the marked ones.
The callbacks do not touch the heap, so what is kept of a call is that it happened.
-/

namespace TstMuduo.Timers
open TstMuduo.Lib

/- What a statement of the heap must not do. -/
inductive HeapFault where
  | index
  | nullTimer
  | danglingTimer
  | overflow
  | endless
  deriving DecidableEq, Repr

/- `cbFunc` says whether the pointer to the callback is set. -/
structure HeapTimerNode where
  expire : Int
  cbFunc : Bool
  validFlag : Bool
  deriving DecidableEq, Repr

/- `nodes` are the timers that are allocated. The three `int`s are never negative; what may
exceed an `int` is checked where it is computed. -/
structure TimerHeap where
  array : List (Option Nat)
  cap : Nat
  curSize : Nat
  delNum : Nat
  nodes : Nat → Option HeapTimerNode

namespace TimerHeap

def read (nodes : Nat → Option HeapTimerNode) : Option Nat → Except HeapFault HeapTimerNode
  | none => .error .nullTimer
  | some p =>
    match nodes p with
    | none => .error .danglingTimer
    | some node => .ok node

def free (nodes : Nat → Option HeapTimerNode) :
    Option Nat → Except HeapFault (Nat → Option HeapTimerNode)
  | none => .ok nodes
  | some p => do
    let _ ← read nodes (some p)
    return Function.update nodes p none

def expireOf (nodes : Nat → Option HeapTimerNode) (e : Option Nat) : Int :=
  ((e.bind nodes).map HeapTimerNode.expire).getD 0

/- `cmp_heap_timer_node` (`heapopr.cpp:180`), on pointers that can be followed. -/
def cmpHeapTimerNode (nodes : Nat → Option HeapTimerNode) (node1 node2 : Option Nat) : Bool :=
  decide (expireOf nodes node1 > expireOf nodes node2)

def entry (h : TimerHeap) (i : Nat) : Except HeapFault (Option Nat) :=
  match h.array[i]? with
  | none => .error .index
  | some e => .ok e

def setEntry (h : TimerHeap) (i : Nat) (e : Option Nat) : Except HeapFault TimerHeap := do
  check (i < h.array.length) .index
  return { h with array := h.array.set i e }

def compared (nodes : Nat → Option HeapTimerNode) : List (Option Nat) → Except HeapFault Unit
  | [] => .ok ()
  | e :: rest => do
    let _ ← read nodes e
    compared nodes rest

/- A heap algorithm on `[array.begin(), array.begin() + cur_size)`; it compares nothing in a
range of one. -/
def arrange (alg : (Option Nat → Option Nat → Bool) → List (Option Nat) → List (Option Nat))
    (h : TimerHeap) : Except HeapFault TimerHeap := do
  check (h.curSize ≤ h.array.length) .index
  if 2 ≤ h.curSize then compared h.nodes (h.array.take h.curSize)
  return { h with
    array := alg (cmpHeapTimerNode h.nodes) (h.array.take h.curSize) ++ h.array.drop h.curSize }

variable (lib : StdHeap (Option Nat))

/- `timer_heap(cap)` (`heapopr.cpp:184`) for an `int` that is not negative; for a negative one
the `resize` of the vector throws. -/
def new (cap : Fin (intMax + 1)) : TimerHeap where
  array := lib.makeHeap (cmpHeapTimerNode fun _ => none) [] ++ List.replicate cap none
  cap := cap
  curSize := 0
  delNum := 0
  nodes := fun _ => none

/- `resize` (`heapopr.cpp:273`). -/
def resize (h : TimerHeap) : Except HeapFault TimerHeap := do
  check (h.cap * 2 ≤ intMax) .overflow
  return { h with
    array := h.array.take (h.cap * 2) ++ List.replicate (h.cap * 2 - h.array.length) none
    cap := h.cap * 2 }

def makeRoom (h : TimerHeap) : Except HeapFault TimerHeap :=
  if h.cap ≤ h.curSize then h.resize else .ok h

/- `add_timer` (`heapopr.cpp:194`). -/
def addTimer (h : TimerHeap) : Option Nat → Except HeapFault TimerHeap
  | none => .ok h
  | some p => do
    let h ← h.makeRoom
    let h ← h.setEntry h.curSize (some p)
    check (h.curSize + 1 ≤ intMax) .overflow
    arrange lib.pushHeap { h with curSize := h.curSize + 1 }

/- The loop of `del_timer`: `n` entries from `i` on are still to be looked at, and the next
one that stays goes to `validIndex`. `discarded` are the timers that have been deleted. -/
def compactLoop : Nat → TimerHeap → Nat → Nat → List Nat →
    Except HeapFault (TimerHeap × Nat × List Nat)
  | 0, h, _, validIndex, discarded => .ok (h, validIndex, discarded)
  | n + 1, h, i, validIndex, discarded => do
    let e ← h.entry i
    let node ← read h.nodes e
    if node.validFlag then
      let h ← h.setEntry validIndex e
      let h ← h.setEntry i none
      compactLoop n h (i + 1) (validIndex + 1) discarded
    else
      let nodes ← free h.nodes e
      let h ← { h with nodes := nodes }.setEntry i none
      compactLoop n h (i + 1) validIndex (discarded ++ e.toList)

/- `del_timer` (`heapopr.cpp:209`); the count of deleted timers is never set back. -/
def delTimer (h : TimerHeap) : Option Nat → Except HeapFault (TimerHeap × List Nat)
  | none => .ok (h, [])
  | some p => do
    let node ← read h.nodes (some p)
    let marked := { node with cbFunc := false, validFlag := false }
    check (h.delNum + 1 ≤ intMax) .overflow
    let h := { h with nodes := Function.update h.nodes p (some marked), delNum := h.delNum + 1 }
    if h.curSize / 2 ≤ h.delNum then
      let (h, validIndex, discarded) ← compactLoop h.curSize h 0 0 []
      let h ← arrange lib.makeHeap { h with curSize := validIndex }
      return (h, discarded)
    else
      return (h, [])

/- `get_top` (`heapopr.cpp:239`). -/
def getTop (h : TimerHeap) : Except HeapFault (Option Nat) :=
  if h.curSize = 0 then .ok none else h.entry 0

/- `del_top` (`heapopr.cpp:247`), with the timer that it deletes. -/
def delTop (h : TimerHeap) : Except HeapFault (TimerHeap × Option Nat) := do
  let h ← arrange lib.popHeap h
  let e ← h.entry (h.curSize - 1)
  let nodes ← free h.nodes e
  let h ← { h with nodes := nodes }.setEntry (h.curSize - 1) none
  return ({ h with curSize := h.curSize - 1 }, e)

/- What a tick has done: the callbacks it called, with the timers as they were, and the
timers it deleted. -/
structure Ticked where
  ran : List (Nat × HeapTimerNode)
  removed : List Nat
  deriving DecidableEq, Repr

/- The loop of `tick`. -/
def tickLoop (fuel : Nat) (h : TimerHeap) (topTimer : Option Nat) (cur : Int) (done : Ticked) :
    Except HeapFault (TimerHeap × Ticked) :=
  if h.curSize = 0 then .ok (h, done)
  else
    match topTimer with
    | none => .ok (h, done)
    | some p => do
      let node ← read h.nodes (some p)
      if cur < node.expire then return (h, done)
      else
        match fuel with
        | 0 => .error .endless
        | fuel + 1 => do
          let ran := if node.validFlag && node.cbFunc then done.ran ++ [(p, node)] else done.ran
          let (h, e) ← h.delTop lib
          -- `topTimer == get_top()` compares; `topTimer` stays what it was
          let _ ← h.getTop
          tickLoop fuel h topTimer cur ⟨ran, done.removed ++ e.toList⟩

/- `tick` (`heapopr.cpp:256`); `cur` is what `time` returns. -/
def tick (h : TimerHeap) (cur : Int) : Except HeapFault (TimerHeap × Ticked) := do
  let topTimer ← h.getTop
  tickLoop lib h.curSize h topTimer cur ⟨[], []⟩

def held (h : TimerHeap) : List (Nat × HeapTimerNode) :=
  (h.array.take h.curSize).filterMap fun e => e.bind fun p => (h.nodes p).map fun node => (p, node)

def topNode (h : TimerHeap) : Option HeapTimerNode := h.array.head?.join.bind h.nodes

/-- The first `cur_size` entries are the timers `ids`, each once, none of them deleted, in heap
order by expiry. -/
structure Holds (h : TimerHeap) (ids : List Nat) : Prop where
  room : h.cap ≤ intMax
  length : h.array.length = h.cap
  size : ids.length = h.curSize
  entries : h.array.take h.curSize = ids.map some
  nodup : ids.Nodup
  live : ∀ p ∈ ids, (h.nodes p).isSome
  heap : IsHeap (cmpHeapTimerNode h.nodes) (ids.map some)

end TimerHeap

/-! ### Runs -/

structure TickRecord where
  now : Int
  held : List (Nat × HeapTimerNode)
  ticked : TimerHeap.Ticked

/-- What a tick is to do with the timers that the heap holds: the callbacks of the valid
expired ones run once each, in the order of their expiry, and exactly the expired ones go. -/
structure TickRecord.Right (r : TickRecord) : Prop where
  ran : r.ticked.ran.Perm (r.held.filter fun x =>
    x.2.validFlag && x.2.cbFunc && decide (x.2.expire ≤ r.now))
  order : r.ticked.ran.Pairwise fun x y => x.2.expire ≤ y.2.expire
  removed : r.ticked.removed.Perm
    ((r.held.filter fun x => decide (x.2.expire ≤ r.now)).map Prod.fst)

/- `deleted` are the timers that `del_timer` was called with, `discarded` and `expired` those
that it and `tick` have freed. -/
structure HeapRun where
  heap : TimerHeap
  added : List (Nat × Int)
  deleted : List Nat
  discarded : List Nat
  expired : List Nat
  ticks : List TickRecord

inductive HeapCall where
  | addTimer (p : Nat) (expire : Int) (cbFunc : Bool)
  | delTimer (p : Nat)
  | tick (now : Int)

namespace HeapRun

variable (lib : StdHeap (Option Nat))

def new (cap : Fin (intMax + 1)) : HeapRun := ⟨.new lib cap, [], [], [], [], []⟩

def call (s : HeapRun) : HeapCall → Except HeapFault HeapRun
  | .addTimer p expire cbFunc => do
    let node : HeapTimerNode := ⟨expire, cbFunc, true⟩
    let made := { s.heap with nodes := Function.update s.heap.nodes p (some node) }
    let heap ← made.addTimer lib (some p)
    return { s with heap := heap, added := (p, expire) :: s.added }
  | .delTimer p => do
    let (heap, discarded) ← s.heap.delTimer lib (some p)
    return { s with
      heap := heap
      deleted := p :: s.deleted
      discarded := s.discarded ++ discarded }
  | .tick now => do
    let (heap, ticked) ← s.heap.tick lib now
    return { s with
      heap := heap
      expired := s.expired ++ ticked.removed
      ticks := ⟨now, s.heap.held, ticked⟩ :: s.ticks }

def Asked (s : HeapRun) : HeapCall → Prop
  | .addTimer p _ _ => p ∉ s.added.map Prod.fst
  | .delTimer p => some p ∈ s.heap.array.take s.heap.curSize
  | .tick _ => True

instance (s : HeapRun) (a : HeapCall) : Decidable (s.Asked a) := by
  cases a <;> unfold Asked <;> infer_instance

def machine (cap : Fin (intMax + 1)) : Machine HeapRun HeapCall HeapFault where
  init := new lib cap
  step s a := if s.Asked a then some (s.call lib a) else none

/-- The heap holds exactly the timers that were added and are neither expired nor discarded,
as they were added; only timers that were deleted are discarded; and every tick was right. -/
structure Right (s : HeapRun) : Prop where
  holds : ∃ ids, s.heap.Holds ids ∧
    (∀ p, p ∈ ids ↔ p ∈ s.added.map Prod.fst ∧ p ∉ s.expired ∧ p ∉ s.discarded) ∧
    ∀ p ∈ ids, ∃ node, s.heap.nodes p = some node ∧ (p, node.expire) ∈ s.added ∧
      (node.validFlag = false ↔ p ∈ s.deleted)
  discarded : ∀ p ∈ s.discarded, p ∈ s.deleted
  ticks : ∀ r ∈ s.ticks, r.Right

end HeapRun

end TstMuduo.Timers
