import Mathlib.Data.List.Nodup
import TstMuduo.Lib.Machine

/-!
# The asynchronous logger (muduo/base/AsyncLogging.h, AsyncLogging.cc, LogStream.h)

The front end appends lines under the lock, the back end swaps the filled buffers out
and writes them. The sections under the lock are single actions, so that the runs of the
machine are the interleavings of the threads; the timed wait of the back end may end at
any time, with or without a notification.
-/

namespace TstMuduo.Base
open TstMuduo.Lib

abbrev Bytes := List UInt8

def kLargeBuffer : Nat := 4000 * 1000

/-! ### The fixed buffers -/

/-- A `FixedBuffer<SIZE>` on the heap: its identity, and the bytes between `data_` and
`cur_`. -/
structure FixedBuffer where
  id : Nat
  data : Bytes
  deriving DecidableEq, Repr

namespace FixedBuffer

def length (b : FixedBuffer) : Nat := b.data.length
def avail (size : Nat) (b : FixedBuffer) : Nat := size - b.data.length
def reset (b : FixedBuffer) : FixedBuffer := { b with data := [] }

/- `FixedBuffer::append` (`LogStream.h:37`): what does not fit is not appended at all. -/
def append (size : Nat) (b : FixedBuffer) (buf : Bytes) : FixedBuffer :=
  if buf.length < b.avail size then { b with data := b.data ++ buf } else b

theorem append_of_lt {size : Nat} {b : FixedBuffer} {buf : Bytes} (h : buf.length < b.avail size) :
    b.append size buf = ⟨b.id, b.data ++ buf⟩ := if_pos h

theorem append_empty {size : Nat} {b : FixedBuffer} {buf : Bytes} (hb : b.data = [])
    (h : buf.length < size) : b.append size buf = ⟨b.id, buf⟩ := by
  have hlt : buf.length < b.avail size := by
    rw [avail, hb]
    exact h
  rw [append_of_lt hlt, hb, List.nil_append]

end FixedBuffer

/-! ### The state -/

/-- The asserts of `threadFunc` in their order, and the use of a null pointer. -/
inductive LogFault where
  | notRunning
  | newBuffer1
  | newBuffer2
  | buffersToWriteLeft
  | buffersToWriteEmpty
  | recycle1
  | recycle2
  | nullBuffer
  deriving DecidableEq, Repr

/-- Where the back end is: before its thread runs, at the test of `running_`, before the
lock, in the timed wait, past the swap, in the loop that writes, after it, or returned. -/
inductive BackEnd where
  | notStarted
  | starting
  | test
  | lock
  | waiting
  | trim
  | write (next : Nat)
  | recycle
  | returned
  deriving DecidableEq, Repr

def BackEnd.resting : BackEnd → Bool
  | .trim => false
  | .write _ => false
  | _ => true

/-- Where the one caller of `stop()` is. -/
inductive StopCall where
  | notCalled
  | called
  | stored
  | joining
  | returned
  deriving DecidableEq, Repr

/-- The members of `AsyncLogging` and the locals of `threadFunc`. The last four fields are
not in the source: the lines in the order of the lock, the contents of every batch that was
swapped out, the times that the batches were looked at, and how many lines were there when
`stop()` was called. -/
structure AsyncLogging where
  running : Bool
  currentBuffer : Option FixedBuffer
  nextBuffer : Option FixedBuffer
  buffers : List FixedBuffer
  newBuffer1 : Option FixedBuffer
  newBuffer2 : Option FixedBuffer
  buffersToWrite : List FixedBuffer
  output : List Bytes
  fresh : Nat
  backEnd : BackEnd
  stopCall : StopCall
  lines : List Bytes
  swapped : List (List Bytes)
  times : List String
  marked : Nat

namespace AsyncLogging

/- The constructor (`AsyncLogging.cc:14`). -/
def init : AsyncLogging where
  running := false
  currentBuffer := some ⟨0, []⟩
  nextBuffer := some ⟨1, []⟩
  buffers := []
  newBuffer1 := none
  newBuffer2 := none
  buffersToWrite := []
  output := []
  fresh := 2
  backEnd := .notStarted
  stopCall := .notCalled
  lines := []
  swapped := []
  times := []
  marked := 0

def deref : Option FixedBuffer → Except LogFault FixedBuffer
  | some b => .ok b
  | none => .error .nullBuffer

/-! ### The operations -/

/- `append` (`AsyncLogging.cc:41`). -/
def append (size : Nat) (s : AsyncLogging) (logline : Bytes) : Except LogFault AsyncLogging := do
  let current ← deref s.currentBuffer
  if logline.length < current.avail size then
    return { s with
      currentBuffer := some (current.append size logline)
      lines := s.lines ++ [logline] }
  else
    match s.nextBuffer with
    | some next =>
      return { s with
        buffers := s.buffers ++ [current]
        currentBuffer := some (next.append size logline)
        nextBuffer := none
        lines := s.lines ++ [logline] }
    | none =>
      return { s with
        buffers := s.buffers ++ [current]
        currentBuffer := some (FixedBuffer.append size ⟨s.fresh, []⟩ logline)
        fresh := s.fresh + 1
        lines := s.lines ++ [logline] }

/- The rest of the critical section of `threadFunc` after the wait (`AsyncLogging.cc:101`). A
null pointer in `buffers_` would be used by the loop that writes. -/
def swap (s : AsyncLogging) : Except LogFault AsyncLogging := do
  let current ← deref s.currentBuffer
  return { s with
    currentBuffer := s.newBuffer1
    newBuffer1 := none
    buffersToWrite := s.buffers ++ [current]
    buffers := s.buffersToWrite
    nextBuffer := s.nextBuffer.or s.newBuffer2
    newBuffer2 := if s.nextBuffer.isNone then none else s.newBuffer2
    backEnd := .trim
    swapped := s.swapped ++ [(s.buffers ++ [current]).map FixedBuffer.data] }

/- The message that `snprintf` puts into 256 bytes. -/
def droppedMessage (now : String) (dropped : Nat) : Bytes :=
  ("Dropped log messages at " ++ now ++ ", " ++ toString dropped ++
    " larger buffers\n").toUTF8.toList.take 255

/- The check of the size of the batch (`AsyncLogging.cc:113`). -/
def trim (s : AsyncLogging) (now : String) : Except LogFault AsyncLogging := do
  check (s.buffersToWrite ≠ []) .buffersToWriteEmpty
  if 25 < s.buffersToWrite.length then
    return { s with
      output := s.output ++ [droppedMessage now (s.buffersToWrite.length - 2)]
      buffersToWrite := s.buffersToWrite.take 2
      backEnd := .write 0
      times := s.times ++ [now] }
  else return { s with backEnd := .write 0, times := s.times ++ [now] }

def write (s : AsyncLogging) (next : Nat) : AsyncLogging :=
  match s.buffersToWrite[next]? with
  | some buffer => { s with output := s.output ++ [buffer.data], backEnd := .write (next + 1) }
  | none => { s with backEnd := .recycle }

/- `if (!newBuffer) { … }` (`AsyncLogging.cc:138`), for either of the two. -/
def refill (newBuffer : Option FixedBuffer) (buffersToWrite : List FixedBuffer) (e : LogFault) :
    Except LogFault (FixedBuffer × List FixedBuffer) :=
  match newBuffer, buffersToWrite.getLast? with
  | some b, _ => .ok (b, buffersToWrite)
  | none, some last => .ok (last.reset, buffersToWrite.dropLast)
  | none, none => .error e

/- From the `resize` on to the end of the loop's body. -/
def recycle (s : AsyncLogging) : Except LogFault AsyncLogging := do
  let kept := if 2 < s.buffersToWrite.length then s.buffersToWrite.take 2 else s.buffersToWrite
  let (newBuffer1, rest1) ← refill s.newBuffer1 kept .recycle1
  let (newBuffer2, _) ← refill s.newBuffer2 rest1 .recycle2
  return { s with
    newBuffer1 := some newBuffer1
    newBuffer2 := some newBuffer2
    buffersToWrite := []
    backEnd := .test }

def isEmptyBuffer : Option FixedBuffer → Bool
  | some b => b.length == 0
  | none => false

/- `while (running_)` and the asserts at the head of the loop (`AsyncLogging.cc:77`). -/
def test (s : AsyncLogging) : Except LogFault AsyncLogging :=
  if s.running then do
    check (isEmptyBuffer s.newBuffer1 = true) .newBuffer1
    check (isEmptyBuffer s.newBuffer2 = true) .newBuffer2
    check (s.buffersToWrite = []) .buffersToWriteLeft
    return { s with backEnd := .lock }
  else return { s with backEnd := .returned }

/- `threadFunc` up to its loop. -/
def enter (s : AsyncLogging) : Except LogFault AsyncLogging := do
  check (s.running = true) .notRunning
  return { s with
    newBuffer1 := some ⟨s.fresh, []⟩
    newBuffer2 := some ⟨s.fresh + 1, []⟩
    fresh := s.fresh + 2
    backEnd := .test }

/-! ### The machine -/

inductive LogAction where
  | start
  | append (logline : Bytes)
  | enter
  | test
  | lock
  | wake
  | trim (now : String)
  | write
  | recycle
  | stopCall
  | stopStore
  | stopNotify
  | stopReturn

/- `start()` returns only after the `countDown` of `threadFunc`, and `stop()` is called
after that. -/
def started (s : AsyncLogging) : Prop := s.backEnd ≠ .notStarted ∧ s.backEnd ≠ .starting

instance (s : AsyncLogging) : Decidable s.started := by unfold started; infer_instance

def step (size : Nat) (s : AsyncLogging) : LogAction → Option (Except LogFault AsyncLogging)
  | .start =>
    if s.backEnd = .notStarted then
      some (.ok { s with running := true, backEnd := .starting })
    else none
  | .append logline => some (s.append size logline)
  | .enter => if s.backEnd = .starting then some s.enter else none
  | .test => if s.backEnd = .test then some s.test else none
  | .lock =>
    if s.backEnd = .lock then
      if s.buffers = [] then some (.ok { s with backEnd := .waiting }) else some s.swap
    else none
  | .wake => if s.backEnd = .waiting then some s.swap else none
  | .trim now => if s.backEnd = .trim then some (s.trim now) else none
  | .write =>
    match s.backEnd with
    | .write next => some (.ok (s.write next))
    | _ => none
  | .recycle => if s.backEnd = .recycle then some s.recycle else none
  | .stopCall =>
    if s.started ∧ s.stopCall = .notCalled then
      some (.ok { s with stopCall := .called, marked := s.lines.length })
    else none
  | .stopStore =>
    if s.stopCall = .called then some (.ok { s with running := false, stopCall := .stored })
    else none
  | .stopNotify =>
    if s.stopCall = .stored then some (.ok { s with stopCall := .joining }) else none
  | .stopReturn =>
    if s.stopCall = .joining ∧ s.backEnd = .returned then
      some (.ok { s with stopCall := .returned })
    else none

/-! ### Pointers -/

def Idle (s : AsyncLogging) : Prop :=
  (∃ b, s.newBuffer1 = some b ∧ b.data = []) ∧ (∃ b, s.newBuffer2 = some b ∧ b.data = []) ∧
    s.buffersToWrite = []

def Busy (s : AsyncLogging) : Prop :=
  s.newBuffer1 = none ∧ s.buffersToWrite ≠ [] ∧ (∀ b, s.newBuffer2 = some b → b.data = []) ∧
    (s.newBuffer2 = none → 2 ≤ s.buffersToWrite.length)

def Phase (s : AsyncLogging) : BackEnd → Prop
  | .notStarted => s.newBuffer1 = none ∧ s.newBuffer2 = none ∧ s.buffersToWrite = []
  | .starting => s.newBuffer1 = none ∧ s.newBuffer2 = none ∧ s.buffersToWrite = [] ∧
      s.running = true
  | .test => s.Idle
  | .lock => s.Idle
  | .waiting => s.Idle
  | .trim => s.Busy
  | .write next => s.Busy ∧ next ≤ s.buffersToWrite.length
  | .recycle => s.Busy
  | .returned => s.Idle

/-- The pointers between the critical sections. -/
structure Shape (s : AsyncLogging) : Prop where
  current : ∃ b, s.currentBuffer = some b
  next_empty : ∀ b, s.nextBuffer = some b → b.data = []
  next_null : s.nextBuffer = none → s.buffers ≠ []
  stopped : s.stopCall ≠ .notCalled → s.started
  phase : s.Phase s.backEnd

def LogAction.Short (size : Nat) : LogAction → Prop
  | .append logline => logline.length < size
  | _ => True

/-- What an action does where the pointers are as in `Shape`: no assert fails and no null
pointer is used. -/
inductive Step (size : Nat) (s : AsyncLogging) : LogAction → AsyncLogging → Prop
  | start (h : s.backEnd = .notStarted) :
    Step size s .start { s with running := true, backEnd := .starting }
  | fits (logline : Bytes) (c : FixedBuffer) (hc : s.currentBuffer = some c)
    (hfit : logline.length < c.avail size) :
    Step size s (.append logline)
      { s with
        currentBuffer := some ⟨c.id, c.data ++ logline⟩, lines := s.lines ++ [logline] }
  | next (logline : Bytes) (c n : FixedBuffer) (hc : s.currentBuffer = some c)
    (hn : s.nextBuffer = some n) :
    Step size s (.append logline)
      { s with
        buffers := s.buffers ++ [c], currentBuffer := some ⟨n.id, logline⟩, nextBuffer := none,
        lines := s.lines ++ [logline] }
  | allocate (logline : Bytes) (c : FixedBuffer) (hc : s.currentBuffer = some c)
    (hn : s.nextBuffer = none) :
    Step size s (.append logline)
      { s with
        buffers := s.buffers ++ [c], currentBuffer := some ⟨s.fresh, logline⟩,
        fresh := s.fresh + 1, lines := s.lines ++ [logline] }
  | enter (h : s.backEnd = .starting) :
    Step size s .enter
      { s with
        newBuffer1 := some ⟨s.fresh, []⟩, newBuffer2 := some ⟨s.fresh + 1, []⟩,
        fresh := s.fresh + 2, backEnd := .test }
  | again (h : s.backEnd = .test) (hr : s.running = true) :
    Step size s .test { s with backEnd := .lock }
  | leave (h : s.backEnd = .test) (hr : s.running = false) :
    Step size s .test { s with backEnd := .returned }
  | wait (h : s.backEnd = .lock) (hb : s.buffers = []) :
    Step size s .lock { s with backEnd := .waiting }
  | swap (a : LogAction) (c n1 n2 : FixedBuffer)
    (h : a = .lock ∧ s.backEnd = .lock ∧ s.buffers ≠ [] ∨ a = .wake ∧ s.backEnd = .waiting)
    (hc : s.currentBuffer = some c) (h1 : s.newBuffer1 = some n1) (h2 : s.newBuffer2 = some n2) :
    Step size s a
      { s with
        currentBuffer := some n1, newBuffer1 := none, buffersToWrite := s.buffers ++ [c],
        buffers := [], nextBuffer := s.nextBuffer.or (some n2),
        newBuffer2 := if s.nextBuffer.isNone then none else some n2, backEnd := .trim,
        swapped := s.swapped ++ [(s.buffers ++ [c]).map FixedBuffer.data] }
  | drop (now : String) (h : s.backEnd = .trim) (hlong : 25 < s.buffersToWrite.length) :
    Step size s (.trim now)
      { s with
        output := s.output ++ [droppedMessage now (s.buffersToWrite.length - 2)],
        buffersToWrite := s.buffersToWrite.take 2, backEnd := .write 0,
        times := s.times ++ [now] }
  | keep (now : String) (h : s.backEnd = .trim) (hshort : s.buffersToWrite.length ≤ 25) :
    Step size s (.trim now) { s with backEnd := .write 0, times := s.times ++ [now] }
  | write (n : Nat) (b : FixedBuffer) (h : s.backEnd = .write n)
    (hb : s.buffersToWrite[n]? = some b) :
    Step size s .write { s with output := s.output ++ [b.data], backEnd := .write (n + 1) }
  | written (n : Nat) (h : s.backEnd = .write n) (hb : s.buffersToWrite[n]? = none) :
    Step size s .write { s with backEnd := .recycle }
  | recycleOne (b1 b2 : FixedBuffer) (h : s.backEnd = .recycle) (h2 : s.newBuffer2 = some b2)
    (hb1 : b1 ∈ s.buffersToWrite) :
    Step size s .recycle
      { s with
        newBuffer1 := some b1.reset, newBuffer2 := some b2, buffersToWrite := [],
        backEnd := .test }
  | recycleTwo (b1 b2 : FixedBuffer) (rest : List FixedBuffer) (h : s.backEnd = .recycle)
    (h2 : s.newBuffer2 = none) (hb : s.buffersToWrite = b2 :: b1 :: rest) :
    Step size s .recycle
      { s with
        newBuffer1 := some b1.reset, newBuffer2 := some b2.reset, buffersToWrite := [],
        backEnd := .test }
  | stopCall (hs : s.started) (h : s.stopCall = .notCalled) :
    Step size s .stopCall { s with stopCall := .called, marked := s.lines.length }
  | stopStore (h : s.stopCall = .called) :
    Step size s .stopStore { s with running := false, stopCall := .stored }
  | stopNotify (h : s.stopCall = .stored) :
    Step size s .stopNotify { s with stopCall := .joining }
  | stopReturn (h : s.stopCall = .joining) (hb : s.backEnd = .returned) :
    Step size s .stopReturn { s with stopCall := .returned }

theorem append_ok {size : Nat} {s : AsyncLogging} (hs : s.Shape) {logline : Bytes}
    (hl : logline.length < size) :
    ∃ t, s.append size logline = .ok t ∧ Step size s (.append logline) t := by
  obtain ⟨c, hc⟩ := hs.current
  by_cases hfit : logline.length < c.avail size
  · refine ⟨_, ?_, .fits logline c hc hfit⟩
    simp only [append, hc, deref, ok_bind, hfit, if_true, FixedBuffer.append_of_lt hfit]
    rfl
  · cases hn : s.nextBuffer with
    | some n =>
      refine ⟨_, ?_, .next logline c n hc hn⟩
      simp only [append, hc, deref, ok_bind, hfit, if_false, hn,
        FixedBuffer.append_empty (hs.next_empty n hn) hl]
      rfl
    | none =>
      refine ⟨_, ?_, .allocate logline c hc hn⟩
      simp only [append, hc, deref, ok_bind, hfit, if_false, hn,
        FixedBuffer.append_empty (b := ⟨s.fresh, []⟩) rfl hl]
      rfl

theorem swap_ok {size : Nat} {s : AsyncLogging} {a : LogAction} (hs : s.Shape) (hi : s.Idle)
    (h : a = .lock ∧ s.backEnd = .lock ∧ s.buffers ≠ [] ∨ a = .wake ∧ s.backEnd = .waiting) :
    ∃ t, s.swap = .ok t ∧ Step size s a t := by
  obtain ⟨c, hc⟩ := hs.current
  obtain ⟨⟨n1, h1, -⟩, ⟨n2, h2, -⟩, hw⟩ := hi
  refine ⟨_, ?_, .swap a c n1 n2 h hc h1 h2⟩
  simp only [swap, hc, deref, ok_bind, h1, h2, hw]
  rfl

theorem trim_ok {size : Nat} {s : AsyncLogging} (now : String) (h : s.backEnd = .trim)
    (hb : s.Busy) : ∃ t, s.trim now = .ok t ∧ Step size s (.trim now) t := by
  by_cases hlong : 25 < s.buffersToWrite.length
  · refine ⟨_, ?_, .drop now h hlong⟩
    simp only [trim, check_ok hb.2.1, ok_bind, hlong, if_true]
    rfl
  · refine ⟨_, ?_, .keep now h (by omega)⟩
    simp only [trim, check_ok hb.2.1, ok_bind, hlong, if_false]
    rfl

def kept (s : AsyncLogging) : List FixedBuffer :=
  if 2 < s.buffersToWrite.length then s.buffersToWrite.take 2 else s.buffersToWrite

theorem kept_ne_nil {s : AsyncLogging} (h : s.buffersToWrite ≠ []) : s.kept ≠ [] := by
  unfold kept
  split
  · intro hnil
    have hlen := congrArg List.length hnil
    rw [List.length_take, List.length_nil] at hlen
    omega
  · exact h

theorem mem_of_mem_kept {s : AsyncLogging} {b : FixedBuffer} (h : b ∈ s.kept) :
    b ∈ s.buffersToWrite := by
  unfold kept at h
  split at h
  · exact List.mem_of_mem_take h
  · exact h

theorem kept_cons_cons {s : AsyncLogging} {b1 b2 : FixedBuffer} {rest : List FixedBuffer}
    (h : s.buffersToWrite = b2 :: b1 :: rest) : s.kept = [b2, b1] := by
  unfold kept
  rw [h]
  split
  · rfl
  next hshort =>
    cases rest with
    | nil => rfl
    | cons b bs =>
      simp only [List.length_cons] at hshort
      omega

theorem recycle_ok {size : Nat} {s : AsyncLogging} (h : s.backEnd = .recycle) (hb : s.Busy) :
    ∃ t, s.recycle = .ok t ∧ Step size s .recycle t := by
  obtain ⟨h1, hne, -, htwo⟩ := hb
  have hkept : (if 2 < s.buffersToWrite.length then s.buffersToWrite.take 2
      else s.buffersToWrite) = s.kept := rfl
  cases h2 : s.newBuffer2 with
  | some b2 =>
    have hlast := List.getLast?_eq_some_getLast (kept_ne_nil hne)
    have hmem := List.getLast_mem (kept_ne_nil hne)
    refine ⟨_, ?_, .recycleOne _ b2 h h2 (mem_of_mem_kept hmem)⟩
    simp only [recycle, hkept, h1, h2, refill, hlast, ok_bind]
    rfl
  | none =>
    match hw : s.buffersToWrite, htwo h2 with
    | b2 :: b1 :: rest, _ =>
      refine ⟨_, ?_, .recycleTwo b1 b2 rest h h2 hw⟩
      simp only [recycle, hkept, kept_cons_cons hw, h1, h2, refill]
      rfl

theorem isEmptyBuffer_some {b : FixedBuffer} (h : b.data = []) :
    isEmptyBuffer (some b) = true := by
  simp only [isEmptyBuffer, FixedBuffer.length, h, List.length_nil, BEq.rfl]

theorem test_ok {size : Nat} {s : AsyncLogging} (h : s.backEnd = .test) (hi : s.Idle) :
    ∃ t, s.test = .ok t ∧ Step size s .test t := by
  obtain ⟨⟨n1, h1, he1⟩, ⟨n2, h2, he2⟩, hw⟩ := hi
  cases hr : s.running with
  | true =>
    refine ⟨_, ?_, .again h hr⟩
    simp only [test, hr, if_true, h1, h2, isEmptyBuffer_some he1, isEmptyBuffer_some he2,
      check_ok hw]
    rfl
  | false =>
    refine ⟨_, ?_, .leave h hr⟩
    simp only [test, hr]
    rfl

/-- Under `Shape` an action succeeds, and does what `Step` lists. -/
theorem step_ok {size : Nat} {s : AsyncLogging} {a : LogAction}
    {x : Except LogFault AsyncLogging} (hs : s.Shape) (ha : a.Short size)
    (h : s.step size a = some x) : ∃ t, x = .ok t ∧ Step size s a t := by
  have hp := hs.phase
  cases a with
  | start =>
    simp only [step] at h
    split at h
    next hb => cases h; exact ⟨_, rfl, .start hb⟩
    · cases h
  | append logline =>
    cases h
    exact append_ok hs ha
  | enter =>
    simp only [step] at h
    split at h
    next hb =>
      cases h
      rw [hb] at hp
      refine ⟨_, ?_, .enter hb⟩
      simp only [enter, check_ok hp.2.2.2]
      rfl
    · cases h
  | test =>
    simp only [step] at h
    split at h
    next hb =>
      cases h
      rw [hb] at hp
      exact test_ok hb hp
    · cases h
  | lock =>
    simp only [step] at h
    split at h
    next hb =>
      rw [hb] at hp
      split at h
      next hempty => cases h; exact ⟨_, rfl, .wait hb hempty⟩
      next hne => cases h; exact swap_ok hs hp (.inl ⟨rfl, hb, hne⟩)
    · cases h
  | wake =>
    simp only [step] at h
    split at h
    next hb =>
      cases h
      rw [hb] at hp
      exact swap_ok hs hp (.inr ⟨rfl, hb⟩)
    · cases h
  | trim now =>
    simp only [step] at h
    split at h
    next hb =>
      cases h
      rw [hb] at hp
      exact trim_ok now hb hp
    · cases h
  | write =>
    simp only [step] at h
    split at h
    next n hb =>
      cases h
      unfold write
      cases hbuf : s.buffersToWrite[n]? with
      | some b => exact ⟨_, rfl, .write n b hb hbuf⟩
      | none => exact ⟨_, rfl, .written n hb hbuf⟩
    · cases h
  | recycle =>
    simp only [step] at h
    split at h
    next hb =>
      cases h
      rw [hb] at hp
      exact recycle_ok hb hp
    · cases h
  | stopCall =>
    simp only [step] at h
    split at h
    next hb => cases h; exact ⟨_, rfl, .stopCall hb.1 hb.2⟩
    · cases h
  | stopStore =>
    simp only [step] at h
    split at h
    next hb => cases h; exact ⟨_, rfl, .stopStore hb⟩
    · cases h
  | stopNotify =>
    simp only [step] at h
    split at h
    next hb => cases h; exact ⟨_, rfl, .stopNotify hb⟩
    · cases h
  | stopReturn =>
    simp only [step] at h
    split at h
    next hb => cases h; exact ⟨_, rfl, .stopReturn hb.1 hb.2⟩
    · cases h

theorem Shape.init : AsyncLogging.init.Shape where
  current := ⟨_, rfl⟩
  next_empty := by
    intro b hb
    cases hb
    rfl
  next_null := fun h => by cases h
  stopped := fun h => absurd rfl h
  phase := ⟨rfl, rfl, rfl⟩

theorem Busy.take_two {s : AsyncLogging} (h : s.Busy) :
    s.buffersToWrite.take 2 ≠ [] ∧
      (s.newBuffer2 = none → 2 ≤ (s.buffersToWrite.take 2).length) := by
  obtain ⟨-, hne, -, htwo⟩ := h
  have hpos := List.length_pos_iff.mpr hne
  constructor
  · intro hnil
    have hlen := congrArg List.length hnil
    rw [List.length_take, List.length_nil] at hlen
    omega
  · intro h2
    have := htwo h2
    rw [List.length_take]
    omega

theorem Shape.step {size : Nat} {s t : AsyncLogging} {a : LogAction} (hs : s.Shape)
    (h : Step size s a t) : t.Shape := by
  have hp := hs.phase
  cases h with
  | start hb =>
    rw [hb] at hp
    refine { hs with stopped := ?_, phase := ⟨hp.1, hp.2.1, hp.2.2, rfl⟩ }
    intro hst
    exact absurd hb (hs.stopped hst).1
  | fits logline c hc hfit => exact { hs with current := ⟨_, rfl⟩ }
  | next logline c n hc hn =>
    refine { hs with current := ⟨_, rfl⟩, next_empty := ?_, next_null := ?_ }
    · intro b hb
      cases hb
    · intro _
      exact List.append_ne_nil_of_right_ne_nil _ (List.cons_ne_nil _ _)
  | allocate logline c hc hn =>
    refine { hs with current := ⟨_, rfl⟩, next_null := ?_ }
    intro _
    exact List.append_ne_nil_of_right_ne_nil _ (List.cons_ne_nil _ _)
  | enter hb =>
    rw [hb] at hp
    refine { hs with stopped := ?_, phase := ⟨⟨_, rfl, rfl⟩, ⟨_, rfl, rfl⟩, hp.2.2.1⟩ }
    intro _
    exact ⟨by simp, by simp⟩
  | again hb hr =>
    rw [hb] at hp
    exact { hs with stopped := fun _ => ⟨by simp, by simp⟩, phase := hp }
  | leave hb hr =>
    rw [hb] at hp
    exact { hs with stopped := fun _ => ⟨by simp, by simp⟩, phase := hp }
  | wait hb hempty =>
    rw [hb] at hp
    exact { hs with stopped := fun _ => ⟨by simp, by simp⟩, phase := hp }
  | swap a c n1 n2 ha hc h1 h2 =>
    have hi : s.Idle := by
      rcases ha with ⟨-, hb, -⟩ | ⟨-, hb⟩ <;>
      · rw [hb] at hp
        exact hp
    obtain ⟨-, ⟨m2, hm2, he2⟩, -⟩ := hi
    cases h2.symm.trans hm2
    refine ⟨⟨n1, rfl⟩, ?_, ?_, fun _ => ⟨by simp, by simp⟩, rfl, ?_, ?_, ?_⟩
    · intro b hb
      change s.nextBuffer.or (some n2) = some b at hb
      cases hn : s.nextBuffer with
      | some n =>
        rw [hn] at hb
        cases hb
        exact hs.next_empty _ hn
      | none =>
        rw [hn] at hb
        cases hb
        exact he2
    · intro hn
      change s.nextBuffer.or (some n2) = none at hn
      cases hnb : s.nextBuffer <;> rw [hnb] at hn <;> cases hn
    · exact List.append_ne_nil_of_right_ne_nil _ (List.cons_ne_nil _ _)
    · intro b hb
      change (if s.nextBuffer.isNone then none else some n2) = some b at hb
      split at hb
      · cases hb
      · cases hb
        exact he2
    · -- the second spare buffer is used up only where `nextBuffer_` was, and then a full
      -- buffer stood in `buffers_` already
      intro hn
      change (if s.nextBuffer.isNone then none else some n2) = none at hn
      split at hn
      next hnull =>
        have hpos := List.length_pos_iff.mpr (hs.next_null (Option.isNone_iff_eq_none.mp hnull))
        change 2 ≤ (s.buffers ++ [c]).length
        rw [List.length_append, List.length_singleton]
        omega
      · cases hn
  | drop now hb hlong =>
    rw [hb] at hp
    obtain ⟨hne, htwo⟩ := Busy.take_two hp
    exact { hs with
      stopped := fun _ => ⟨by simp, by simp⟩,
      phase := ⟨⟨hp.1, hne, hp.2.2.1, htwo⟩, Nat.zero_le _⟩ }
  | keep now hb hshort =>
    rw [hb] at hp
    exact { hs with stopped := fun _ => ⟨by simp, by simp⟩, phase := ⟨hp, Nat.zero_le _⟩ }
  | write n b hb hbuf =>
    rw [hb] at hp
    obtain ⟨hlt, -⟩ := List.getElem?_eq_some_iff.mp hbuf
    exact { hs with stopped := fun _ => ⟨by simp, by simp⟩, phase := ⟨hp.1, hlt⟩ }
  | written n hb hbuf =>
    rw [hb] at hp
    exact { hs with stopped := fun _ => ⟨by simp, by simp⟩, phase := hp.1 }
  | recycleOne b1 b2 hb h2 hmem =>
    rw [hb] at hp
    exact { hs with
      stopped := fun _ => ⟨by simp, by simp⟩,
      phase := ⟨⟨_, rfl, rfl⟩, ⟨_, rfl, hp.2.2.1 b2 h2⟩, rfl⟩ }
  | recycleTwo b1 b2 rest hb h2 hw =>
    exact { hs with
      stopped := fun _ => ⟨by simp, by simp⟩,
      phase := ⟨⟨_, rfl, rfl⟩, ⟨_, rfl, rfl⟩, rfl⟩ }
  | stopCall hst h => exact { hs with stopped := fun _ => hst }
  | stopStore h =>
    have hst := hs.stopped (by rw [h]; decide)
    refine { hs with stopped := fun _ => hst, phase := ?_ }
    cases hb : s.backEnd with
    | starting => exact absurd hb hst.2
    | _ =>
      rw [hb] at hp
      exact hp
  | stopNotify h => exact { hs with stopped := fun _ => hs.stopped (by rw [h]; decide) }
  | stopReturn h hb => exact { hs with stopped := fun _ => hs.stopped (by rw [h]; decide) }

/-! ### Ownership -/

def owned (s : AsyncLogging) : List Nat :=
  (s.currentBuffer.toList ++ s.nextBuffer.toList ++ s.buffers ++ s.newBuffer1.toList ++
    s.newBuffer2.toList ++ s.buffersToWrite).map FixedBuffer.id

/-- No action gives a buffer a second owner; one that was not there before is new. -/
theorem Step.count_owned {size : Nat} {s t : AsyncLogging} {a : LogAction} (hs : s.Shape)
    (h : Step size s a t) (i : Nat) :
    s.fresh ≤ t.fresh ∧
      t.owned.count i ≤ s.owned.count i + if s.fresh ≤ i ∧ i < t.fresh then 1 else 0 := by
  have hp := hs.phase
  cases h with
  | fits logline c hc hfit =>
    simp only [owned, hc, Option.toList_some, List.map_append, List.map_cons, List.map_nil]
    omega
  | next logline c n hc hn =>
    simp only [owned, hc, hn, Option.toList_some, Option.toList_none, List.map_append,
      List.map_cons, List.map_nil, List.count_append, List.count_nil]
    omega
  | allocate logline c hc hn =>
    simp only [owned, hc, hn, Option.toList_some, Option.toList_none, List.map_append,
      List.map_cons, List.map_nil, List.count_append, List.count_nil, List.count_singleton,
      beq_iff_eq]
    split <;> split <;> split <;> omega
  | enter hb =>
    rw [hb] at hp
    simp only [owned, hp.1, hp.2.1, Option.toList_some, Option.toList_none, List.map_append,
      List.map_cons, List.map_nil, List.count_append, List.count_nil, List.count_singleton,
      beq_iff_eq]
    split <;> split <;> split <;> omega
  | swap a c n1 n2 ha hc h1 h2 =>
    cases hn : s.nextBuffer with
    | some n =>
      simp only [owned, hc, h1, h2, hn, Option.toList_some, Option.toList_none, List.map_append,
        List.map_cons, List.map_nil, List.count_append, List.count_nil, Option.some_or,
        Option.isNone_some, Bool.false_eq_true, if_false]
      omega
    | none =>
      simp only [owned, hc, h1, h2, hn, Option.toList_some, Option.toList_none, List.map_append,
        List.map_cons, List.map_nil, List.count_append, List.count_nil, Option.none_or,
        Option.isNone_none, if_true]
      omega
  | drop now hb hlong =>
    have hsub := ((List.take_sublist 2 s.buffersToWrite).map FixedBuffer.id).count_le i
    simp only [owned, List.map_append, List.count_append]
    omega
  | recycleOne b1 b2 hb h2 hmem =>
    rw [hb] at hp
    have hsub := ((List.singleton_sublist.mpr hmem).map FixedBuffer.id).count_le i
    simp only [owned, hp.1, h2, FixedBuffer.reset, Option.toList_some, Option.toList_none,
      List.map_append, List.map_cons, List.map_nil, List.count_append, List.count_nil] at hsub ⊢
    omega
  | recycleTwo b1 b2 rest hb h2 hw =>
    rw [hb] at hp
    simp only [owned, hp.1, h2, hw, FixedBuffer.reset, Option.toList_some, Option.toList_none,
      List.map_append, List.map_cons, List.map_nil, List.count_append, List.count_nil,
      List.count_cons]
    omega
  | _ => exact ⟨Nat.le_refl _, Nat.le_add_right _ _⟩

structure Owned (s : AsyncLogging) : Prop where
  once : ∀ i, s.owned.count i ≤ 1
  old : ∀ i, s.fresh ≤ i → s.owned.count i = 0

theorem Owned.init : AsyncLogging.init.Owned where
  once := List.nodup_iff_count_le_one.mp (by decide)
  old := by
    intro i hi
    apply List.count_eq_zero_of_not_mem
    intro hmem
    change i ∈ [0, 1] at hmem
    change 2 ≤ i at hi
    simp only [List.mem_cons, List.not_mem_nil, or_false] at hmem
    omega

theorem Owned.step {size : Nat} {s t : AsyncLogging} {a : LogAction} (ho : s.Owned)
    (hs : s.Shape) (h : Step size s a t) : t.Owned := by
  constructor
  · intro i
    have hone := ho.once i
    have hold := ho.old i
    have hstep := (h.count_owned hs i).2
    split at hstep <;> omega
  · intro i hi
    have hold := ho.old i
    obtain ⟨hle, hstep⟩ := h.count_owned hs i
    split at hstep <;> omega

/-! ### The bytes -/

def front (s : AsyncLogging) : List Bytes :=
  (s.buffers ++ s.currentBuffer.toList).map FixedBuffer.data

def batchCalls (now : String) (batch : List Bytes) : List Bytes :=
  if 25 < batch.length then droppedMessage now (batch.length - 2) :: batch.take 2 else batch

def unwritten (s : AsyncLogging) : List Bytes :=
  match s.backEnd with
  | .write next => (s.buffersToWrite.drop next).map FixedBuffer.data
  | _ => []

structure Content (s : AsyncLogging) : Prop where
  bytes : s.swapped.flatten.flatten ++ s.front.flatten = s.lines.flatten
  calls : s.output ++ s.unwritten = (List.zipWith batchCalls s.times s.swapped).flatten
  counted : s.backEnd ≠ .trim → s.times.length = s.swapped.length
  pending : s.backEnd = .trim → ∃ prev,
    s.swapped = prev ++ [s.buffersToWrite.map FixedBuffer.data] ∧ s.times.length = prev.length

theorem front_swap (s : AsyncLogging) (c : FixedBuffer) (hc : s.currentBuffer = some c) :
    s.front = (s.buffers ++ [c]).map FixedBuffer.data := by
  rw [front, hc, Option.toList_some]

theorem Content.append {s t : AsyncLogging} (h : s.Content) {logline : Bytes}
    (hl : t.lines = s.lines ++ [logline]) (hf : t.front.flatten = s.front.flatten ++ logline)
    (ho : t.output = s.output) (hb : t.backEnd = s.backEnd)
    (hw : t.buffersToWrite = s.buffersToWrite) (hsw : t.swapped = s.swapped)
    (htm : t.times = s.times) : t.Content where
  bytes := by
    rw [hl, hf, hsw, ← List.append_assoc, h.bytes, List.flatten_append]
    simp only [List.flatten_cons, List.flatten_nil, List.append_nil]
  calls := by
    have hc := h.calls
    simp only [unwritten] at hc ⊢
    rw [ho, hb, hw, hsw, htm]
    exact hc
  counted := by
    rw [hb, hsw, htm]
    exact h.counted
  pending := by
    rw [hb, hsw, htm, hw]
    exact h.pending

theorem Content.init : AsyncLogging.init.Content where
  bytes := rfl
  calls := rfl
  counted := fun _ => rfl
  pending := fun h => by cases h

theorem unwritten_resting {s : AsyncLogging} (h : s.backEnd.resting = true) : s.unwritten = [] := by
  unfold unwritten
  split
  next n hb => rw [hb] at h; cases h
  · rfl

theorem Content.rest {s t : AsyncLogging} (h : s.Content) (hs : s.backEnd.resting = true)
    (ht : t.backEnd.resting = true) (hl : t.lines = s.lines) (hf : t.front = s.front)
    (ho : t.output = s.output) (hsw : t.swapped = s.swapped) (htm : t.times = s.times) :
    t.Content where
  bytes := by
    rw [hsw, hf, hl]
    exact h.bytes
  calls := by
    have hc := h.calls
    rw [unwritten_resting hs] at hc
    rw [unwritten_resting ht, ho, htm, hsw]
    exact hc
  counted := by
    intro _
    rw [htm, hsw]
    apply h.counted
    intro hb
    rw [hb] at hs
    cases hs
  pending := by
    intro hb
    rw [hb] at ht
    cases ht

theorem zipWith_unpaired {α β γ : Type} (f : α → β → γ) {xs : List α} {ys : List β}
    (h : xs.length = ys.length) (y : β) :
    List.zipWith f xs (ys ++ [y]) = List.zipWith f xs ys := by
  induction xs generalizing ys with
  | nil => rw [List.zipWith_nil_left, List.zipWith_nil_left]
  | cons x xs ih =>
    cases ys with
    | nil => cases h
    | cons z ys =>
      rw [List.cons_append, List.zipWith_cons_cons, List.zipWith_cons_cons, ih (Nat.succ.inj h)]

theorem Content.trimmed {s t : AsyncLogging} (h : s.Content) (hb : s.backEnd = .trim)
    (now : String) (hbt : t.backEnd = .write 0) (hl : t.lines = s.lines) (hf : t.front = s.front)
    (hsw : t.swapped = s.swapped) (htm : t.times = s.times ++ [now])
    (hcalls : t.output ++ t.buffersToWrite.map FixedBuffer.data =
      s.output ++ batchCalls now (s.buffersToWrite.map FixedBuffer.data)) : t.Content := by
  obtain ⟨prev, hprev, hlen⟩ := h.pending hb
  have hout : s.output = (List.zipWith batchCalls s.times prev).flatten := by
    have hc := h.calls
    have hnone : s.unwritten = [] := by
      simp only [unwritten, hb]
    rw [hnone, List.append_nil, hprev, zipWith_unpaired batchCalls hlen] at hc
    exact hc
  constructor
  · rw [hsw, hf, hl]
    exact h.bytes
  · have hun : t.unwritten = t.buffersToWrite.map FixedBuffer.data := by
      simp only [unwritten, hbt, List.drop_zero]
    rw [hun, hcalls, htm, hsw, hprev, List.zipWith_append hlen, List.flatten_append, ← hout]
    simp only [List.zipWith_cons_cons, List.zipWith_nil_right, List.flatten_cons,
      List.flatten_nil, List.append_nil]
  · intro _
    rw [htm, hsw, hprev, List.length_append, List.length_append, hlen]
    rfl
  · intro hbt'
    rw [hbt] at hbt'
    cases hbt'

theorem Content.step {size : Nat} {s t : AsyncLogging} {a : LogAction} (hs : s.Content)
    (hsh : s.Shape) (h : Step size s a t) : t.Content := by
  have hp := hsh.phase
  have hc := hs.calls
  cases h with
  | fits logline c hcur hfit =>
    refine hs.append rfl ?_ rfl rfl rfl rfl rfl
    simp only [front, hcur, Option.toList_some, List.map_append, List.map_cons, List.map_nil,
      List.flatten_append, List.flatten_cons, List.flatten_nil, List.append_nil,
      List.append_assoc]
  | next logline c n hcur hn =>
    refine hs.append rfl ?_ rfl rfl rfl rfl rfl
    simp only [front, hcur, Option.toList_some, List.map_append, List.map_cons, List.map_nil,
      List.flatten_append, List.flatten_cons, List.flatten_nil, List.append_nil,
      List.append_assoc]
  | allocate logline c hcur hn =>
    refine hs.append rfl ?_ rfl rfl rfl rfl rfl
    simp only [front, hcur, Option.toList_some, List.map_append, List.map_cons, List.map_nil,
      List.flatten_append, List.flatten_cons, List.flatten_nil, List.append_nil,
      List.append_assoc]
  | swap a c n1 n2 ha hcur h1 h2 =>
    have hrest : s.backEnd.resting = true ∧ s.Idle ∧ s.backEnd ≠ .trim := by
      rcases ha with ⟨-, hb, -⟩ | ⟨-, hb⟩ <;>
      · rw [hb] at hp ⊢
        exact ⟨rfl, hp, by decide⟩
    obtain ⟨hresting, ⟨⟨m1, hm1, he1⟩, -, -⟩, hnt⟩ := hrest
    cases h1.symm.trans hm1
    have hlen := hs.counted hnt
    have hbytes := hs.bytes
    rw [front_swap s c hcur] at hbytes
    refine ⟨?_, ?_, fun h => absurd rfl h, fun _ => ⟨s.swapped, rfl, hlen⟩⟩
    · simp only [front, List.nil_append, Option.toList_some, List.map_cons, List.map_nil, he1,
        List.flatten_append, List.flatten_cons, List.flatten_nil, List.append_nil]
      exact hbytes
    · rw [unwritten_resting hresting, List.append_nil] at hc
      simp only [unwritten]
      rw [zipWith_unpaired batchCalls hlen, List.append_nil]
      exact hc
  | drop now hb hlong =>
    refine hs.trimmed hb now rfl rfl rfl rfl rfl ?_
    simp only [batchCalls, List.length_map, hlong, if_true, List.map_take, List.append_assoc,
      List.singleton_append]
  | keep now hb hshort =>
    refine hs.trimmed hb now rfl rfl rfl rfl rfl ?_
    have hnot : ¬ 25 < s.buffersToWrite.length := by omega
    simp only [batchCalls, List.length_map, hnot, if_false]
  | write n b hb hbuf =>
    have hdrop : s.buffersToWrite.drop n = b :: s.buffersToWrite.drop (n + 1) := by
      obtain ⟨hlt, hget⟩ := List.getElem?_eq_some_iff.mp hbuf
      rw [List.drop_eq_getElem_cons hlt, hget]
    refine ⟨hs.bytes, ?_, fun _ => hs.counted (by rw [hb]; simp), fun h => by cases h⟩
    simp only [unwritten, hb, hdrop] at hc ⊢
    rw [List.append_assoc]
    exact hc
  | written n hb hbuf =>
    have hdrop : s.buffersToWrite.drop n = [] :=
      List.drop_eq_nil_of_le (List.getElem?_eq_none_iff.mp hbuf)
    refine ⟨hs.bytes, ?_, fun _ => hs.counted (by rw [hb]; simp), fun h => by cases h⟩
    simp only [unwritten, hb, hdrop] at hc ⊢
    exact hc
  | start hb => exact hs.rest (by rw [hb]; rfl) rfl rfl rfl rfl rfl rfl
  | enter hb => exact hs.rest (by rw [hb]; rfl) rfl rfl rfl rfl rfl rfl
  | again hb hr => exact hs.rest (by rw [hb]; rfl) rfl rfl rfl rfl rfl rfl
  | leave hb hr => exact hs.rest (by rw [hb]; rfl) rfl rfl rfl rfl rfl rfl
  | wait hb hempty => exact hs.rest (by rw [hb]; rfl) rfl rfl rfl rfl rfl rfl
  | recycleOne b1 b2 hb h2 hmem => exact hs.rest (by rw [hb]; rfl) rfl rfl rfl rfl rfl rfl
  | recycleTwo b1 b2 rest hb h2 hw => exact hs.rest (by rw [hb]; rfl) rfl rfl rfl rfl rfl rfl
  | _ => exact ⟨hs.bytes, hs.calls, hs.counted, hs.pending⟩

/-! ### Runs -/

structure Inv (s : AsyncLogging) : Prop where
  shape : s.Shape
  owned : s.Owned
  content : s.Content

theorem Inv.init : AsyncLogging.init.Inv := ⟨.init, .init, .init⟩

theorem Inv.step {size : Nat} {s t : AsyncLogging} {a : LogAction} (hs : s.Inv)
    (h : Step size s a t) : t.Inv :=
  ⟨hs.shape.step h, hs.owned.step hs.shape h, hs.content.step hs.shape h⟩

def appended (as : List LogAction) : List Bytes :=
  as.filterMap fun a => match a with
    | .append logline => some logline
    | _ => none

theorem Step.lines {size : Nat} {s t : AsyncLogging} {a : LogAction} (h : Step size s a t) :
    t.lines = s.lines ++ appended [a] := by
  cases h with
  | fits => rfl
  | next => rfl
  | allocate => rfl
  | swap a c n1 n2 ha =>
    rcases ha with ⟨rfl, -⟩ | ⟨rfl, -⟩ <;> exact (List.append_nil _).symm
  | _ => exact (List.append_nil _).symm

end AsyncLogging

def asyncLogging (size : Nat) : Machine AsyncLogging AsyncLogging.LogAction LogFault where
  init := .init
  step := AsyncLogging.step size

namespace AsyncLogging

/-- From a state with the invariant every run goes on without a failed assert, and logs the
lines of its calls. -/
theorem run_inv {size : Nat} {s : AsyncLogging} {as : List LogAction} (hs : s.Inv)
    (hshort : ∀ a ∈ as, a.Short size) {x : Except LogFault AsyncLogging}
    (h : (asyncLogging size).run s as = some x) :
    ∃ t, x = .ok t ∧ t.Inv ∧ t.lines = s.lines ++ appended as := by
  induction as generalizing s with
  | nil =>
    cases h
    exact ⟨s, rfl, hs, (List.append_nil _).symm⟩
  | cons a as ih =>
    have ha := hshort a List.mem_cons_self
    have has : ∀ b ∈ as, b.Short size := fun b hb => hshort b (List.mem_cons_of_mem _ hb)
    unfold Machine.run at h
    split at h
    · cases h
    next e he =>
      obtain ⟨t, ht, -⟩ := step_ok hs.shape ha he
      cases ht
    next u hu =>
      obtain ⟨v, hv, hstep⟩ := step_ok hs.shape ha hu
      cases hv
      obtain ⟨t, ht, hinv, hlines⟩ := ih (hs.step hstep) has h
      refine ⟨t, ht, hinv, ?_⟩
      rw [hlines, hstep.lines, List.append_assoc]
      congr 1
      exact (List.filterMap_append (l := [a])).symm

def batch (s : AsyncLogging) : List Bytes :=
  match s.backEnd with
  | .trim => s.buffersToWrite.map FixedBuffer.data
  | .write next => (s.buffersToWrite.drop next).map FixedBuffer.data
  | _ => []

theorem zipWith_batchCalls (times : List String) (batches : List (List Bytes))
    (h : ∀ b ∈ batches, b.length ≤ 25) :
    List.zipWith batchCalls times batches = batches.take times.length := by
  induction times generalizing batches with
  | nil => rfl
  | cons now times ih =>
    cases batches with
    | nil => rfl
    | cons b batches =>
      have hb : ¬ 25 < b.length := by
        have := h b List.mem_cons_self
        omega
      have hrest := ih batches fun c hc => h c (List.mem_cons_of_mem _ hc)
      rw [List.zipWith_cons_cons, hrest, batchCalls, if_neg hb]
      rfl

theorem Content.output_batch {s : AsyncLogging} (h : s.Content)
    (hb : ∀ b ∈ s.swapped, b.length ≤ 25) : s.output ++ s.batch = s.swapped.flatten := by
  have hc := h.calls
  rw [zipWith_batchCalls _ _ hb] at hc
  by_cases ht : s.backEnd = .trim
  · obtain ⟨prev, hprev, hlen⟩ := h.pending ht
    have hbatch : s.batch = s.buffersToWrite.map FixedBuffer.data := by
      simp only [batch, ht]
    have hnone : s.unwritten = [] := by
      simp only [unwritten, ht]
    rw [hnone, List.append_nil, hlen, hprev, List.take_left] at hc
    rw [hbatch, hc, hprev, List.flatten_append]
    simp only [List.flatten_cons, List.flatten_nil, List.append_nil]
  · have hbatch : s.batch = s.unwritten := by
      cases hbt : s.backEnd with
      | trim => exact absurd hbt ht
      | _ => simp only [batch, unwritten, hbt]
    rw [hbatch, hc, h.counted ht, List.take_length]

/-- In every interleaving the asserts of `threadFunc` hold, `nextBuffer_` is null only where
`buffers_` is not empty, and every buffer has one owner. What is written, the batch and the
buffers of the front end are the appended lines as long as no batch exceeds 25 buffers; a
longer batch is written as a message and its first two buffers. -/
theorem front_and_back_end (as : List LogAction) (hshort : ∀ a ∈ as, a.Short kLargeBuffer)
    (x : Except LogFault AsyncLogging) (h : (asyncLogging kLargeBuffer).run .init as = some x) :
    ∃ t, x = .ok t ∧ t.lines = appended as ∧
      (∃ b, t.currentBuffer = some b) ∧ (t.nextBuffer = none → t.buffers ≠ []) ∧
      t.owned.Nodup ∧
      ((∀ b ∈ t.swapped, b.length ≤ 25) →
        (t.output ++ t.batch ++ t.front).flatten = t.lines.flatten) ∧
      (t.swapped.flatten ++ t.front).flatten = t.lines.flatten ∧
      t.output ++ t.unwritten = (List.zipWith batchCalls t.times t.swapped).flatten ∧
      (t.backEnd ≠ .trim → t.times.length = t.swapped.length) := by
  obtain ⟨t, ht, hinv, hlines⟩ := run_inv .init hshort h
  have hall : (t.swapped.flatten ++ t.front).flatten = t.lines.flatten := by
    rw [List.flatten_append]
    exact hinv.content.bytes
  refine ⟨t, ht, hlines, hinv.shape.current, hinv.shape.next_null,
    List.nodup_iff_count_le_one.mpr hinv.owned.once, ?_, hall, hinv.content.calls,
    hinv.content.counted⟩
  intro hb
  rw [hinv.content.output_batch hb]
  exact hall

/- Two lines go through one batch by the timed wait, a third comes while it is written. -/
def threeLines : List LogAction :=
  [.append [1, 2], .start, .enter, .test, .lock, .append [3], .wake, .trim "", .write,
    .append [4, 5]]

theorem front_and_back_end_three_lines :
    ∃ t, (asyncLogging kLargeBuffer).run .init threeLines = some (.ok t) ∧
      t.owned.Nodup ∧ t.output = [[1, 2, 3]] ∧
      (t.output ++ t.batch ++ t.front).flatten = [1, 2, 3, 4, 5] := by
  have hrun : (asyncLogging kLargeBuffer).runsTo .init threeLines
      (fun t => t.output == [[1, 2, 3]] && t.swapped == [[[1, 2, 3]]]) = true := by
    decide +kernel
  obtain ⟨t, ht, htest⟩ := Machine.exists_of_runsTo hrun
  simp only [Bool.and_eq_true, beq_iff_eq] at htest
  have hshort : ∀ a ∈ threeLines, a.Short kLargeBuffer := by
    simp [threeLines, LogAction.Short, kLargeBuffer]
  obtain ⟨u, hu, hlines, -, -, hnodup, hbytes, -⟩ := front_and_back_end _ hshort _ ht
  cases hu
  refine ⟨t, ht, hnodup, htest.1, ?_⟩
  rw [hbytes (by rw [htest.2]; decide), hlines]
  rfl

end AsyncLogging

end TstMuduo.Base
