import TstMuduo.Net.Buffer

/-!
# The byte buffer as a queue (muduo/net/Buffer.h, Buffer.cc)

The rest of the operations of `Buffer`, and what a run of them does: whatever the
storage and the indices go through, the readable bytes are those of a byte queue.
-/

namespace TstMuduo.Net
open TstMuduo.Lib

/- What `readv(2)` answers: an error, or the bytes it has delivered. -/
inductive ReadvResult where
  | failed (errno : Nat)
  | got (data : Bytes)
  deriving DecidableEq, Repr

namespace Buffer

/-! ### The other operations -/

/- `retrieveUntil` (`Buffer.h:156`); `end_` is the distance of the pointer from `peek()`. -/
def retrieveUntil (b : Buffer) (end_ : Nat) : Except Assertion Buffer := do
  check (end_ ≤ b.readableBytes) .bufferRetrieveUntil
  b.retrieve end_

/- `retrieveAsString` (`Buffer.h:195`). -/
def retrieveAsString (b : Buffer) (len : Nat) : Except Assertion (Bytes × Buffer) := do
  check (len ≤ b.readableBytes) .bufferRetrieveAsString
  let result := b.contents.take len
  let r ← b.retrieve len
  return (result, r)

/- `unwrite` (`Buffer.h:254`). -/
def unwrite (b : Buffer) (len : Nat) : Except Assertion Buffer :=
  if h : len ≤ b.readableBytes then
    .ok { b with
      writerIndex := b.writerIndex - len
      reader_le := by have hr := b.reader_le; unfold readableBytes at h; omega
      writer_le := by have hw := b.writer_le; omega }
  else .error .bufferUnwrite

/- `prepend` (`Buffer.h:393`). -/
def prepend (b : Buffer) (data : Bytes) : Except Assertion Buffer :=
  if h : data.length ≤ b.prependableBytes then
    have hl : (copyAt b.buffer (b.readerIndex - data.length) data).length = b.buffer.length :=
      length_copyAt _ _ _ (by
        have hr := b.reader_le
        have hw := b.writer_le
        unfold prependableBytes at h
        omega)
    .ok {
      buffer := copyAt b.buffer (b.readerIndex - data.length) data
      readerIndex := b.readerIndex - data.length
      writerIndex := b.writerIndex
      reader_le := by have hr := b.reader_le; omega
      writer_le := by rw [hl]; exact b.writer_le
      prepend_le := by rw [hl]; exact b.prepend_le }
  else .error .bufferPrepend

/- `toStringPiece` (`Buffer.h:205`): the length is cast to an int. -/
def toStringPiece (b : Buffer) : Except Assertion Bytes := do
  check (b.readableBytes < 2 ^ 31) .stringPieceLength
  return b.contents

/- `shrink` (`Buffer.h:402`); the swap with `other` leaves its value. -/
def shrink (b : Buffer) (reserve : Nat) : Except Assertion Buffer := do
  let other ← (new kInitialSize).ensureWritableBytes (b.readableBytes + reserve)
  let piece ← b.toStringPiece
  other.val.append piece

def extrabuf : Nat := 65536

def offered (b : Buffer) : Nat :=
  if b.writableBytes < extrabuf then b.writableBytes + extrabuf else b.writableBytes

section

variable (b : Buffer) (data : Bytes)

theorem tail_reader_le (h : data.length ≤ b.writableBytes) :
    (b.copyIn data h).readerIndex ≤ b.writerIndex + data.length :=
  Nat.le_trans b.reader_le (Nat.le_add_right _ _)

theorem tail_writer_le (h : data.length ≤ b.writableBytes) :
    b.writerIndex + data.length ≤ (b.copyIn data h).buffer.length := by
  have hw := b.writer_le
  simp only [copyIn, writableBytes] at h ⊢
  rw [length_copyAt _ _ _ (by omega)]
  omega

theorem length_take_writable : (data.take b.writableBytes).length ≤ b.writableBytes := by
  rw [List.length_take]
  exact Nat.min_le_left _ _

theorem reader_le_length : b.readerIndex ≤ b.buffer.length :=
  Nat.le_trans b.reader_le b.writer_le

/- All of the storage is written, `writerIndex_ = buffer_.size()`. -/
def fill : Buffer :=
  { b with
    writerIndex := b.buffer.length
    reader_le := b.reader_le_length
    writer_le := Nat.le_refl _ }

end

/- `readFd` (`Buffer.cc:52`) after `readv` has put its bytes into the tail of the
storage and, behind that, into `extrabuf`. -/
def readFd (b : Buffer) : ReadvResult → Except Assertion (Int × Buffer)
  | .failed _ => .ok (-1, b)
  | .got data =>
    if h : data.length ≤ b.writableBytes then
      .ok (data.length, { b.copyIn data h with
        writerIndex := b.writerIndex + data.length
        reader_le := b.tail_reader_le data h
        writer_le := b.tail_writer_le data h })
    else do
      let r ← (b.copyIn (data.take b.writableBytes) (b.length_take_writable data)).fill.append
        (data.drop b.writableBytes)
      return (data.length, r)

/-! ### What they do to the readable bytes -/

theorem retrieveUntil_spec (b : Buffer) (end_ : Nat) (h : end_ ≤ b.readableBytes) :
    ∃ r, b.retrieveUntil end_ = .ok r ∧ r.contents = b.contents.drop end_ := by
  obtain ⟨r, hr, hc⟩ := b.retrieve_spec end_ h
  refine ⟨r, ?_, hc⟩
  simp only [retrieveUntil, check_ok h, ok_bind, hr]

theorem retrieveAsString_spec (b : Buffer) (len : Nat) (h : len ≤ b.readableBytes) :
    ∃ r, b.retrieveAsString len = .ok (b.contents.take len, r) ∧
      b.retrieve len = .ok r ∧ r.contents = b.contents.drop len := by
  obtain ⟨r, hr, hc⟩ := b.retrieve_spec len h
  refine ⟨r, ?_, hr, hc⟩
  simp only [retrieveAsString, check_ok h, ok_bind, hr]
  rfl

theorem unwrite_spec (b : Buffer) (len : Nat) (h : len ≤ b.readableBytes) :
    ∃ r, b.unwrite len = .ok r ∧ r.contents = b.contents.take (b.contents.length - len) ∧
      r.readerIndex = b.readerIndex := by
  refine ⟨_, dif_pos h, ?_, rfl⟩
  have hr := b.reader_le
  have hw := b.writer_le
  have hl := b.length_contents
  unfold readableBytes at h hl
  simp only [contents] at hl ⊢
  rw [hl, List.take_drop, List.take_take]
  congr 2
  omega

theorem drop_copyAt (buf : Bytes) (i : Nat) (data : Bytes) (h : i + data.length ≤ buf.length) :
    (copyAt buf i data).drop i = data ++ buf.drop (i + data.length) := by
  rw [copyAt, List.append_assoc, List.drop_append_of_le_length (by rw [List.length_take]; omega),
    List.drop_eq_nil_of_le (by rw [List.length_take]; omega), List.nil_append]

theorem prepend_spec (b : Buffer) (data : Bytes) (h : data.length ≤ b.prependableBytes) :
    ∃ r, b.prepend data = .ok r ∧ r.contents = data ++ b.contents ∧
      r.readerIndex = b.readerIndex - data.length := by
  refine ⟨_, dif_pos h, ?_, rfl⟩
  have hr := b.reader_le
  have hw := b.writer_le
  unfold prependableBytes at h
  have hi : b.readerIndex - data.length + data.length = b.readerIndex := by omega
  simp only [contents]
  rw [List.drop_take, drop_copyAt _ _ _ (by omega), hi, List.drop_take]
  have hlen : b.writerIndex - (b.readerIndex - data.length) =
      data.length + (b.writerIndex - b.readerIndex) := by omega
  rw [hlen, List.take_length_add_append]

theorem toStringPiece_spec (b : Buffer) (h : b.readableBytes < 2 ^ 31) :
    b.toStringPiece = .ok b.contents := by
  simp only [toStringPiece, check_ok h, ok_bind]
  rfl

theorem contents_new (n : Nat) : (new n).contents = [] := by
  rw [contents_eq_nil]
  exact Nat.sub_self _

theorem shrink_spec (b : Buffer) (reserve : Nat) (h : b.readableBytes < 2 ^ 31) :
    ∃ r, b.shrink reserve = .ok r ∧ r.contents = b.contents := by
  obtain ⟨other, ho, hc⟩ :=
    (new kInitialSize).ensureWritableBytes_spec (b.readableBytes + reserve)
  obtain ⟨r, hr, hrc⟩ := other.val.append_spec b.contents
  refine ⟨r, ?_, ?_⟩
  · simp only [shrink, ho, ok_bind, b.toStringPiece_spec h, hr]
  · rw [hrc, hc, contents_new, List.nil_append]

theorem contents_copyIn (b : Buffer) (data : Bytes) (h : data.length ≤ b.writableBytes) :
    ((b.copyIn data h).buffer.take (b.writerIndex + data.length)).drop b.readerIndex =
      b.contents ++ data := by
  have hr := b.reader_le
  have hw := b.writer_le
  simp only [copyIn, contents]
  rw [take_copyAt _ _ _ hw, List.drop_append_of_le_length (by rw [List.length_take]; omega)]

theorem length_copyIn (b : Buffer) (data : Bytes) (h : data.length ≤ b.writableBytes) :
    (b.copyIn data h).buffer.length = b.buffer.length := by
  have hw := b.writer_le
  unfold writableBytes at h
  exact length_copyAt _ _ _ (by omega)

theorem hasWritten_copyIn (b : Buffer) (data : Bytes) (h : data.length ≤ b.writableBytes) :
    ∃ r, (b.copyIn data h).hasWritten data.length = .ok r ∧ r.contents = b.contents ++ data ∧
      r.readerIndex = b.readerIndex := by
  have hl : data.length ≤ (b.copyIn data h).writableBytes := by
    unfold writableBytes
    rw [length_copyIn]
    exact h
  exact ⟨_, dif_pos hl, contents_copyIn b data h, rfl⟩

theorem readFd_got (b : Buffer) (data : Bytes) :
    ∃ r, b.readFd (.got data) = .ok (data.length, r) ∧ r.contents = b.contents ++ data := by
  by_cases h : data.length ≤ b.writableBytes
  · exact ⟨_, dif_pos h, contents_copyIn b data h⟩
  · have ht : (data.take b.writableBytes).length = b.writableBytes := by
      rw [List.length_take]
      omega
    have hle := b.length_take_writable data
    obtain ⟨r, hr, hc⟩ := append_spec (b.copyIn (data.take b.writableBytes) hle).fill
      (data.drop b.writableBytes)
    refine ⟨r, ?_, ?_⟩
    · simp only [readFd, h, dite_false, hr, ok_bind]
      rfl
    · have hw := b.writer_le
      have hfull : b.writerIndex + (data.take b.writableBytes).length = b.buffer.length := by
        rw [ht]
        unfold writableBytes
        omega
      have hcopy := contents_copyIn b (data.take b.writableBytes) hle
      rw [hfull, ← length_copyIn b _ hle] at hcopy
      rw [hc, contents]
      simp only [fill]
      rw [show (b.copyIn (data.take b.writableBytes) hle).readerIndex = b.readerIndex from rfl,
        hcopy, List.append_assoc, List.take_append_drop]

/-! ### The reserved area -/

def Reserved (b : Buffer) : Prop := kCheapPrepend ≤ b.prependableBytes

theorem Reserved.retrieve {b r : Buffer} {len : Nat} (hb : b.Reserved)
    (h : b.retrieve len = .ok r) : r.Reserved := by
  unfold Buffer.retrieve at h
  obtain ⟨_, _, h⟩ := bind_eq_ok h
  split at h
  · cases h
    exact Nat.le_trans hb (Nat.le_add_right _ _)
  · cases h
    exact Nat.le_refl _

theorem Reserved.makeSpace {b r : Buffer} {len : Nat} {small : b.writableBytes < len}
    (hb : b.Reserved) (h : b.makeSpace len small = .ok r) : r.Reserved := by
  unfold Buffer.makeSpace at h
  split at h
  · cases h
    exact hb
  · split at h
    · cases h
      exact Nat.le_refl _
    · cases h

theorem Reserved.ensureWritableBytes {b : Buffer} {len : Nat}
    {r : { r : Buffer // len ≤ r.writableBytes }} (hb : b.Reserved)
    (h : b.ensureWritableBytes len = .ok r) : r.val.Reserved := by
  by_cases hs : b.writableBytes < len
  · obtain ⟨u, hu, _, hl⟩ := b.makeSpace_spec len hs
    simp only [Buffer.ensureWritableBytes, hs, dite_true, hu, ok_bind, hl] at h
    cases h
    exact hb.makeSpace hu
  · simp only [Buffer.ensureWritableBytes, hs, dite_false, ok_bind, Nat.le_of_not_lt hs,
      dite_true] at h
    cases h
    exact hb

theorem Reserved.append {b r : Buffer} {data : Bytes} (hb : b.Reserved)
    (h : b.append data = .ok r) : r.Reserved := by
  unfold Buffer.append at h
  obtain ⟨u, hu, h⟩ := bind_eq_ok h
  have hur := hb.ensureWritableBytes hu
  unfold hasWritten at h
  split at h
  · cases h
    exact hur
  · cases h

theorem Reserved.new (n : Nat) : (new n).Reserved := Nat.le_refl _

theorem Reserved.shrink {b r : Buffer} {reserve : Nat} (h : b.shrink reserve = .ok r) :
    r.Reserved := by
  unfold Buffer.shrink at h
  obtain ⟨other, ho, h⟩ := bind_eq_ok h
  obtain ⟨piece, _, h⟩ := bind_eq_ok h
  exact ((Reserved.new _).ensureWritableBytes ho).append h

theorem Reserved.readFd {b r : Buffer} {v : ReadvResult} {n : Int} (hb : b.Reserved)
    (h : b.readFd v = .ok (n, r)) : r.Reserved := by
  unfold Buffer.readFd at h
  split at h
  · cases h
    exact hb
  · split at h
    · cases h
      exact hb
    · obtain ⟨u, hu, h⟩ := bind_eq_ok h
      cases h
      exact Reserved.append (by exact hb) hu

end Buffer

/-! ### Runs -/

/-- Calls on buffers with a number each. `hasWritten` comes with the bytes that the
caller has stored behind `beginWrite()`. -/
inductive BufferCall where
  | append (i : Nat) (data : Bytes)
  | prepend (i : Nat) (data : Bytes)
  | retrieve (i len : Nat)
  | retrieveUntil (i end_ : Nat)
  | retrieveAsString (i len : Nat)
  | retrieveAll (i : Nat)
  | unwrite (i len : Nat)
  | ensureWritableBytes (i len : Nat)
  | hasWritten (i : Nat) (data : Bytes)
  | shrink (i reserve : Nat)
  | swap (i j : Nat)
  | readFd (i : Nat) (v : ReadvResult)

/-- The buffers, and what the calls of `retrieveAsString` and `readFd` have returned. -/
structure Buffers where
  buffer : Nat → Buffer
  strings : List Bytes
  counts : List Int

namespace Buffers

def set (s : Buffers) (i : Nat) (b : Buffer) : Buffers :=
  { s with buffer := Function.update s.buffer i b }

/- One call, from the sizes that the caller answers for: the length is there to be taken,
the storage and the argument are smaller than an int. -/
def call (s : Buffers) : BufferCall → Except Assertion Buffers
  | .append i data => do return s.set i (← (s.buffer i).append data)
  | .prepend i data => do return s.set i (← (s.buffer i).prepend data)
  | .retrieve i len => do return s.set i (← (s.buffer i).retrieve len)
  | .retrieveUntil i end_ => do return s.set i (← (s.buffer i).retrieveUntil end_)
  | .retrieveAsString i len => do
    let (result, b) ← (s.buffer i).retrieveAsString len
    return { s.set i b with strings := s.strings ++ [result] }
  | .retrieveAll i => .ok (s.set i (s.buffer i).retrieveAll)
  | .unwrite i len => do return s.set i (← (s.buffer i).unwrite len)
  | .ensureWritableBytes i len => do return s.set i (← (s.buffer i).ensureWritableBytes len).val
  | .hasWritten i data =>
    if h : data.length ≤ (s.buffer i).writableBytes then do
      return s.set i (← ((s.buffer i).copyIn data h).hasWritten data.length)
    else .error .bufferHasWritten
  | .shrink i reserve => do return s.set i (← (s.buffer i).shrink reserve)
  | .swap i j => .ok ((s.set i (s.buffer j)).set j (s.buffer i))
  | .readFd i v => do
    let (n, b) ← (s.buffer i).readFd v
    return { s.set i b with counts := s.counts ++ [n] }

/- What the caller promises, and the kernel for `readv`. -/
def Legal (s : Buffers) : BufferCall → Prop
  | .append i data => (s.buffer i).buffer.length < 2 ^ 31 ∧ data.length < 2 ^ 31
  | .prepend i data => data.length ≤ (s.buffer i).prependableBytes
  | .retrieve i len => len ≤ (s.buffer i).readableBytes
  | .retrieveUntil i end_ => end_ ≤ (s.buffer i).readableBytes
  | .retrieveAsString i len => len ≤ (s.buffer i).readableBytes
  | .retrieveAll _ => True
  | .unwrite i len => len ≤ (s.buffer i).readableBytes
  | .ensureWritableBytes i len => (s.buffer i).buffer.length < 2 ^ 31 ∧ len < 2 ^ 31
  | .hasWritten i data => data.length ≤ (s.buffer i).writableBytes
  | .shrink i reserve => (s.buffer i).buffer.length < 2 ^ 31 ∧ reserve < 2 ^ 31
  | .swap _ _ => True
  | .readFd i (.got data) =>
    (s.buffer i).buffer.length < 2 ^ 31 ∧ data.length ≤ (s.buffer i).offered
  | .readFd _ (.failed _) => True

instance (s : Buffers) (a : BufferCall) : Decidable (s.Legal a) := by
  cases a with
  | readFd i v => cases v <;> unfold Legal <;> infer_instance
  | _ => unfold Legal; infer_instance

def step (s : Buffers) (a : BufferCall) : Option (Except Assertion Buffers) :=
  if s.Legal a then some (s.call a) else none

def machine (size : Nat → Nat) : Machine Buffers BufferCall Assertion where
  init := ⟨fun i => Buffer.new (size i), [], []⟩
  step := step

end Buffers

/-- The abstract side: byte queues, and what was taken out of them as strings. -/
structure Queues where
  queue : Nat → Bytes
  strings : List Bytes
  counts : List Int

namespace Queues

def set (q : Queues) (i : Nat) (bytes : Bytes) : Queues :=
  { q with queue := Function.update q.queue i bytes }

def call (q : Queues) : BufferCall → Queues
  | .append i data => q.set i (q.queue i ++ data)
  | .prepend i data => q.set i (data ++ q.queue i)
  | .retrieve i len => q.set i ((q.queue i).drop len)
  | .retrieveUntil i end_ => q.set i ((q.queue i).drop end_)
  | .retrieveAsString i len =>
    { q.set i ((q.queue i).drop len) with strings := q.strings ++ [(q.queue i).take len] }
  | .retrieveAll i => q.set i []
  | .unwrite i len => q.set i ((q.queue i).take ((q.queue i).length - len))
  | .ensureWritableBytes _ _ => q
  | .hasWritten i data => q.set i (q.queue i ++ data)
  | .shrink _ _ => q
  | .swap i j => (q.set i (q.queue j)).set j (q.queue i)
  | .readFd i (.got data) =>
    { q.set i (q.queue i ++ data) with counts := q.counts ++ [(data.length : Int)] }
  | .readFd _ (.failed _) => { q with counts := q.counts ++ [-1] }

def new : Queues := ⟨fun _ => [], [], []⟩

end Queues

/- The calls that may use up the prepend area of buffer `i`. -/
def BufferCall.prepends (i : Nat) : BufferCall → Bool
  | .prepend j _ => j == i
  | .swap j k => j == i || k == i
  | _ => false

namespace Buffers

def queues (s : Buffers) : Queues := ⟨fun i => (s.buffer i).contents, s.strings, s.counts⟩

theorem queues_set (s : Buffers) (i : Nat) (b : Buffer) :
    (s.set i b).queues = s.queues.set i b.contents := by
  simp only [queues, set, Queues.set, Queues.mk.injEq, and_true]
  funext j
  by_cases hj : j = i
  · subst hj
    simp only [Function.update_self]
  · simp only [Function.update_of_ne hj]

theorem queues_set_same (s : Buffers) (i : Nat) {b : Buffer}
    (h : b.contents = (s.buffer i).contents) : (s.set i b).queues = s.queues := by
  rw [queues_set, h]
  simp only [Queues.set, queues, Queues.mk.injEq, and_true]
  exact Function.update_eq_self i fun j => (s.buffer j).contents

theorem buffer_set_self (s : Buffers) (i : Nat) (b : Buffer) : (s.set i b).buffer i = b := by
  simp only [set, Function.update_self]

theorem buffer_set_ne (s : Buffers) {i j : Nat} (b : Buffer) (h : j ≠ i) :
    (s.set i b).buffer j = s.buffer j := by
  simp only [set, Function.update_of_ne h]

theorem reserved_set {s : Buffers} {i j : Nat} {b : Buffer} (hs : (s.buffer j).Reserved)
    (hb : (s.buffer i).Reserved → b.Reserved) : ((s.set i b).buffer j).Reserved := by
  by_cases hj : j = i
  · subst hj
    rw [buffer_set_self]
    exact hb hs
  · rw [buffer_set_ne s b hj]
    exact hs

theorem set_ok (s : Buffers) (i : Nat) {call : Except Assertion Buffer} {r : Buffer}
    {bytes : Bytes} (hr : call = .ok r) (hc : r.contents = bytes) :
    ∃ t, (do return s.set i (← call)) = Except.ok (ε := Assertion) t ∧
      t.queues = s.queues.set i bytes := by
  refine ⟨s.set i r, ?_, ?_⟩
  · rw [hr]
    rfl
  · rw [queues_set, hc]

/-- A legal call trips no assertion and does to the queues what it should. -/
theorem call_queues (s : Buffers) (a : BufferCall) (h : s.Legal a) :
    ∃ t, s.call a = .ok t ∧ t.queues = s.queues.call a := by
  cases a with
  | append i data =>
    obtain ⟨r, hr, hc⟩ := (s.buffer i).append_spec data
    exact set_ok s i hr hc
  | prepend i data =>
    obtain ⟨r, hr, hc, _⟩ := (s.buffer i).prepend_spec data h
    exact set_ok s i hr hc
  | retrieve i len =>
    obtain ⟨r, hr, hc⟩ := (s.buffer i).retrieve_spec len h
    exact set_ok s i hr hc
  | retrieveUntil i end_ =>
    obtain ⟨r, hr, hc⟩ := (s.buffer i).retrieveUntil_spec end_ h
    exact set_ok s i hr hc
  | retrieveAsString i len =>
    obtain ⟨r, hr, _, hc⟩ := (s.buffer i).retrieveAsString_spec len h
    refine ⟨{ s.set i r with strings := s.strings ++ [(s.buffer i).contents.take len] }, ?_, ?_⟩
    · simp only [call, hr, ok_bind]
      rfl
    · have hq := queues_set s i r
      rw [hc] at hq
      exact congrArg (fun q => { q with strings := s.strings ++ [(s.buffer i).contents.take len] })
        hq
  | retrieveAll i =>
    refine ⟨s.set i (s.buffer i).retrieveAll, rfl, ?_⟩
    rw [queues_set, Buffer.contents_retrieveAll]
    rfl
  | unwrite i len =>
    obtain ⟨r, hr, hc, _⟩ := (s.buffer i).unwrite_spec len h
    exact set_ok s i hr hc
  | ensureWritableBytes i len =>
    obtain ⟨r, hr, hc⟩ := (s.buffer i).ensureWritableBytes_spec len
    refine ⟨s.set i r.val, ?_, ?_⟩
    · simp only [call, hr, ok_bind]
      rfl
    · exact queues_set_same s i hc
  | hasWritten i data =>
    obtain ⟨r, hr, hc, _⟩ := (s.buffer i).hasWritten_copyIn data h
    have hl : data.length ≤ (s.buffer i).writableBytes := h
    simp only [call, hl, dite_true]
    exact set_ok s i hr hc
  | shrink i reserve =>
    have hl : (s.buffer i).readableBytes < 2 ^ 31 := by
      have hw := (s.buffer i).writer_le
      have hlt := h.1
      unfold Buffer.readableBytes
      omega
    obtain ⟨r, hr, hc⟩ := (s.buffer i).shrink_spec reserve hl
    refine ⟨s.set i r, ?_, ?_⟩
    · simp only [call, hr, ok_bind]
      rfl
    · exact queues_set_same s i hc
  | swap i j =>
    refine ⟨(s.set i (s.buffer j)).set j (s.buffer i), rfl, ?_⟩
    rw [queues_set, queues_set]
    rfl
  | readFd i v =>
    cases v with
    | failed e =>
      refine ⟨{ s.set i (s.buffer i) with counts := s.counts ++ [-1] }, rfl, ?_⟩
      have hq := queues_set_same s i (b := s.buffer i) rfl
      exact congrArg (fun q => { q with counts := s.counts ++ [-1] }) hq
    | got data =>
      obtain ⟨r, hr, hc⟩ := (s.buffer i).readFd_got data
      refine ⟨{ s.set i r with counts := s.counts ++ [(data.length : Int)] }, ?_, ?_⟩
      · simp only [call, hr, ok_bind]
        rfl
      · have hq := queues_set s i r
        rw [hc] at hq
        exact congrArg (fun q => { q with counts := s.counts ++ [(data.length : Int)] }) hq

/-- A call that neither prepends to buffer `j` nor swaps it leaves its prepend area free. -/
theorem call_reserved {s t : Buffers} {a : BufferCall} {j : Nat} (ha : a.prepends j = false)
    (hs : (s.buffer j).Reserved) (h : s.call a = .ok t) : (t.buffer j).Reserved := by
  cases a with
  | append i data =>
    obtain ⟨r, hr, h⟩ := bind_eq_ok h
    cases h
    exact reserved_set hs fun hb => hb.append hr
  | prepend i data =>
    obtain ⟨r, hr, h⟩ := bind_eq_ok h
    cases h
    rw [buffer_set_ne s r (by intro hj; simp [BufferCall.prepends, hj] at ha)]
    exact hs
  | retrieve i len =>
    obtain ⟨r, hr, h⟩ := bind_eq_ok h
    cases h
    exact reserved_set hs fun hb => hb.retrieve hr
  | retrieveUntil i end_ =>
    obtain ⟨r, hr, h⟩ := bind_eq_ok h
    obtain ⟨_, _, hr⟩ := bind_eq_ok hr
    cases h
    exact reserved_set hs fun hb => hb.retrieve hr
  | retrieveAsString i len =>
    obtain ⟨p, hp, h⟩ := bind_eq_ok h
    obtain ⟨_, _, hp⟩ := bind_eq_ok hp
    obtain ⟨r, hr, hp⟩ := bind_eq_ok hp
    cases hp
    cases h
    exact reserved_set hs fun hb => hb.retrieve hr
  | retrieveAll i =>
    cases h
    exact reserved_set hs fun _ => Nat.le_refl _
  | unwrite i len =>
    obtain ⟨r, hr, h⟩ := bind_eq_ok h
    cases h
    refine reserved_set hs fun hb => ?_
    unfold Buffer.unwrite at hr
    split at hr
    · cases hr
      exact hb
    · cases hr
  | ensureWritableBytes i len =>
    obtain ⟨r, hr, h⟩ := bind_eq_ok h
    cases h
    exact reserved_set hs fun hb => hb.ensureWritableBytes hr
  | hasWritten i data =>
    simp only [call] at h
    split at h
    next hl =>
      obtain ⟨u, hu, _, hi⟩ := (s.buffer i).hasWritten_copyIn data hl
      rw [hu] at h
      cases h
      refine reserved_set hs fun hb => ?_
      unfold Buffer.Reserved Buffer.prependableBytes at hb ⊢
      omega
    · cases h
  | shrink i reserve =>
    obtain ⟨r, hr, h⟩ := bind_eq_ok h
    cases h
    exact reserved_set hs fun _ => Buffer.Reserved.shrink hr
  | swap i k =>
    cases h
    simp only [BufferCall.prepends, Bool.or_eq_false_iff, beq_eq_false_iff_ne] at ha
    rw [buffer_set_ne _ _ (Ne.symm ha.2), buffer_set_ne _ _ (Ne.symm ha.1)]
    exact hs
  | readFd i v =>
    obtain ⟨p, hp, h⟩ := bind_eq_ok h
    cases h
    exact reserved_set hs fun hb => hb.readFd hp

theorem run_queues {size : Nat → Nat} {s : Buffers} {calls : List BufferCall}
    {x : Except Assertion Buffers} (h : (machine size).run s calls = some x) :
    ∃ t, x = .ok t ∧ t.queues = calls.foldl Queues.call s.queues ∧
      ∀ i, (∀ a ∈ calls, a.prepends i = false) → (s.buffer i).Reserved →
        (t.buffer i).Reserved := by
  induction calls generalizing s with
  | nil =>
    cases h
    exact ⟨s, rfl, rfl, fun _ _ hs => hs⟩
  | cons a calls ih =>
    by_cases hl : s.Legal a
    · obtain ⟨u, hu, hq⟩ := s.call_queues a hl
      have hstep : (machine size).step s a = some (.ok u) := by
        rw [← hu]
        exact if_pos hl
      simp only [Machine.run, hstep] at h
      obtain ⟨t, hx, ht, hres⟩ := ih h
      refine ⟨t, hx, ?_, ?_⟩
      · rw [ht, hq, List.foldl_cons]
      · intro i ha hs
        have hu' := call_reserved (ha a List.mem_cons_self) hs hu
        exact hres i (fun b hb => ha b (List.mem_cons_of_mem _ hb)) hu'
    · have hstep : (machine size).step s a = none := if_neg hl
      simp only [Machine.run, hstep] at h
      cases h

/-- Any sequence of legal calls on buffers of any initial sizes trips no assertion, makes
of the readable bytes and of the returned values what the same calls make of byte queues,
and keeps the indices ordered inside a storage with room for the prepend area, which is
free as long as nothing was prepended or swapped in. -/
theorem queue_refinement (size : Nat → Nat) (calls : List BufferCall)
    (x : Except Assertion Buffers)
    (h : (machine size).run (machine size).init calls = some x) :
    ∃ s, x = .ok s ∧ s.queues = calls.foldl Queues.call Queues.new ∧
      (∀ i, (s.buffer i).readerIndex ≤ (s.buffer i).writerIndex ∧
        (s.buffer i).writerIndex ≤ (s.buffer i).buffer.length ∧
        kCheapPrepend ≤ (s.buffer i).buffer.length) ∧
      ∀ i, (∀ a ∈ calls, a.prepends i = false) →
        kCheapPrepend ≤ (s.buffer i).prependableBytes := by
  obtain ⟨s, hx, hq, hres⟩ := run_queues h
  have hnew : (machine size).init.queues = Queues.new := by
    simp only [machine, queues, Queues.new, Buffer.contents_new]
  refine ⟨s, hx, ?_, ?_, ?_⟩
  · rw [hq, hnew]
  · intro i
    exact ⟨(s.buffer i).reader_le, (s.buffer i).writer_le, (s.buffer i).prepend_le⟩
  · intro i ha
    exact hres i ha (Buffer.Reserved.new _)

/- A buffer that is filled, taken from, moved down by `makeSpace`, and grown by `readFd`. -/
def sampleCalls : List BufferCall :=
  [.append 0 [1, 2, 3, 4], .retrieve 0 3, .append 0 [5, 6], .prepend 0 [7], .swap 0 1,
    .readFd 1 (.got [8, 9]), .readFd 1 (.failed 11), .unwrite 1 1, .retrieveAsString 1 2,
    .ensureWritableBytes 1 40, .hasWritten 1 [1], .shrink 1 0]

theorem queue_refinement_sample :
    ∃ s, (machine fun _ => 4).run (machine fun _ => 4).init sampleCalls = some (.ok s) ∧
      s.queues = sampleCalls.foldl Queues.call Queues.new ∧
      (s.buffer 1).contents = [5, 6, 8, 1] := by
  obtain ⟨s, hs, hc⟩ : ∃ s, (machine fun _ => 4).run (machine fun _ => 4).init sampleCalls =
      some (.ok s) ∧ decide ((s.buffer 1).contents = [5, 6, 8, 1]) = true :=
    Machine.exists_of_runsTo (by decide +kernel)
  obtain ⟨t, ht, hq, _⟩ := queue_refinement _ _ _ hs
  cases ht
  exact ⟨s, hs, hq, of_decide_eq_true hc⟩

end Buffers

end TstMuduo.Net
