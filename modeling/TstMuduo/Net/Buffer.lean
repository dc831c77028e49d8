import TstMuduo.Net.Basic

/-!
# The byte buffer (muduo/net/Buffer.h)

`buffer_` is the storage, `[readerIndex_, writerIndex_)` its readable part. The
indices stay ordered and inside the storage by construction, and the storage
never gets smaller than the cheap prepend area.
-/

namespace TstMuduo.Net
open TstMuduo.Lib

def kCheapPrepend : Nat := 8
def kInitialSize : Nat := 1024

structure Buffer where
  buffer : Bytes
  readerIndex : Nat
  writerIndex : Nat
  reader_le : readerIndex ≤ writerIndex
  writer_le : writerIndex ≤ buffer.length
  prepend_le : kCheapPrepend ≤ buffer.length

namespace Buffer

/- `Buffer(initialSize)` (`Buffer.h:71`). -/
def new (initialSize : Nat) : Buffer where
  buffer := List.replicate (kCheapPrepend + initialSize) 0
  readerIndex := kCheapPrepend
  writerIndex := kCheapPrepend
  reader_le := Nat.le_refl _
  writer_le := by simp
  prepend_le := by simp

def readableBytes (b : Buffer) : Nat := b.writerIndex - b.readerIndex
def writableBytes (b : Buffer) : Nat := b.buffer.length - b.writerIndex
def prependableBytes (b : Buffer) : Nat := b.readerIndex

/- The readable bytes: what `peek()` points at, `readableBytes()` long. -/
def contents (b : Buffer) : Bytes := (b.buffer.take b.writerIndex).drop b.readerIndex

theorem length_contents (b : Buffer) : b.contents.length = b.readableBytes := by
  have hw := b.writer_le
  simp only [contents, readableBytes, List.length_drop, List.length_take]
  omega

theorem contents_eq_nil (b : Buffer) : b.contents = [] ↔ b.readableBytes = 0 := by
  rw [← length_contents, List.length_eq_zero_iff]

/-! ### Taking bytes out -/

/- `retrieveAll` (`Buffer.h:183`). -/
def retrieveAll (b : Buffer) : Buffer where
  buffer := b.buffer
  readerIndex := kCheapPrepend
  writerIndex := kCheapPrepend
  reader_le := Nat.le_refl _
  writer_le := b.prepend_le
  prepend_le := b.prepend_le

theorem contents_retrieveAll (b : Buffer) : b.retrieveAll.contents = [] := by
  rw [contents_eq_nil]
  exact Nat.sub_self _

/- `retrieve` (`Buffer.h:138`). -/
def retrieve (b : Buffer) (len : Nat) : Except Assertion Buffer := do
  check (len ≤ b.readableBytes) .bufferRetrieve
  if h : len < b.readableBytes then
    return { b with
      readerIndex := b.readerIndex + len
      reader_le := by unfold readableBytes at h; omega }
  else return b.retrieveAll

theorem retrieve_spec (b : Buffer) (len : Nat) (h : len ≤ b.readableBytes) :
    ∃ r, b.retrieve len = .ok r ∧ r.contents = b.contents.drop len := by
  by_cases hl : len < b.readableBytes
  · refine ⟨{ b with
      readerIndex := b.readerIndex + len
      reader_le := by unfold readableBytes at hl; omega }, ?_, ?_⟩
    · simp only [retrieve, check_ok h, hl, dite_true]
      rfl
    · simp only [contents, List.drop_drop]
  · refine ⟨b.retrieveAll, ?_, ?_⟩
    · simp only [retrieve, check_ok h, hl, dite_false]
      rfl
    · have hlen := length_contents b
      rw [contents_retrieveAll, List.drop_eq_nil_of_le (by omega)]

/-! ### Making room and appending -/

/- `std::copy` of `data` into the storage from offset `i` on. -/
def copyAt (buf : Bytes) (i : Nat) (data : Bytes) : Bytes :=
  buf.take i ++ data ++ buf.drop (i + data.length)

theorem length_copyAt (buf : Bytes) (i : Nat) (data : Bytes) (h : i + data.length ≤ buf.length) :
    (copyAt buf i data).length = buf.length := by
  simp only [copyAt, List.length_append, List.length_take, List.length_drop]
  omega

theorem take_copyAt (buf : Bytes) (i : Nat) (data : Bytes) (h : i ≤ buf.length) :
    (copyAt buf i data).take (i + data.length) = buf.take i ++ data := by
  have hl : (buf.take i ++ data).length = i + data.length := by
    simp only [List.length_append, List.length_take]
    omega
  rw [copyAt, List.take_append_of_le_length (by omega), List.take_of_length_le (by omega)]

/- `vector::resize`: cut, or fill up with zero bytes. -/
def resize (buf : Bytes) (n : Nat) : Bytes :=
  buf.take n ++ List.replicate (n - buf.length) 0

theorem length_resize (buf : Bytes) (n : Nat) : (resize buf n).length = n := by
  simp only [resize, List.length_append, List.length_take, List.length_replicate]
  omega

theorem take_resize (buf : Bytes) (n i : Nat) (hi : i ≤ buf.length) (hn : buf.length ≤ n) :
    (resize buf n).take i = buf.take i := by
  rw [resize, List.take_of_length_le hn, List.take_append_of_le_length hi]

theorem moved_le (b : Buffer) (hr : kCheapPrepend < b.readerIndex) :
    kCheapPrepend + b.contents.length ≤ b.buffer.length := by
  have h1 := b.writer_le
  have h2 := b.reader_le
  rw [length_contents]
  unfold readableBytes
  omega

/- `makeSpace` (`Buffer.h:434`), called only where the writable part is too
small: grow the storage, or slide the readable bytes down to the prepend area. -/
def makeSpace (b : Buffer) (len : Nat) (small : b.writableBytes < len) :
    Except Assertion Buffer :=
  if b.writableBytes + b.prependableBytes < len + kCheapPrepend then
    .ok { b with
      buffer := resize b.buffer (b.writerIndex + len)
      writer_le := by rw [length_resize]; omega
      prepend_le := by
        have hp := b.prepend_le
        unfold writableBytes at small
        rw [length_resize]
        omega }
  else
    if hr : kCheapPrepend < b.readerIndex then
      .ok {
        buffer := copyAt b.buffer kCheapPrepend b.contents
        readerIndex := kCheapPrepend
        writerIndex := kCheapPrepend + b.readableBytes
        reader_le := Nat.le_add_right _ _
        writer_le := by
          have hm := moved_le b hr
          rw [length_copyAt _ _ _ hm, ← length_contents]
          exact hm
        prepend_le := by
          rw [length_copyAt _ _ _ (moved_le b hr)]
          exact b.prepend_le }
    else .error .bufferMakeSpace

theorem makeSpace_spec (b : Buffer) (len : Nat) (small : b.writableBytes < len) :
    ∃ r, b.makeSpace len small = .ok r ∧ r.contents = b.contents ∧ len ≤ r.writableBytes := by
  have hw := b.writer_le
  by_cases hg : b.writableBytes + b.prependableBytes < len + kCheapPrepend
  · refine ⟨_, by rw [makeSpace, if_pos hg], ?_, ?_⟩
    · simp only [contents]
      rw [take_resize _ _ _ hw (by unfold writableBytes at small; omega)]
    · simp only [writableBytes, length_resize]
      omega
  · -- the prepend area is then larger than the cheap one, so the assert holds
    have hr : kCheapPrepend < b.readerIndex := by
      unfold prependableBytes at hg
      omega
    have hm := moved_le b hr
    have hl := length_contents b
    refine ⟨_, by rw [makeSpace, if_neg hg, dif_pos hr], ?_, ?_⟩
    · simp only [contents]
      rw [← hl, show (b.buffer.take b.writerIndex).drop b.readerIndex = b.contents from rfl,
        take_copyAt _ _ _ b.prepend_le, List.drop_append_of_le_length (by
          rw [List.length_take]; have := b.prepend_le; omega),
        List.drop_eq_nil_of_le (by rw [List.length_take]; omega), List.nil_append]
    · simp only [writableBytes, length_copyAt _ _ _ hm, prependableBytes] at hg ⊢
      have h2 := b.reader_le
      unfold readableBytes
      omega

/- `ensureWritableBytes` (`Buffer.h:232`); its closing assert is the bound that
the result carries. -/
def ensureWritableBytes (b : Buffer) (len : Nat) :
    Except Assertion { r : Buffer // len ≤ r.writableBytes } := do
  let r ← if small : b.writableBytes < len then b.makeSpace len small else .ok b
  if h : len ≤ r.writableBytes then return ⟨r, h⟩ else .error .bufferEnsureWritable

theorem ensureWritableBytes_spec (b : Buffer) (len : Nat) :
    ∃ r, b.ensureWritableBytes len = .ok r ∧ r.val.contents = b.contents := by
  by_cases hs : b.writableBytes < len
  · obtain ⟨r, hr, hc, hl⟩ := makeSpace_spec b len hs
    refine ⟨⟨r, hl⟩, ?_, hc⟩
    simp only [ensureWritableBytes, hs, dite_true, hr]
    exact dif_pos hl
  · refine ⟨⟨b, by omega⟩, ?_, rfl⟩
    simp only [ensureWritableBytes, hs, dite_false]
    exact dif_pos (by omega)

/- `hasWritten` (`Buffer.h:248`). -/
def hasWritten (b : Buffer) (len : Nat) : Except Assertion Buffer :=
  if h : len ≤ b.writableBytes then
    .ok { b with
      writerIndex := b.writerIndex + len
      reader_le := Nat.le_trans b.reader_le (Nat.le_add_right _ _)
      writer_le := by have hw := b.writer_le; unfold writableBytes at h; omega }
  else .error .bufferHasWritten

/- The `std::copy` of `append` to `beginWrite()`. -/
def copyIn (b : Buffer) (data : Bytes) (h : data.length ≤ b.writableBytes) : Buffer :=
  have hl : (copyAt b.buffer b.writerIndex data).length = b.buffer.length :=
    length_copyAt _ _ _ (by have hw := b.writer_le; unfold writableBytes at h; omega)
  { b with
    buffer := copyAt b.buffer b.writerIndex data
    writer_le := by rw [hl]; exact b.writer_le
    prepend_le := by rw [hl]; exact b.prepend_le }

/- `append` (`Buffer.h:217`). -/
def append (b : Buffer) (data : Bytes) : Except Assertion Buffer := do
  let r ← b.ensureWritableBytes data.length
  (copyIn r.val data r.property).hasWritten data.length

theorem append_spec (b : Buffer) (data : Bytes) :
    ∃ r, b.append data = .ok r ∧ r.contents = b.contents ++ data := by
  obtain ⟨⟨r, hr⟩, he, hc⟩ := ensureWritableBytes_spec b data.length
  have hw : data.length ≤ (copyIn r data hr).writableBytes := by
    have h1 := r.writer_le
    simp only [writableBytes, copyIn] at hr ⊢
    rw [length_copyAt _ _ _ (by omega)]
    exact hr
  refine ⟨_, by simp only [append, he]; exact dif_pos hw, ?_⟩
  have h1 := r.writer_le
  have h2 := r.reader_le
  have hd : b.contents ++ data = r.contents ++ data := congrArg (· ++ data) hc.symm
  rw [hd]
  simp only [contents, copyIn]
  rw [take_copyAt _ _ _ h1, List.drop_append_of_le_length (by rw [List.length_take]; omega)]

end Buffer
end TstMuduo.Net
