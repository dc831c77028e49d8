import TstMuduo.Base.IntegerText

/-!
# The stream's buffer in memory (muduo/base/LogStream.h, LogStream.cc)

Numbers are written into the buffer itself, from `cur_` on, without another look at where it
ends; before that the operators ask for 32 bytes. No operator leaves the array, and all of them do
to the buffer what they do to the list of its bytes.
-/

namespace TstMuduo.Base
open TstMuduo.Lib

/-- A number as its own type has it. -/
def IntValue.value (v : IntValue) : v.type.Value := ⟨v.val, v.min_le, v.le_max⟩

/- `reinterpret_cast<uintptr_t>(p)` (`LogStream.cc:166`). -/
def pointerValue (p : UInt64) : IntType.unsignedLong.Value :=
  ⟨p.toNat, Int.natCast_nonneg _, Int.le_sub_one_of_lt (Int.ofNat_lt.mpr p.toNat_lt)⟩

/- `memcpy(p, bs, len)`. -/
def CharArray.copy (a : CharArray) (p : Int) (bs : Bytes) : Except FormatFault CharArray :=
  if 0 ≤ p ∧ p + bs.length ≤ a.size then .ok (a.put p bs) else .error (.outside p)

/-- A `FixedBuffer<kSmallBuffer>`: what the memory holds from `data_` on, and `cur_` as an
offset in it. -/
structure StreamBuffer where
  data_ : Int → UInt8
  cur_ : Nat
  cur_le : cur_ ≤ kSmallBuffer

namespace StreamBuffer

/-! ### The operators -/

def array (b : StreamBuffer) : CharArray := ⟨kSmallBuffer, b.data_⟩

/- `avail` (`LogStream.h:52`). -/
def avail (b : StreamBuffer) : Int := castInt32 (kSmallBuffer - b.cur_)

/- `add` (`LogStream.h:53`), with what was stored before. -/
def add (b : StreamBuffer) (a : CharArray) (len : Nat) : Except FormatFault StreamBuffer :=
  if h : b.cur_ + len ≤ kSmallBuffer then .ok ⟨a.mem, b.cur_ + len, h⟩
  else .error (.outside (b.cur_ + len : Nat))

/- `append` (`LogStream.h:37`); `avail()` as a `size_t`. -/
def append (b : StreamBuffer) (buf : Bytes) : Except FormatFault StreamBuffer :=
  if b.avail % 2 ^ 64 > buf.length then do
    let a ← b.array.copy b.cur_ buf
    b.add a buf.length
  else
    .ok b

/- `formatInteger` (`LogStream.cc:107`). -/
def formatInteger (b : StreamBuffer) (v : IntValue) : Except FormatFault StreamBuffer :=
  if b.avail ≥ kMaxNumericSize then do
    let (a, len) ← b.array.convert b.cur_ v.value
    b.add a len.toNat
  else
    .ok b

/- `operator<<(const void*)` (`LogStream.cc:164`). -/
def formatPointer (b : StreamBuffer) (p : UInt64) : Except FormatFault StreamBuffer :=
  if b.avail ≥ kMaxNumericSize then do
    let a ← b.array.set b.cur_ '0'.toUInt8
    let a ← a.set (b.cur_ + 1) 'x'.toUInt8
    let (a, len) ← a.convertHex (b.cur_ + 2) (pointerValue p)
    b.add a (len.toNat + 2)
  else
    .ok b

/- `operator<<(double)` (`LogStream.cc:179`): `snprintf` stores the text and a NUL. -/
def formatDouble (b : StreamBuffer) (text : List Char) : Except FormatFault StreamBuffer :=
  if b.avail ≥ kMaxNumericSize then do
    let a ← b.array.copy b.cur_ (bytes text ++ [0])
    b.add a text.length
  else
    .ok b

/- `LogStream::operator<<` (`LogStream.h:84`, `LogStream.cc:116`). -/
def write (b : StreamBuffer) : LogItem → Except FormatFault StreamBuffer
  | .bool v => b.append (bytes (if v then ['1'] else ['0']))
  | .integer v => b.formatInteger v
  | .pointer p => b.formatPointer p
  | .double text _ => b.formatDouble text
  | .char v => b.append [v]
  | .cstr (some str) => b.append str
  | .cstr none => b.append (bytes ['(', 'n', 'u', 'l', 'l', ')'])
  | .string v => b.append v

end StreamBuffer

/-- What an item stores: a number has a NUL behind it. -/
def LogItem.stored : LogItem → Bytes
  | item@(.integer _) | item@(.pointer _) | item@(.double _ _) => item.text ++ [0]
  | item => item.text

theorem LogItem.stored_eq (item : LogItem) : ∃ nul, item.stored = item.text ++ nul := by
  cases item with
  | integer v | pointer p | double text h => exact ⟨[0], rfl⟩
  | cstr str => cases str <;> exact ⟨[], (List.append_nil _).symm⟩
  | bool v | char v | string v => exact ⟨[], (List.append_nil _).symm⟩

namespace StreamBuffer

variable {b : StreamBuffer}

/-- The buffer after an item. -/
def after (b : StreamBuffer) (item : LogItem) : StreamBuffer :=
  if h : b.cur_ + item.room ≤ kSmallBuffer then
    ⟨store b.data_ b.cur_ item.stored, b.cur_ + item.text.length, by
      have := item.length_text_lt
      omega⟩
  else b

@[simp] theorem size_array (b : StreamBuffer) : b.array.size = kSmallBuffer := rfl

theorem avail_eq (b : StreamBuffer) : b.avail = kSmallBuffer - b.cur_ := by
  have := b.cur_le
  rw [kSmallBuffer] at this
  exact castInt32_ok ⟨by rw [kSmallBuffer]; omega, by rw [kSmallBuffer]; omega⟩

theorem avail_ge_iff (b : StreamBuffer) :
    b.avail ≥ kMaxNumericSize ↔ b.cur_ + kMaxNumericSize ≤ kSmallBuffer := by
  rw [avail_eq]
  omega

theorem avail_gt_iff (b : StreamBuffer) (len : Nat) :
    b.avail % 2 ^ 64 > len ↔ b.cur_ + (len + 1) ≤ kSmallBuffer := by
  have hle := b.cur_le
  have havail : b.avail % 2 ^ 64 = kSmallBuffer - b.cur_ := by
    rw [avail_eq, kSmallBuffer] at *
    omega
  rw [havail]
  omega

theorem add_stored {item : LogItem} (h : b.cur_ + item.room ≤ kSmallBuffer) :
    b.add (b.array.put b.cur_ item.stored) item.text.length = .ok (b.after item) := by
  have hlt := item.length_text_lt
  rw [add, dif_pos (by omega), after, dif_pos h]
  rfl

theorem append_stored (item : LogItem) (hroom : item.room = item.text.length + 1)
    (hstored : item.stored = item.text) : b.append item.text = .ok (b.after item) := by
  rw [append]
  by_cases hfits : b.cur_ + item.room ≤ kSmallBuffer
  · have hcopy : b.array.copy b.cur_ item.text = .ok (b.array.put b.cur_ item.stored) := by
      rw [hstored]
      exact if_pos ⟨Int.natCast_nonneg _, by rw [size_array]; omega⟩
    rw [if_pos ((avail_gt_iff _ _).mpr (hroom ▸ hfits)), hcopy]
    exact add_stored hfits
  · rw [if_neg (mt (avail_gt_iff _ _).mp (hroom ▸ hfits)), after, dif_neg hfits]

theorem formatInteger_eq (b : StreamBuffer) (v : IntValue) :
    b.formatInteger v = .ok (b.after (.integer v)) := by
  rw [formatInteger]
  by_cases hfits : b.cur_ + (LogItem.integer v).room ≤ kSmallBuffer
  · have hlen : (convert v.value.val).length ≤ 20 := length_convert v
    have hroom : b.cur_ + 32 ≤ kSmallBuffer := hfits
    have hconvert := (CharArray.convert_spec v.value).2 b.array b.cur_ (Int.natCast_nonneg _)
      (by rw [size_array]; omega)
    rw [if_pos (b.avail_ge_iff.mpr hfits), hconvert, ok_bind]
    have hadd := add_stored hfits
    rw [LogItem.text, length_bytes] at hadd
    exact hadd
  · rw [if_neg (mt b.avail_ge_iff.mp hfits), after, dif_neg hfits]

theorem formatPointer_eq (b : StreamBuffer) (p : UInt64) :
    b.formatPointer p = .ok (b.after (.pointer p)) := by
  rw [formatPointer]
  by_cases hfits : b.cur_ + (LogItem.pointer p).room ≤ kSmallBuffer
  · have hlen : (convertHex p.toNat).length ≤ 16 := length_convertHex (by decide) p.toNat_lt
    have hroom : b.cur_ + 32 ≤ kSmallBuffer := hfits
    have hzero : b.array.set b.cur_ '0'.toUInt8 = .ok (b.array.put b.cur_ (bytes ['0'])) :=
      CharArray.set_ok (by omega) (by rw [size_array]; omega)
    have hx : (b.array.put b.cur_ (bytes ['0'])).set (b.cur_ + 1) 'x'.toUInt8 =
        .ok (b.array.put b.cur_ (bytes ['0', 'x'])) := by
      rw [CharArray.set_ok (by omega) (by rw [CharArray.size_put, size_array]; omega)]
      exact congrArg _ (CharArray.put_put b.array b.cur_ (bytes ['0']) (bytes ['x']))
    have hhex := (CharArray.convertHex_spec (pointerValue p)).2
      (b.array.put b.cur_ (bytes ['0', 'x'])) (b.cur_ + 2) (by omega)
      (by rw [CharArray.size_put, size_array, pointerValue]; simp only [Int.toNat_natCast]; omega)
    have hput : (b.array.put b.cur_ (bytes ['0', 'x'])).put (b.cur_ + 2)
        (bytes (convertHex p.toNat) ++ [0]) = b.array.put b.cur_ (LogItem.pointer p).stored :=
      CharArray.put_put b.array b.cur_ (bytes ['0', 'x']) (bytes (convertHex p.toNat) ++ [0])
    have hlength : (LogItem.pointer p).text.length = (convertHex p.toNat).length + 2 :=
      length_bytes _
    have hadd := add_stored hfits
    rw [hlength, ← hput] at hadd
    rw [if_pos (b.avail_ge_iff.mpr hfits), hzero, ok_bind, hx, ok_bind, hhex, ok_bind]
    exact hadd
  · rw [if_neg (mt b.avail_ge_iff.mp hfits), after, dif_neg hfits]

theorem formatDouble_eq (b : StreamBuffer) {text : List Char}
    (short : text.length < kMaxNumericSize) :
    b.formatDouble text = .ok (b.after (.double text short)) := by
  rw [formatDouble]
  by_cases hfits : b.cur_ + (LogItem.double text short).room ≤ kSmallBuffer
  · have hroom : b.cur_ + kMaxNumericSize ≤ kSmallBuffer := hfits
    have hcopy : b.array.copy b.cur_ (bytes text ++ [0]) =
        .ok (b.array.put b.cur_ (bytes text ++ [0])) := by
      apply if_pos
      rw [List.length_append, length_bytes, List.length_singleton, size_array]
      omega
    rw [if_pos (b.avail_ge_iff.mpr hfits), hcopy, ok_bind]
    have hadd := add_stored hfits
    rw [LogItem.text, length_bytes] at hadd
    exact hadd
  · rw [if_neg (mt b.avail_ge_iff.mp hfits), after, dif_neg hfits]

theorem write_eq (b : StreamBuffer) (item : LogItem) : b.write item = .ok (b.after item) := by
  cases item with
  | integer v => exact b.formatInteger_eq v
  | pointer p => exact b.formatPointer_eq p
  | double text short => exact b.formatDouble_eq short
  | cstr str =>
    cases str with
    | none => exact append_stored (.cstr none) rfl rfl
    | some str => exact append_stored (.cstr (some str)) rfl rfl
  | bool v => exact append_stored (.bool v) rfl rfl
  | char v => exact append_stored (.char v) rfl rfl
  | string v => exact append_stored (.string v) rfl rfl

/-! ### The bytes of the buffer -/

/-- The bytes between `data_` and `cur_`. -/
def fixed (id : Nat) (b : StreamBuffer) : FixedBuffer := ⟨id, slice b.data_ 0 b.cur_⟩

theorem length_fixed (id : Nat) (b : StreamBuffer) : (b.fixed id).length = b.cur_ :=
  length_slice _ _ _

theorem fixed_after (id : Nat) (b : StreamBuffer) (item : LogItem) :
    (b.after item).fixed id = item.put (b.fixed id) := by
  obtain ⟨nul, hnul⟩ := item.stored_eq
  rw [item.put_eq, length_fixed, after]
  split_ifs with hfits
  · have hfront : slice (store b.data_ b.cur_ item.stored) 0 b.cur_ = slice b.data_ 0 b.cur_ :=
      slice_store_disjoint (.inl (Int.zero_add _).le)
    have hback : slice (store b.data_ b.cur_ item.stored) (0 + b.cur_) item.text.length =
        item.text := by
      rw [hnul, Int.zero_add]
      exact slice_store_append _ _ _ _
    simp only [fixed, slice_add, hfront, hback]
  · rfl

theorem writes_refine (id : Nat) (items : List LogItem) (b : StreamBuffer) :
    ∃ c, items.foldlM write b = .ok c ∧ c.fixed id = items.foldl LogItem.put (b.fixed id) := by
  induction items generalizing b with
  | nil => exact ⟨b, rfl, rfl⟩
  | cons item items ih =>
    obtain ⟨c, hwrites, hfixed⟩ := ih (b.after item)
    refine ⟨c, ?_, ?_⟩
    · rw [List.foldlM_cons, b.write_eq item, ok_bind, hwrites]
    · rw [hfixed, fixed_after, List.foldl_cons]

/-! ### Integers and pointers -/

/-- Where 32 bytes are free a text is stored at `cur_`, with a NUL, and `cur_` stands behind it
then; elsewhere nothing is written. -/
def Wrote (b : StreamBuffer) (text : List Char) (c : StreamBuffer) : Prop :=
  if b.avail ≥ kMaxNumericSize then
    c.data_ = store b.data_ b.cur_ (bytes text ++ [0]) ∧ c.cur_ = b.cur_ + text.length
  else c = b

theorem wrote_after {item : LogItem} {text : List Char} (hroom : item.room = kMaxNumericSize)
    (htext : item.text = bytes text) (hstored : item.stored = bytes text ++ [0]) :
    b.Wrote text (b.after item) := by
  have hiff : b.avail ≥ kMaxNumericSize ↔ b.cur_ + item.room ≤ kSmallBuffer := by
    rw [hroom]
    exact b.avail_ge_iff
  have hlen : item.text.length = text.length := by rw [htext, length_bytes]
  rw [Wrote, after]
  by_cases hfits : b.cur_ + item.room ≤ kSmallBuffer
  · rw [if_pos (hiff.mpr hfits), dif_pos hfits]
    exact ⟨congrArg (store b.data_ b.cur_) hstored, congrArg (b.cur_ + ·) hlen⟩
  · rw [if_neg (mt hiff.mp hfits), dif_neg hfits]

end StreamBuffer

/-- For every number there is one text, which `convert` or `convertHex` stores with a NUL, and
nothing else, in any array where these bytes have room; its length is the result. With `0x` in
front of a pointer they are at most 32. -/
theorem integer_formatting :
    (∀ v : IntValue, ∃ text, (∀ t, IsDecimal v.val t ↔ t = text) ∧
      text.length + 1 ≤ kMaxNumericSize ∧
      (∀ (a : CharArray) (buf : Int), 0 ≤ buf → buf + (text.length + 1) ≤ a.size →
        a.convert buf v.value = .ok (a.put buf (bytes text ++ [0]), text.length)) ∧
      ∀ b : StreamBuffer, ∃ c, b.write (.integer v) = .ok c ∧ b.Wrote text c) ∧
    ∀ p : UInt64, ∃ text, (∀ t, IsUpperHex p.toNat t ↔ t = text) ∧
      2 + text.length + 1 ≤ kMaxNumericSize ∧
      (∀ (a : CharArray) (buf : Int), 0 ≤ buf → buf + (text.length + 1) ≤ a.size →
        a.convertHex buf (pointerValue p) = .ok (a.put buf (bytes text ++ [0]), text.length)) ∧
      ∀ b : StreamBuffer, ∃ c, b.write (.pointer p) = .ok c ∧ b.Wrote ('0' :: 'x' :: text) c := by
  refine ⟨?_, ?_⟩
  · intro v
    obtain ⟨htext, hconvert⟩ := CharArray.convert_spec v.value
    refine ⟨convert v.val, ?_, ?_, hconvert, ?_⟩
    · exact fun t => ⟨IsDecimal.eq_convert, fun h => h ▸ htext⟩
    · have := length_convert v
      rw [kMaxNumericSize]
      omega
    · exact fun b => ⟨_, b.write_eq _, StreamBuffer.wrote_after rfl rfl rfl⟩
  · intro p
    obtain ⟨htext, hconvert⟩ := CharArray.convertHex_spec (pointerValue p)
    refine ⟨convertHex p.toNat, ?_, ?_, hconvert, ?_⟩
    · exact fun t => ⟨IsUpperHex.eq_convertHex, fun h => h ▸ htext⟩
    · have : (convertHex p.toNat).length ≤ 16 := length_convertHex (by decide) p.toNat_lt
      rw [kMaxNumericSize]
      omega
    · exact fun b => ⟨_, b.write_eq _, StreamBuffer.wrote_after rfl rfl rfl⟩

/- The least number of type `long long`, in an array that ends right behind its text. -/
def longLongMin : IntValue := ⟨.longLong, -9223372036854775808, by decide, by decide⟩
def exactArray : CharArray := ⟨21, fun _ => 1⟩
def minText : List Char := ['-', '9', '2', '2', '3', '3', '7', '2', '0', '3', '6', '8', '5', '4',
  '7', '7', '5', '8', '0', '8']

theorem integer_formatting_min : exactArray.convert 0 longLongMin.value =
    .ok (exactArray.put 0 (bytes minText ++ [0]), 20) := by
  obtain ⟨text, htext, -, hconvert, -⟩ := integer_formatting.1 longLongMin
  have hmin : IsDecimal longLongMin.val minText :=
    ⟨[9, 2, 2, 3, 3, 7, 2, 0, 3, 6, 8, 5, 4, 7, 7, 5, 8, 0, 8],
      ⟨by decide, by decide, by decide, by decide⟩, by decide⟩
  obtain rfl := (htext minText).mp hmin
  exact hconvert exactArray 0 (by decide) (by decide)

end TstMuduo.Base
