import Mathlib.Algebra.Order.Ring.Int
import TstMuduo.Base.AsyncLogging

/-!
# The log stream (muduo/base/LogStream.h, LogStream.cc)

A stream holds a buffer of 4000 bytes. A piece of text that does not fit is left out, and a number
is written only while 32 bytes are free, whatever it needs.
-/

namespace TstMuduo.Base

def kSmallBuffer : Nat := 4000
def kMaxNumericSize : Nat := 32

/-- The bytes of a text. -/
def bytes (s : List Char) : Bytes := s.map Char.toUInt8

@[simp] theorem length_bytes (s : List Char) : (bytes s).length = s.length := List.length_map _

theorem bytes_append (s t : List Char) : bytes (s ++ t) = bytes s ++ bytes t :=
  List.map_append

/-! ### Numbers -/

/- `digits` and `zero` (`LogStream.cc:26`). -/
def digits : List Char := ['9', '8', '7', '6', '5', '4', '3', '2', '1', '0', '1', '2', '3', '4',
  '5', '6', '7', '8', '9']

/- `zero[lsd]`. -/
def zero (lsd : Int) : Char := (digits[(9 + lsd).toNat]?).getD '\x00'

/- `digitsHex` (`LogStream.cc:30`). -/
def digitsHex : List Char := ['0', '1', '2', '3', '4', '5', '6', '7', '8', '9', 'A', 'B', 'C',
  'D', 'E', 'F']

/- The loop of `convert` (`LogStream.cc:40`): the digits from the last one on. The remainder has
the sign of the number, as in C. -/
def convertDigits (i : Int) : List Char :=
  zero (i.tmod 10) :: if i.tdiv 10 ≠ 0 then convertDigits (i.tdiv 10) else []
termination_by i.natAbs
decreasing_by
  rename_i h
  rw [Int.natAbs_tdiv]
  have : i.natAbs ≠ 0 := by
    rintro h0
    rw [Int.natAbs_eq_zero.mp h0] at h
    exact h rfl
  exact Nat.div_lt_self (by omega) (by decide)

/- `convert` (`LogStream.cc:35`): the text between `buf` and the NUL. -/
def convert (value : Int) : List Char :=
  (convertDigits value ++ if value < 0 then ['-'] else []).reverse

/- The loop of `convertHex` (`LogStream.cc:61`). -/
def convertHexDigits (i : Nat) : List Char :=
  (digitsHex[i % 16]?).getD '\x00' :: if i / 16 ≠ 0 then convertHexDigits (i / 16) else []
termination_by i
decreasing_by
  rename_i h
  exact Nat.div_lt_self (by
    rcases Nat.eq_zero_or_pos i with h0 | h0
    · rw [h0] at h
      exact absurd rfl h
    · exact h0) (by decide)

/- `convertHex` (`LogStream.cc:57`). -/
def convertHex (value : Nat) : List Char := (convertHexDigits value).reverse

theorem zero_eq (lsd : Int) (h : lsd.natAbs < 10) : zero lsd = Nat.digitChar lsd.natAbs := by
  obtain ⟨k, hk⟩ : ∃ k : Nat, lsd = (k : Int) - 9 ∧ k ≤ 18 := ⟨(lsd + 9).toNat, by omega⟩
  obtain ⟨rfl, hk⟩ := hk
  have htable : ∀ k : Nat, k ≤ 18 →
      zero ((k : Int) - 9) = Nat.digitChar ((k : Int) - 9).natAbs := by decide
  exact htable k hk

theorem tdiv_ten_eq_zero (i : Int) : i.tdiv 10 = 0 ↔ i.natAbs < 10 := by
  have h : (i.tdiv 10).natAbs = i.natAbs / 10 := Int.natAbs_tdiv i 10
  rw [← Int.natAbs_eq_zero, h]
  omega

theorem convertDigits_eq (i : Int) :
    (convertDigits i).reverse = Nat.toDigits 10 i.natAbs := by
  fun_induction convertDigits i with
  | case1 i ih =>
    have hlt : (i.tmod 10).natAbs < 10 := by
      rw [Int.natAbs_tmod]
      exact Nat.mod_lt _ (by decide)
    have hlast : zero (i.tmod 10) = Nat.digitChar (i.natAbs % 10) := by
      rw [zero_eq _ hlt, Int.natAbs_tmod]
      rfl
    rw [Nat.toDigits_eq_if (by decide), List.reverse_cons, hlast]
    by_cases h : i.natAbs < 10
    · rw [if_neg (not_not_intro ((tdiv_ten_eq_zero i).mpr h)), if_pos h, Nat.mod_eq_of_lt h]
      rfl
    · have hne : i.tdiv 10 ≠ 0 := fun h0 => h ((tdiv_ten_eq_zero i).mp h0)
      rw [if_pos hne, if_neg h, ih hne, Int.natAbs_tdiv]
      rfl

theorem convert_eq (value : Int) :
    convert value = (if value < 0 then ['-'] else []) ++ Nat.toDigits 10 value.natAbs := by
  rw [convert, List.reverse_append, convertDigits_eq]
  split_ifs <;> rfl

theorem digitsHex_eq : ∀ d < 16, (digitsHex[d]?).getD '\x00' = (Nat.digitChar d).toUpper := by
  decide

theorem convertHexDigits_eq (i : Nat) :
    (convertHexDigits i).reverse = (Nat.toDigits 16 i).map Char.toUpper := by
  fun_induction convertHexDigits i with
  | case1 i ih =>
    rw [Nat.toDigits_eq_if (by decide), List.reverse_cons,
      digitsHex_eq _ (Nat.mod_lt _ (by decide))]
    by_cases hlt : i < 16
    · rw [if_neg (by omega), if_pos hlt, Nat.mod_eq_of_lt hlt]
      rfl
    · rw [if_pos (by omega), if_neg hlt, ih (by omega), List.map_append]
      rfl

theorem length_convertHex {value k : Nat} (hk : 0 < k) (h : value < 16 ^ k) :
    (convertHex value).length ≤ k := by
  rw [convertHex, convertHexDigits_eq, List.length_map]
  exact (Nat.length_toDigits_le_iff (by decide) hk).mpr h

/-! ### What a number may be -/

/-- The types of the numbers that are written digit by digit, on a machine where `long` has 64
bits. -/
inductive IntType where
  | int
  | unsignedInt
  | long
  | unsignedLong
  | longLong
  | unsignedLongLong
  deriving DecidableEq, Repr

namespace IntType

def bits : IntType → Nat
  | int | unsignedInt => 32
  | _ => 64

def signed : IntType → Bool
  | int | long | longLong => true
  | _ => false

def min (T : IntType) : Int := if T.signed then -2 ^ (T.bits - 1) else 0
def max (T : IntType) : Int := if T.signed then 2 ^ (T.bits - 1) - 1 else 2 ^ T.bits - 1

end IntType

/-- A number of one of the types. -/
structure IntValue where
  type : IntType
  val : Int
  min_le : type.min ≤ val
  le_max : val ≤ type.max

theorem length_convert (v : IntValue) : (convert v.val).length ≤ 20 := by
  obtain ⟨T, v, hmin, hmax⟩ := v
  have hlow : -2 ^ 63 ≤ v := Int.le_trans (by cases T <;> decide) hmin
  have hhigh : v ≤ 2 ^ 64 - 1 := Int.le_trans hmax (by cases T <;> decide)
  show (convert v).length ≤ 20
  rw [convert_eq]
  split_ifs with h
  · have : (Nat.toDigits 10 v.natAbs).length ≤ 19 :=
      (Nat.length_toDigits_le_iff (by decide) (by decide)).mpr (by omega)
    rw [List.length_append, List.length_singleton]
    omega
  · exact (Nat.length_toDigits_le_iff (by decide) (by decide)).mpr (by omega)

/-! ### The operators -/

/-- What is given to one `<<` of a stream; the shorter integers and `float` are converted to `int`,
`unsigned int` and `double` first. Of a `double` there is what `"%.12g"` prints. -/
inductive LogItem where
  | bool (v : Bool)
  | integer (v : IntValue)
  | pointer (p : UInt64)
  | double (text : List Char) (short : text.length < kMaxNumericSize)
  | char (v : UInt8)
  | cstr (str : Option Bytes)
  | string (v : Bytes)

/- `buffer_.add` after the text was written at `current()`, for each kind of number
(`LogStream.cc:107`, `:164`, `:179`). -/
def formatNumber (b : FixedBuffer) (text : List Char) : FixedBuffer :=
  if kMaxNumericSize ≤ b.avail kSmallBuffer then { b with data := b.data ++ bytes text } else b

/- `LogStream::operator<<` (`LogStream.h:84`, `LogStream.cc:116`). -/
def LogItem.put (b : FixedBuffer) : LogItem → FixedBuffer
  | bool v => b.append kSmallBuffer (bytes (if v then ['1'] else ['0']))
  | integer v => formatNumber b (convert v.val)
  | pointer p => formatNumber b ('0' :: 'x' :: convertHex p.toNat)
  | double text _ => formatNumber b text
  | char v => b.append kSmallBuffer [v]
  | cstr (some str) => b.append kSmallBuffer str
  | cstr none => b.append kSmallBuffer (bytes ['(', 'n', 'u', 'l', 'l', ')'])
  | string v => b.append kSmallBuffer v

/-- The text of an item. -/
def LogItem.text : LogItem → Bytes
  | bool v => bytes (if v then ['1'] else ['0'])
  | integer v => bytes (convert v.val)
  | pointer p => bytes ('0' :: 'x' :: convertHex p.toNat)
  | double text _ => bytes text
  | char v => [v]
  | cstr (some str) => str
  | cstr none => bytes ['(', 'n', 'u', 'l', 'l', ')']
  | string v => v

/-- The room that must be free for an item: 32 bytes for a number, one more than it has for a
text. -/
def LogItem.room : LogItem → Nat
  | integer _ | pointer _ | double _ _ => kMaxNumericSize
  | item => item.text.length + 1

/-- The length of the buffer after an item. -/
def LogItem.taken (n : Nat) (item : LogItem) : Nat :=
  if n + item.room ≤ kSmallBuffer then n + item.text.length else n

theorem append_eq (b : FixedBuffer) (buf : Bytes) : b.append kSmallBuffer buf =
    if b.length + (buf.length + 1) ≤ kSmallBuffer then { b with data := b.data ++ buf } else b := by
  have hiff : buf.length < b.avail kSmallBuffer ↔
      b.length + (buf.length + 1) ≤ kSmallBuffer := by
    rw [FixedBuffer.avail, FixedBuffer.length]
    omega
  simp only [FixedBuffer.append, hiff]

theorem formatNumber_eq (b : FixedBuffer) (text : List Char) : formatNumber b text =
    if b.length + kMaxNumericSize ≤ kSmallBuffer then { b with data := b.data ++ bytes text }
    else b := by
  have hiff : kMaxNumericSize ≤ b.avail kSmallBuffer ↔
      b.length + kMaxNumericSize ≤ kSmallBuffer := by
    rw [FixedBuffer.avail, FixedBuffer.length, kMaxNumericSize, kSmallBuffer]
    omega
  simp only [formatNumber, hiff]

theorem LogItem.put_eq (b : FixedBuffer) (item : LogItem) : item.put b =
    if b.length + item.room ≤ kSmallBuffer then { b with data := b.data ++ item.text } else b := by
  cases item with
  | integer v => exact formatNumber_eq b _
  | pointer p => exact formatNumber_eq b _
  | double text h => exact formatNumber_eq b _
  | cstr str => cases str <;> exact append_eq b _
  | bool v => exact append_eq b _
  | char v => exact append_eq b _
  | string v => exact append_eq b _

theorem LogItem.length_put (b : FixedBuffer) (item : LogItem) :
    (item.put b).length = item.taken b.length := by
  rw [item.put_eq, taken]
  split_ifs
  · exact List.length_append
  · rfl

theorem LogItem.length_text_lt (item : LogItem) : item.text.length < item.room := by
  cases item with
  | integer v =>
    have := length_convert v
    rw [text, room, length_bytes, kMaxNumericSize]
    omega
  | pointer p =>
    have : (convertHex p.toNat).length ≤ 16 := length_convertHex (by decide) p.toNat_lt
    rw [text, room, length_bytes, List.length_cons, List.length_cons, kMaxNumericSize]
    omega
  | double s hs => rwa [text, room, length_bytes]
  | cstr str => cases str <;> exact Nat.lt_succ_self _
  | bool v => exact Nat.lt_succ_self _
  | char v => exact Nat.lt_succ_self _
  | string v => exact Nat.lt_succ_self _

theorem LogItem.taken_lt {n : Nat} (item : LogItem) (h : n < kSmallBuffer) :
    item.taken n < kSmallBuffer := by
  have := item.length_text_lt
  rw [taken]
  split_ifs with hfits
  · omega
  · exact h

/-! ### Several items -/

theorem length_puts (items : List LogItem) (b : FixedBuffer) :
    (items.foldl LogItem.put b).length = items.foldl LogItem.taken b.length := by
  induction items generalizing b with
  | nil => rfl
  | cons item items ih => rw [List.foldl_cons, List.foldl_cons, ih, item.length_put]

theorem takens_lt {n : Nat} (items : List LogItem) (h : n < kSmallBuffer) :
    items.foldl LogItem.taken n < kSmallBuffer := by
  induction items generalizing n with
  | nil => exact h
  | cons item items ih => exact ih (item.taken_lt h)

end TstMuduo.Base
