import TstMuduo.Lib.ByteMemory
import TstMuduo.Lib.CInt
import TstMuduo.Lib.Numeral
import TstMuduo.Base.LogStream

/-!
# Numbers in memory (muduo/base/LogStream.cc)

`convert` and `convertHex` work in the characters of the stream's buffer: the digits are stored
from the last one on, then the sign and a NUL, and what stands before the NUL is reversed in
place. An operation on a signed type that overflows, a table that is read outside and a store
outside of the array are faults of the model.
-/

namespace TstMuduo.Base
open TstMuduo.Lib

inductive FormatFault where
  | overflow (x : Int)
  | divisor
  | table (k : Int)
  | outside (p : Int)
  deriving DecidableEq, Repr

/-! ### Arithmetic of the types -/

namespace IntType

variable {T : IntType}

/-- A number of type `T`. -/
structure Value (T : IntType) where
  val : Int
  min_le : T.min ≤ val
  le_max : val ≤ T.max

theorem min_nonpos (T : IntType) : T.min ≤ 0 := by cases T <;> decide

theorem max_nonneg (T : IntType) : 0 ≤ T.max := by cases T <;> decide

theorem modulus_pos (T : IntType) : (0 : Int) < 2 ^ T.bits := by cases T <;> decide

/-- The result of an operation of type `T`: an unsigned type wraps, a signed one overflows. -/
def result (T : IntType) (x : Int) : Except FormatFault T.Value :=
  if h : T.min ≤ x ∧ x ≤ T.max then
    .ok ⟨x, h.1, h.2⟩
  else if hs : T.signed then
    .error (.overflow x)
  else
    .ok ⟨x % 2 ^ T.bits,
      by rw [min, if_neg hs]; exact Int.emod_nonneg x T.modulus_pos.ne',
      by rw [max, if_neg hs]; exact Int.le_sub_one_of_lt (Int.emod_lt_of_pos x T.modulus_pos)⟩

/-- `i / n`, which truncates. -/
def Value.div (i : T.Value) (n : Int) : Except FormatFault T.Value :=
  if n = 0 then .error .divisor else T.result (i.val.tdiv n)

/-- `i % n`: there is one only where there is a quotient. -/
def Value.rem (i : T.Value) (n : Int) : Except FormatFault T.Value := do
  let _ ← i.div n
  T.result (i.val.tmod n)

theorem result_ok {x : Int} (h : T.min ≤ x ∧ x ≤ T.max) : T.result x = .ok ⟨x, h.1, h.2⟩ :=
  dif_pos h

theorem Value.between (i : T.Value) {x : Int} (h : 0 ≤ x ∧ x ≤ i.val ∨ i.val ≤ x ∧ x ≤ 0) :
    T.min ≤ x ∧ x ≤ T.max := by
  have hmin := T.min_nonpos
  have hmax := T.max_nonneg
  have hlow := i.min_le
  have hhigh := i.le_max
  omega

theorem Value.tdiv_between (i : T.Value) {n : Int} (hn : 0 < n) :
    T.min ≤ i.val.tdiv n ∧ i.val.tdiv n ≤ T.max := by
  apply i.between
  have habs := Int.natAbs_tdiv_le_natAbs i.val n
  rcases Int.le_total 0 i.val with h | h
  · have := Int.tdiv_nonneg h hn.le
    omega
  · have := Int.tdiv_nonneg (Int.neg_nonneg_of_nonpos h) hn.le
    rw [Int.neg_tdiv] at this
    omega

theorem Value.tmod_between (i : T.Value) (n : Int) :
    T.min ≤ i.val.tmod n ∧ i.val.tmod n ≤ T.max := by
  apply i.between
  have habs : (i.val.tmod n).natAbs ≤ i.val.natAbs := by
    rw [Int.natAbs_tmod]
    exact Nat.mod_le _ _
  rcases Int.le_total 0 i.val with h | h
  · have := Int.tmod_nonneg n h
    omega
  · have := Int.tmod_nonneg n (Int.neg_nonneg_of_nonpos h)
    rw [Int.neg_tmod] at this
    omega

theorem Value.div_ok (i : T.Value) {n : Int} (hn : 0 < n) :
    i.div n = .ok ⟨i.val.tdiv n, (i.tdiv_between hn).1, (i.tdiv_between hn).2⟩ := by
  rw [Value.div, if_neg hn.ne']
  exact result_ok (i.tdiv_between hn)

theorem Value.rem_ok (i : T.Value) {n : Int} (hn : 0 < n) :
    i.rem n = .ok ⟨i.val.tmod n, (i.tmod_between n).1, (i.tmod_between n).2⟩ := by
  rw [Value.rem, i.div_ok hn, ok_bind]
  exact result_ok (i.tmod_between n)

end IntType

/-! ### The functions -/

/-- An array of characters in the memory. Positions are counted from its start. -/
structure CharArray where
  size : Nat
  mem : Int → UInt8

/-- What the two functions differ in: the base, the table of the digits, and where in the table
the digit of a remainder stands. -/
structure Radix where
  base : Nat
  one_lt : 1 < base
  table : List Char
  origin : Int

/- `zero` points at `digits + 9` (`LogStream.cc:27`). -/
def decimal : Radix := ⟨10, by decide, digits, 9⟩
def hexadecimal : Radix := ⟨16, by decide, digitsHex, 0⟩

/- `zero[lsd]` and `digitsHex[lsd]`. -/
def Radix.digit (R : Radix) (lsd : Int) : Except FormatFault Char :=
  if 0 ≤ R.origin + lsd then
    match R.table[(R.origin + lsd).toNat]? with
    | some c => .ok c
    | none => .error (.table lsd)
  else
    .error (.table lsd)

namespace CharArray

variable {T : IntType}

/- `*p = c`. -/
def set (a : CharArray) (p : Int) (c : UInt8) : Except FormatFault CharArray :=
  if 0 ≤ p ∧ p < a.size then .ok { a with mem := store a.mem p [c] } else .error (.outside p)

def reverse (a : CharArray) (first last : Int) : CharArray :=
  { a with mem := reverseRange a.mem first last }

/- One round of the loop (`LogStream.cc:42`, `:64`), and what it leaves in `i`. -/
def digitRound (R : Radix) (a : CharArray) (p : Int) (i : T.Value) :
    Except FormatFault (CharArray × T.Value) := do
  let rest ← i.rem R.base
  let lsd := castInt32 rest.val
  let i ← i.div R.base
  let c ← R.digit lsd
  let a ← a.set p c.toUInt8
  .ok (a, i)

theorem digitRound_val {R : Radix} {a b : CharArray} {p : Int} {i q : T.Value}
    (h : digitRound R a p i = .ok (b, q)) : q.val = i.val.tdiv R.base := by
  have hbase : (0 : Int) < R.base := Int.natCast_pos.mpr (Nat.zero_lt_of_lt R.one_lt)
  rw [digitRound, i.rem_ok hbase, ok_bind, i.div_ok hbase, ok_bind] at h
  obtain ⟨c, -, h⟩ := bind_eq_ok h
  obtain ⟨d, -, h⟩ := bind_eq_ok h
  cases h
  rfl

theorem natAbs_quotient {R : Radix} {i q : T.Value} (h : q.val = i.val.tdiv R.base) :
    q.val.natAbs = i.val.natAbs / R.base := by
  rw [h, Int.natAbs_tdiv, Int.natAbs_natCast]
  rfl

/- The loop, with `p`. -/
def digitLoop (R : Radix) (a : CharArray) (p : Int) (i : T.Value) :
    Except FormatFault (CharArray × Int) :=
  match h : digitRound R a p i with
  | .error e => .error e
  | .ok (b, q) => if hq : q.val ≠ 0 then digitLoop R b (p + 1) q else .ok (b, p + 1)
termination_by i.val.natAbs
decreasing_by
  have hval := natAbs_quotient (digitRound_val h)
  have hpos : 0 < q.val.natAbs := Int.natAbs_pos.mpr hq
  rw [hval] at hpos ⊢
  exact Nat.div_lt_self (Nat.pos_of_div_pos hpos) R.one_lt

/- The end of the functions: the NUL, and the text turned round. The result is `p - buf`. -/
def finish (a : CharArray) (buf p : Int) : Except FormatFault (CharArray × Int) := do
  let a ← a.set p 0
  .ok (a.reverse buf p, p - buf)

/- `convert` (`LogStream.cc:35`). -/
def convert (a : CharArray) (buf : Int) (value : T.Value) :
    Except FormatFault (CharArray × Int) := do
  let (a, p) ← digitLoop decimal a buf value
  if value.val < 0 then
    let a ← a.set p '-'.toUInt8
    a.finish buf (p + 1)
  else
    a.finish buf p

/- `convertHex` (`LogStream.cc:57`); `uintptr_t` is `unsigned long`. -/
def convertHex (a : CharArray) (buf : Int) (value : IntType.unsignedLong.Value) :
    Except FormatFault (CharArray × Int) := do
  let (a, p) ← digitLoop hexadecimal a buf value
  a.finish buf p

end CharArray

/-! ### What a table holds -/

/-- Every remainder of a number of type `T` has its digit in the table. -/
structure Radix.Reads (R : Radix) (T : IntType) (char : Nat → Char) : Prop where
  base_le : R.base ≤ 2147483647
  digit : ∀ r : Int, T.min ≤ r → r.natAbs < R.base → R.digit r = .ok (char r.natAbs)

theorem decimal_reads (T : IntType) : decimal.Reads T Nat.digitChar where
  base_le := by decide
  digit := by
    intro r _ hr
    have hlt : r.natAbs < 10 := hr
    -- the table is read on both sides of its zero
    obtain ⟨k, rfl, hk⟩ : ∃ k : Nat, r = (k : Int) - 9 ∧ k ≤ 18 := ⟨(r + 9).toNat, by omega⟩
    have htable : ∀ k : Nat, k ≤ 18 →
        decimal.digit ((k : Int) - 9) = .ok (Nat.digitChar ((k : Int) - 9).natAbs) := by decide
    exact htable k hk

/-- The digit of `convertHex`. -/
def upperDigit (d : Nat) : Char := (Nat.digitChar d).toUpper

theorem hexadecimal_reads : hexadecimal.Reads .unsignedLong upperDigit where
  base_le := by decide
  digit := by
    intro r hmin hr
    obtain ⟨d, rfl⟩ := Int.eq_ofNat_of_zero_le hmin
    have htable : ∀ d < 16, hexadecimal.digit (d : Nat) = .ok (upperDigit d) := by decide
    exact htable d hr

/-! ### What the functions store -/

namespace CharArray

variable {T : IntType} {R : Radix} {char : Nat → Char} {a : CharArray} {buf p : Int}

/-- The array after a run of bytes was written at `off`. -/
def put (a : CharArray) (off : Int) (bs : Bytes) : CharArray := { a with mem := store a.mem off bs }

@[simp] theorem size_put (a : CharArray) (off : Int) (bs : Bytes) : (a.put off bs).size = a.size :=
  rfl

theorem set_ok {c : UInt8} (h0 : 0 ≤ p) (hp : p < a.size) : a.set p c = .ok (a.put p [c]) :=
  if_pos ⟨h0, hp⟩

theorem put_put (a : CharArray) (off : Int) (bs cs : Bytes) :
    (a.put off bs).put (off + bs.length) cs = a.put off (bs ++ cs) := by
  simp only [put, store_append]

theorem digitRound_ok (hR : R.Reads T char) {i q : T.Value} (hq : i.div R.base = .ok q)
    (h0 : 0 ≤ p) (hp : p < a.size) : digitRound R a p i =
      .ok (a.put p (bytes [char (i.val.natAbs % R.base)]), q) := by
  have hpos : 0 < R.base := Nat.zero_lt_of_lt R.one_lt
  have habs : (i.val.tmod R.base).natAbs = i.val.natAbs % R.base := by
    rw [Int.natAbs_tmod, Int.natAbs_natCast]
  have hlt : (i.val.tmod R.base).natAbs < R.base := by
    rw [habs]
    exact Nat.mod_lt _ hpos
  have hcast : castInt32 (i.val.tmod R.base) = i.val.tmod R.base := by
    have := hR.base_le
    exact castInt32_ok ⟨by omega, by omega⟩
  rw [digitRound, i.rem_ok (Int.natCast_pos.mpr hpos), ok_bind, hq, ok_bind, hcast,
    hR.digit _ (i.tmod_between R.base).1 hlt, ok_bind, set_ok h0 hp, ok_bind, habs]
  rfl

theorem digitLoop_eq {b : CharArray} {i q : T.Value} (h : digitRound R a p i = .ok (b, q)) :
    digitLoop R a p i = if q.val ≠ 0 then digitLoop R b (p + 1) q else .ok (b, p + 1) := by
  rw [digitLoop]
  split
  next e he => cases h.symm.trans he
  next b' q' he =>
    cases h.symm.trans he
    rfl

theorem digitLoop_spec (hR : R.Reads T char) (i : T.Value) :
    ∃ ds, IsNumeral R.base i.val.natAbs ds ∧ ∀ (a : CharArray) (p : Int), 0 ≤ p →
      p + (ds.map char).length ≤ a.size →
      digitLoop R a p i =
        .ok (a.put p (bytes (ds.map char).reverse), p + (ds.map char).length) := by
  have hpos : 0 < R.base := Nat.zero_lt_of_lt R.one_lt
  induction hn : i.val.natAbs using Nat.strong_induction_on generalizing i with
  | _ n ih =>
    obtain ⟨q, hq, hdiv⟩ : ∃ q : T.Value, q.val.natAbs = n / R.base ∧ i.div R.base = .ok q :=
      ⟨_, hn ▸ natAbs_quotient rfl, i.div_ok (Int.natCast_pos.mpr hpos)⟩
    rcases Nat.lt_or_ge n R.base with hlt | hge
    · refine ⟨[n], .single hlt, ?_⟩
      intro a p h0 hp
      have hround := digitRound_ok hR (a := a) hdiv h0 (Int.lt_of_add_one_le hp)
      have hzero : q.val = 0 := by
        rw [← Int.natAbs_eq_zero, hq, Nat.div_eq_of_lt hlt]
      rw [digitLoop_eq hround, if_neg (not_not_intro hzero), hn, Nat.mod_eq_of_lt hlt]
      rfl
    · have hqpos : 0 < q.val.natAbs := by
        rw [hq]
        exact Nat.div_pos hge hpos
      obtain ⟨ds, hds, hloop⟩ :=
        ih (n / R.base) (Nat.div_lt_self (hpos.trans_le hge) R.one_lt) q hq
      refine ⟨ds ++ [n % R.base], hds.snoc hpos hge, ?_⟩
      intro a p h0 hp
      rw [List.map_append, List.length_append, List.map_singleton, List.length_singleton] at hp
      have hround := digitRound_ok hR (a := a) hdiv h0 (by omega)
      -- the digits of the quotient come behind the remainder
      have hput : (a.put p (bytes [char (n % R.base)])).put (p + 1) (bytes (ds.map char).reverse) =
          a.put p (bytes ((ds ++ [n % R.base]).map char).reverse) := by
        rw [List.map_append, List.reverse_append, bytes_append]
        exact put_put a p _ _
      rw [digitLoop_eq hround, if_pos (Int.natAbs_pos.mp hqpos), hn,
        hloop _ (p + 1) (by omega) (by rw [size_put]; omega), hput, List.map_append,
        List.length_append, List.map_singleton, List.length_singleton]
      congr 2
      omega

theorem finish_ok {text : List Char} (h0 : 0 ≤ buf) (h : buf + (text.length + 1) ≤ a.size) :
    (a.put buf (bytes text.reverse)).finish buf (buf + text.length) =
      .ok (a.put buf (bytes text ++ [0]), text.length) := by
  have hend : buf + text.length = buf + (bytes text.reverse).length := by
    rw [length_bytes, List.length_reverse]
  rw [finish, set_ok (by omega) (by rw [size_put]; omega), ok_bind, hend, put_put]
  have hreverse : (a.put buf (bytes text.reverse ++ [0])).reverse buf
      (buf + (bytes text.reverse).length) = a.put buf (bytes text ++ [0]) := by
    simp only [reverse, put, reverseRange_store]
    rw [bytes, bytes, List.map_reverse, List.reverse_reverse]
  rw [hreverse, ← hend]
  congr 2
  omega

end CharArray

/-! ### The texts -/

/-- The decimal text of a number. -/
def IsDecimal (value : Int) (text : List Char) : Prop :=
  ∃ ds, IsNumeral 10 value.natAbs ds ∧
    text = (if value < 0 then ['-'] else []) ++ ds.map Nat.digitChar

/-- The hexadecimal text of a number, in capital letters. -/
def IsUpperHex (value : Nat) (text : List Char) : Prop :=
  ∃ ds, IsNumeral 16 value ds ∧ text = ds.map upperDigit

theorem IsDecimal.eq_convert {value : Int} {text : List Char} (h : IsDecimal value text) :
    text = convert value := by
  obtain ⟨ds, hds, rfl⟩ := h
  rw [convert_eq, hds.toDigits_eq (by decide)]

theorem IsUpperHex.eq_convertHex {value : Nat} {text : List Char} (h : IsUpperHex value text) :
    text = convertHex value := by
  obtain ⟨ds, hds, rfl⟩ := h
  rw [convertHex, convertHexDigits_eq, hds.toDigits_eq (by decide), List.map_map]
  rfl

namespace CharArray

variable {T : IntType}

theorem convert_spec (value : T.Value) : IsDecimal value.val (Base.convert value.val) ∧
    ∀ (a : CharArray) (buf : Int), 0 ≤ buf →
      buf + ((Base.convert value.val).length + 1) ≤ a.size →
      a.convert buf value = .ok (a.put buf (bytes (Base.convert value.val) ++ [0]),
        (Base.convert value.val).length) := by
  obtain ⟨ds, hds, hloop⟩ := digitLoop_spec (decimal_reads T) value
  generalize hs : ds.map Nat.digitChar = s at hloop
  have htext : IsDecimal value.val ((if value.val < 0 then ['-'] else []) ++ s) :=
    ⟨ds, hds, by rw [hs]⟩
  rw [← htext.eq_convert]
  refine ⟨htext, ?_⟩
  intro a buf h0 hsize
  by_cases hneg : value.val < 0
  · rw [if_pos hneg, List.singleton_append] at hsize ⊢
    have hfits : buf + (s.length + 1 + 1) ≤ a.size := hsize
    have hminus : (a.put buf (bytes s.reverse)).set (buf + s.length) '-'.toUInt8 =
        .ok (a.put buf (bytes ('-' :: s).reverse)) := by
      rw [set_ok (by omega) (by rw [size_put]; omega), List.reverse_cons, bytes_append,
        ← put_put, length_bytes, List.length_reverse]
      rfl
    rw [convert, hloop a buf h0 (by omega), ok_bind]
    simp only [if_pos hneg]
    rw [hminus, ok_bind, Int.add_assoc]
    exact finish_ok h0 hsize
  · rw [if_neg hneg, List.nil_append] at hsize ⊢
    rw [convert, hloop a buf h0 (by omega), ok_bind]
    simp only [if_neg hneg]
    exact finish_ok h0 hsize

theorem convertHex_spec (value : IntType.unsignedLong.Value) :
    IsUpperHex value.val.toNat (Base.convertHex value.val.toNat) ∧
    ∀ (a : CharArray) (buf : Int), 0 ≤ buf →
      buf + ((Base.convertHex value.val.toNat).length + 1) ≤ a.size →
      a.convertHex buf value = .ok (a.put buf (bytes (Base.convertHex value.val.toNat) ++ [0]),
        (Base.convertHex value.val.toNat).length) := by
  obtain ⟨ds, hds, hloop⟩ := digitLoop_spec hexadecimal_reads value
  generalize hs : ds.map upperDigit = s at hloop
  have habs : value.val.natAbs = value.val.toNat := by
    have hnonneg : 0 ≤ value.val := value.min_le
    omega
  have htext : IsUpperHex value.val.toNat s := ⟨ds, habs ▸ hds, hs.symm⟩
  rw [← htext.eq_convertHex]
  refine ⟨htext, ?_⟩
  intro a buf h0 hsize
  rw [convertHex, hloop a buf h0 (by omega), ok_bind]
  exact finish_ok h0 hsize

end CharArray

end TstMuduo.Base
