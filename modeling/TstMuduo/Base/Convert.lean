import Mathlib.Data.List.Basic
import Mathlib.Data.List.Infix

/-!
# The encoding of a text (muduo/base/convert.cpp)

`detectEncoding` decides by the first character of more than one byte. On a character of two
bytes the verdicts are the wrong way round: a continuation byte, which UTF-8 has there, is
answered by `kGBK`.
-/

namespace TstMuduo.Base

/- `Encoding` (`convert.h:27`). -/
inductive Encoding where
  | kUnknown
  | kUnicode
  | kGBK
  | kUTF8
  deriving DecidableEq, Repr

/- The loop of `Convert::detectEncoding` (`convert.cpp:67`), from `i` on. No result: a character
past the end of the text was asked for. -/
def detectFrom (content : List UInt8) (i : Nat) : Option Encoding :=
  if h : i < content.length - 2 then
    (content[i]?).bind fun lead =>
      if lead &&& 0x80 ≠ 0 then
        (content[i + 1]?).bind fun second =>
          if second &&& 0x80 = 0 then
            some .kGBK
          else if lead &&& 0xE0 = 0xC0 then
            if second &&& 0xC0 = 0x80 then
              some .kGBK
            else
              detectFrom content (i + 2)
          else if lead &&& 0xF0 = 0xE0 then
            if second &&& 0xC0 = 0x80 then
              (content[i + 2]?).bind fun third =>
                if third &&& 0xC0 = 0x80 then some .kUTF8 else some .kGBK
            else
              some .kGBK
          else
            some .kGBK
      else
        detectFrom content (i + 1)
  else
    some .kUTF8
termination_by content.length - i

/- `Convert::detectEncoding` (`convert.cpp:59`). -/
def detectEncoding (content : List UInt8) : Option Encoding :=
  if content.length < 2 then
    some .kGBK
  else
    (content[0]?).bind fun first =>
      (content[1]?).bind fun second =>
        if first = 0xFF ∧ second = 0xFE then some .kUnicode else detectFrom content 0

/-! ### Nothing past the end is read -/

theorem detectFrom_isSome (content : List UInt8) (i : Nat) :
    ∃ e, detectFrom content i = some e := by
  fun_induction detectFrom content i with
  | case1 i h ih2 ih1 =>
    have h0 : content[i]? = some content[i] := List.getElem?_eq_getElem (by omega)
    have h1 : content[i + 1]? = some content[i + 1] := List.getElem?_eq_getElem (by omega)
    have h2 : content[i + 2]? = some content[i + 2] := List.getElem?_eq_getElem (by omega)
    simp only [h0, h1, h2, Option.bind_some]
    split_ifs
    all_goals first | exact ⟨_, rfl⟩ | exact ih1 | exact ih2
  | case2 i h => exact ⟨_, rfl⟩

theorem detectEncoding_isSome (content : List UInt8) :
    ∃ e, detectEncoding content = some e := by
  unfold detectEncoding
  split_ifs with h
  · exact ⟨_, rfl⟩
  · have h0 : content[0]? = some content[0] := List.getElem?_eq_getElem (by omega)
    have h1 : content[1]? = some content[1] := List.getElem?_eq_getElem (by omega)
    simp only [h0, h1, Option.bind_some]
    split_ifs
    · exact ⟨_, rfl⟩
    · exact detectFrom_isSome content 0

/-! ### Characters of at most three bytes -/

/-- The text of a sequence of characters. -/
def utf8Text (cs : List Char) : List UInt8 := cs.flatMap String.utf8EncodeChar

@[simp] theorem utf8Text_nil : utf8Text [] = [] := rfl

@[simp] theorem utf8Text_cons (c : Char) (cs : List Char) :
    utf8Text (c :: cs) = String.utf8EncodeChar c ++ utf8Text cs := List.flatMap_cons

/-- The first character of more than one byte has two bytes, and another one comes after it. -/
def TwoBytesThenMore (cs : List Char) : Prop :=
  ∃ c d rest, cs.dropWhile (fun a => a.utf8Size = 1) = c :: d :: rest ∧ c.utf8Size = 2

theorem twoBytesThenMore_ascii {c : Char} {cs : List Char} (h : c.utf8Size = 1) :
    TwoBytesThenMore (c :: cs) ↔ TwoBytesThenMore cs := by
  simp [TwoBytesThenMore, h]

theorem twoBytesThenMore_wide {c : Char} {cs : List Char} (h : c.utf8Size ≠ 1) :
    TwoBytesThenMore (c :: cs) ↔ c.utf8Size = 2 ∧ cs ≠ [] := by
  cases cs with
  | nil => simp [TwoBytesThenMore, h]
  | cons d rest => simp [TwoBytesThenMore, h]

/-! ### The bytes of a character -/

theorem ascii_byte (c : Char) (h : c.utf8Size = 1) : c.val.toUInt8 &&& 0x80 = 0 ∧
    c.val.toUInt8 ≠ 0xFF := by
  have hle : c.val.toNat ≤ 127 := by
    have := Char.utf8Size_eq_one_iff.mp h
    rwa [UInt32.le_iff_toNat_le] at this
  have hb : ∀ n : Nat, n ≤ 127 → UInt8.ofNat n &&& 0x80 = 0 ∧ UInt8.ofNat n ≠ 0xFF := by
    decide +kernel
  exact hb c.val.toNat hle

theorem lead_two (b : UInt8) : (b &&& 0x1f ||| 0xc0) &&& 0xE0 = 0xC0 ∧
    (b &&& 0x1f ||| 0xc0) &&& 0x80 ≠ 0 ∧ (b &&& 0x1f ||| 0xc0) ≠ 0xFF := by
  obtain ⟨b⟩ := b
  revert b
  decide +kernel

theorem lead_three (b : UInt8) : (b &&& 0x0f ||| 0xe0) &&& 0xE0 ≠ 0xC0 ∧
    (b &&& 0x0f ||| 0xe0) &&& 0xF0 = 0xE0 ∧ (b &&& 0x0f ||| 0xe0) &&& 0x80 ≠ 0 ∧
    (b &&& 0x0f ||| 0xe0) ≠ 0xFF := by
  obtain ⟨b⟩ := b
  revert b
  decide +kernel

theorem continuation (b : UInt8) : (b &&& 0x3f ||| 0x80) &&& 0xC0 = 0x80 ∧
    (b &&& 0x3f ||| 0x80) &&& 0x80 ≠ 0 := by
  obtain ⟨b⟩ := b
  revert b
  decide +kernel

/-! ### The verdict on a text -/

theorem detectFrom_end {content : List UInt8} {i : Nat} (h : content.length - 2 ≤ i) :
    detectFrom content i = some .kUTF8 := by
  rw [detectFrom, dif_neg (by omega)]

theorem detectFrom_ascii {content : List UInt8} {i : Nat} {b : UInt8}
    (hi : content[i]? = some b) (hb : b &&& 0x80 = 0) :
    detectFrom content i = detectFrom content (i + 1) := by
  by_cases h : i < content.length - 2
  · rw [detectFrom, dif_pos h, hi]
    simp [hb]
  · rw [detectFrom_end (by omega), detectFrom_end (by omega)]

theorem detectFrom_two {content : List UInt8} {i : Nat} {a b : UInt8}
    (h : i < content.length - 2) (ha : content[i]? = some a) (hb : content[i + 1]? = some b)
    (hlead : a &&& 0xE0 = 0xC0) (hlead' : a &&& 0x80 ≠ 0) (hcont : b &&& 0xC0 = 0x80) :
    detectFrom content i = some .kGBK := by
  rw [detectFrom, dif_pos h, ha, hb]
  simp [hlead, hlead', hcont]

theorem detectFrom_three {content : List UInt8} {i : Nat} {a b c : UInt8}
    (ha : content[i]? = some a) (hb : content[i + 1]? = some b) (hc : content[i + 2]? = some c)
    (hlead : a &&& 0xE0 ≠ 0xC0) (hlead' : a &&& 0xF0 = 0xE0) (hwide : a &&& 0x80 ≠ 0)
    (hb2 : b &&& 0xC0 = 0x80) (hb1 : b &&& 0x80 ≠ 0) (hc2 : c &&& 0xC0 = 0x80) :
    detectFrom content i = some .kUTF8 := by
  by_cases h : i < content.length - 2
  · rw [detectFrom, dif_pos h, ha, hb, hc]
    simp [hlead, hlead', hwide, hb1, hb2, hc2]
  · exact detectFrom_end (by omega)

/-- From the first byte of a character on: only what follows counts. -/
theorem detectFrom_utf8Text (pre : List UInt8) (cs : List Char) (hsize : ∀ c ∈ cs, c.utf8Size ≤ 3) :
    detectFrom (pre ++ utf8Text cs) pre.length = some .kUTF8 ↔ ¬ TwoBytesThenMore cs := by
  induction cs generalizing pre with
  | nil =>
    rw [detectFrom_end (by simp)]
    simp [TwoBytesThenMore]
  | cons c cs ih =>
    have ht : ∀ d ∈ cs, d.utf8Size ≤ 3 := fun d hd => hsize d (List.mem_cons_of_mem _ hd)
    rcases c.utf8Size_eq with h1 | h2 | h3 | h4
    · have hb := (ascii_byte c h1).1
      rw [utf8Text_cons, String.utf8EncodeChar_eq_singleton h1, twoBytesThenMore_ascii h1,
        detectFrom_ascii (by simp) hb, ← ih (pre ++ [c.val.toUInt8]) ht]
      simp
    · have hw : c.utf8Size ≠ 1 := by omega
      obtain ⟨hlead, hlead', -⟩ := lead_two (c.val >>> 6).toUInt8
      have hcont := (continuation c.val.toUInt8).1
      rw [utf8Text_cons, String.utf8EncodeChar_eq_cons_cons h2, twoBytesThenMore_wide hw]
      cases cs with
      | nil =>
        rw [detectFrom_end (by simp)]
        simp
      | cons d rest =>
        have hmore : 0 < (utf8Text (d :: rest)).length := by
          have := d.utf8Size_pos
          simp only [utf8Text_cons, List.length_append, String.length_utf8EncodeChar]
          omega
        have hi : pre.length < (pre ++ ([(c.val >>> 6).toUInt8 &&& 0x1f ||| 0xc0,
            c.val.toUInt8 &&& 0x3f ||| 0x80] ++ utf8Text (d :: rest))).length - 2 := by
          simp only [List.length_append, List.length_cons, List.length_nil]
          omega
        rw [detectFrom_two hi (by simp) (by simp) hlead hlead' hcont]
        simp [h2]
    · have hw : c.utf8Size ≠ 1 := by omega
      obtain ⟨hlead, hlead', hwide, -⟩ := lead_three (c.val >>> 12).toUInt8
      obtain ⟨hb2, hb1⟩ := continuation (c.val >>> 6).toUInt8
      have hc2 := (continuation c.val.toUInt8).1
      rw [utf8Text_cons, String.utf8EncodeChar_eq_cons_cons_cons h3, twoBytesThenMore_wide hw,
        detectFrom_three (by simp) (by simp) (by simp) hlead hlead' hwide hb2 hb1 hc2]
      simp [h3]
    · have := hsize c List.mem_cons_self
      omega

theorem utf8Text_head_ne (cs : List Char) (hsize : ∀ c ∈ cs, c.utf8Size ≤ 3) :
    (utf8Text cs)[0]? ≠ some 0xFF := by
  cases cs with
  | nil => simp
  | cons c cs =>
    have hc := hsize c List.mem_cons_self
    rcases c.utf8Size_eq with h1 | h2 | h3 | h4
    · rw [utf8Text_cons, String.utf8EncodeChar_eq_singleton h1]
      simpa using (ascii_byte c h1).2
    · rw [utf8Text_cons, String.utf8EncodeChar_eq_cons_cons h2]
      simpa using (lead_two (c.val >>> 6).toUInt8).2.2
    · rw [utf8Text_cons, String.utf8EncodeChar_eq_cons_cons_cons h3]
      simpa using (lead_three (c.val >>> 12).toUInt8).2.2.2
    · omega

/-- A text in UTF-8 is recognised unless its first character of more than one byte has two bytes
and is not the last one. -/
theorem detectEncoding_utf8Text (cs : List Char) (hsize : ∀ c ∈ cs, c.utf8Size ≤ 3)
    (hlen : 2 ≤ (utf8Text cs).length) :
    (∃ e, detectEncoding (utf8Text cs) = some e) ∧
      (detectEncoding (utf8Text cs) = some .kUTF8 ↔ ¬ TwoBytesThenMore cs) := by
  have hscan := detectFrom_utf8Text [] cs hsize
  rw [List.nil_append, List.length_nil] at hscan
  have h0 : (utf8Text cs)[0]? = some (utf8Text cs)[0] := List.getElem?_eq_getElem (by omega)
  have h1 : (utf8Text cs)[1]? = some (utf8Text cs)[1] := List.getElem?_eq_getElem (by omega)
  have hmark : (utf8Text cs)[0] ≠ 0xFF := by
    intro h
    exact utf8Text_head_ne cs hsize (by rw [h0, h])
  have hdetect : detectEncoding (utf8Text cs) = detectFrom (utf8Text cs) 0 := by
    rw [detectEncoding, if_neg (by omega), h0, h1]
    simp [hmark]
  exact ⟨detectEncoding_isSome _, by rw [hdetect, hscan]⟩

theorem detectEncoding_utf8Text_plain :
    (∃ e, detectEncoding (utf8Text ['a', '中']) = some e) ∧
      (detectEncoding (utf8Text ['a', '中']) = some .kUTF8 ↔ ¬ TwoBytesThenMore ['a', '中']) :=
  detectEncoding_utf8Text ['a', '中']
    (List.forall_mem_cons.mpr ⟨by decide, List.forall_mem_singleton.mpr (by decide)⟩) (by decide)

/- `é` followed by `t` is taken for GBK. -/
theorem detectEncoding_latin : ¬ ∀ cs : List Char, (∀ c ∈ cs, c.utf8Size ≤ 3) →
    2 ≤ (utf8Text cs).length → detectEncoding (utf8Text cs) = some .kUTF8 := by
  intro h
  have hutf8 := h ['é', 't']
    (List.forall_mem_cons.mpr ⟨by decide, List.forall_mem_singleton.mpr (by decide)⟩) (by decide)
  have htext : utf8Text ['é', 't'] = [0xC3, 0xA9, 0x74] := by decide
  rw [htext, detectEncoding, detectFrom] at hutf8
  exact absurd hutf8 (by decide)

end TstMuduo.Base
