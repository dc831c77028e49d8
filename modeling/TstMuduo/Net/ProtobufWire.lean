import TstMuduo.Lib.Endian
import TstMuduo.Lib.Varint
import TstMuduo.Net.Basic

/-!
# What generated code calls of protobuf

The functions of the library are parameters: what they promise is that each reads back what its
counterpart writes. One set of functions that keeps the promises is written out.
-/

namespace TstMuduo.Net.Pb
open TstMuduo.Lib

/-- What the generated code calls, on the bytes from the pointer on. `writeVarint` gives the
field that it adds to the unknown ones. -/
structure ProtobufWire (Unknown : Type) where
  readTag : Bytes → Option (BitVec 32 × Bytes)
  readVarint64 : Bytes → Option (BitVec 64 × Bytes)
  inlineGreedyStringParser : Bytes → Option (Bytes × Bytes)
  unknownFieldParse : BitVec 32 → Bytes → Option (Unknown × Bytes)
  writeVarint : Nat → BitVec 64 → Unknown
  writeEnumToArray : Nat → BitVec 32 → Bytes
  writeFixed64ToArray : Nat → BitVec 64 → Bytes
  writeStringMaybeAliased : Nat → Bytes → Bytes
  writeBytesMaybeAliased : Nat → Bytes → Bytes
  serializeUnknownField : Unknown → Bytes
  enumSize : BitVec 32 → Nat
  stringSize : Bytes → Nat
  bytesSize : Bytes → Nat
  unknownFieldSize : Unknown → Nat

def tagOf (number wireType : Nat) : BitVec 32 := .ofNat 32 (number * 8 + wireType)

/- The longest string that the parser takes: `INT_MAX` less the slop bytes of its input. -/
def kMaxStringLen : Nat := 2 ^ 31 - 1 - 16

/-- What the library promises: every reader takes what its writer wrote from the front of
anything, an unknown field is written as it was read, no reader goes back, and the sizes are
those of the encodings of fields with a number below 16. -/
structure ProtobufWire.Lawful {Unknown : Type} (w : ProtobufWire Unknown) : Prop where
  tag : ∀ {input t rest}, w.readTag input = some (t, rest) → rest.length < input.length
  enum : ∀ {n}, 0 < n → n < 16 → ∀ v rest, ∃ p,
    w.readTag (w.writeEnumToArray n v ++ rest) = some (tagOf n 0, p) ∧
    w.readVarint64 p = some (v.signExtend 64, rest)
  fixed64 : ∀ {n}, 0 < n → n < 16 → ∀ (v : BitVec 64) rest,
    w.readTag (w.writeFixed64ToArray n v ++ rest) = some (tagOf n 1, leBytes 8 v.toNat ++ rest)
  string : ∀ {n}, 0 < n → n < 16 → ∀ {s : Bytes}, s.length ≤ kMaxStringLen → ∀ rest, ∃ p,
    w.readTag (w.writeStringMaybeAliased n s ++ rest) = some (tagOf n 2, p) ∧
    w.inlineGreedyStringParser p = some (s, rest)
  bytes : ∀ {n}, 0 < n → n < 16 → ∀ {s : Bytes}, s.length ≤ kMaxStringLen → ∀ rest, ∃ p,
    w.readTag (w.writeBytesMaybeAliased n s ++ rest) = some (tagOf n 2, p) ∧
    w.inlineGreedyStringParser p = some (s, rest)
  parsed : ∀ {p s rest}, w.inlineGreedyStringParser p = some (s, rest) →
    s.length ≤ kMaxStringLen ∧ rest.length ≤ p.length
  varint64 : ∀ {p v rest}, w.readVarint64 p = some (v, rest) → rest.length ≤ p.length
  field : ∀ {t p u rest}, w.unknownFieldParse t p = some (u, rest) → rest.length ≤ p.length
  varint : ∀ {n}, 0 < n → n < 16 → ∀ v rest, ∃ p,
    w.readTag (w.serializeUnknownField (w.writeVarint n v) ++ rest) = some (tagOf n 0, p) ∧
    w.readVarint64 p = some (v, rest)
  unknown : ∀ {t p u q}, w.unknownFieldParse t p = some (u, q) → ∀ rest, ∃ p',
    w.readTag (w.serializeUnknownField u ++ rest) = some (t, p') ∧
    w.unknownFieldParse t p' = some (u, rest)
  enumSize : ∀ {n}, 0 < n → n < 16 → ∀ v, (w.writeEnumToArray n v).length = 1 + w.enumSize v
  fixed64Size : ∀ {n}, 0 < n → n < 16 → ∀ v, (w.writeFixed64ToArray n v).length = 1 + 8
  stringSize : ∀ {n}, 0 < n → n < 16 → ∀ s,
    (w.writeStringMaybeAliased n s).length = 1 + w.stringSize s
  bytesSize : ∀ {n}, 0 < n → n < 16 → ∀ s,
    (w.writeBytesMaybeAliased n s).length = 1 + w.bytesSize s
  unknownSize : ∀ u, (w.serializeUnknownField u).length = w.unknownFieldSize u

/-! ### Functions that keep the promises -/

/- What an unknown field holds; groups are left out. -/
inductive UnknownValue where
  | varint (v : BitVec 64)
  | fixed64 (v : BitVec 64)
  | lengthDelimited (s : Bytes)
  | fixed32 (v : BitVec 32)
  deriving DecidableEq, Repr

structure UnknownField where
  number : Nat
  value : UnknownValue
  deriving DecidableEq, Repr

def writeTag (number wireType : Nat) : Bytes := varint 4 (tagOf number wireType).toNat

def readTag32 (input : Bytes) : Option (BitVec 32 × Bytes) :=
  (readVarint 5 input).map fun r => (.ofNat 32 r.1, r.2)

def readVarint64 (input : Bytes) : Option (BitVec 64 × Bytes) :=
  (readVarint 10 input).map fun r => (.ofNat 64 r.1, r.2)

def writeVarint64 (v : BitVec 64) : Bytes := varint 9 v.toNat

def readFixed (n : Nat) (input : Bytes) : Option (Nat × Bytes) :=
  if n ≤ input.length then some (leVal (input.take n), input.drop n) else none

def readString (input : Bytes) : Option (Bytes × Bytes) :=
  match readVarint 5 input with
  | none => none
  | some (n, rest) =>
    if n ≤ kMaxStringLen ∧ n ≤ rest.length then some (rest.take n, rest.drop n) else none

def writeString (s : Bytes) : Bytes := varint 4 s.length ++ s

def readUnknown (t : BitVec 32) (input : Bytes) : Option (UnknownField × Bytes) :=
  if t.toNat / 8 = 0 then none
  else
    match t.toNat % 8 with
    | 0 => (readVarint64 input).map fun r => (⟨t.toNat / 8, .varint r.1⟩, r.2)
    | 1 => (readFixed 8 input).map fun r => (⟨t.toNat / 8, .fixed64 (.ofNat 64 r.1)⟩, r.2)
    | 2 => (readString input).map fun r => (⟨t.toNat / 8, .lengthDelimited r.1⟩, r.2)
    | 5 => (readFixed 4 input).map fun r => (⟨t.toNat / 8, .fixed32 (.ofNat 32 r.1)⟩, r.2)
    | _ => none

def writeUnknown (u : UnknownField) : Bytes :=
  match u.value with
  | .varint v => writeTag u.number 0 ++ writeVarint64 v
  | .fixed64 v => writeTag u.number 1 ++ leBytes 8 v.toNat
  | .lengthDelimited s => writeTag u.number 2 ++ writeString s
  | .fixed32 v => writeTag u.number 5 ++ leBytes 4 v.toNat

def wire : ProtobufWire UnknownField where
  readTag := readTag32
  readVarint64 := readVarint64
  inlineGreedyStringParser := readString
  unknownFieldParse := readUnknown
  writeVarint number v := ⟨number, .varint v⟩
  writeEnumToArray number v := writeTag number 0 ++ writeVarint64 (v.signExtend 64)
  writeFixed64ToArray number v := writeTag number 1 ++ leBytes 8 v.toNat
  writeStringMaybeAliased number s := writeTag number 2 ++ writeString s
  writeBytesMaybeAliased number s := writeTag number 2 ++ writeString s
  serializeUnknownField := writeUnknown
  enumSize v := (writeVarint64 (v.signExtend 64)).length
  stringSize s := (writeString s).length
  bytesSize s := (writeString s).length
  unknownFieldSize u := (writeUnknown u).length

theorem readTag_varint (t : BitVec 32) (rest : Bytes) :
    readTag32 (varint 4 t.toNat ++ rest) = some (t, rest) := by
  have hlt := t.isLt
  rw [readTag32, readVarint_varint (by omega) (by decide), Option.map_some, BitVec.ofNat_toNat,
    BitVec.setWidth_eq]

theorem readVarint64_write (v : BitVec 64) (rest : Bytes) :
    readVarint64 (writeVarint64 v ++ rest) = some (v, rest) := by
  have hlt := v.isLt
  rw [readVarint64, writeVarint64, readVarint_varint (by omega) (by decide), Option.map_some,
    BitVec.ofNat_toNat, BitVec.setWidth_eq]

theorem readFixed_leBytes {n v : Nat} (hv : v < 256 ^ n) (rest : Bytes) :
    readFixed n (leBytes n v ++ rest) = some (v, rest) := by
  have hlen := length_leBytes n v
  rw [readFixed, if_pos (by rw [List.length_append, hlen]; omega), List.take_left' hlen,
    List.drop_left' hlen, leVal_leBytes, Nat.mod_eq_of_lt hv]

theorem readString_write {s : Bytes} (hs : s.length ≤ kMaxStringLen) (rest : Bytes) :
    readString (writeString s ++ rest) = some (s, rest) := by
  have hlt : s.length < 128 ^ 5 := by
    unfold kMaxStringLen at hs
    omega
  rw [readString, writeString, List.append_assoc, readVarint_varint hlt (by decide)]
  simp only
  rw [if_pos ⟨hs, by rw [List.length_append]; omega⟩, List.take_left' rfl, List.drop_left' rfl]

theorem readVarint64_le {p rest : Bytes} {v : BitVec 64} (h : readVarint64 p = some (v, rest)) :
    rest.length ≤ p.length := by
  obtain ⟨r, hr, hpair⟩ := Option.map_eq_some_iff.mp h
  cases hpair
  exact Nat.le_of_lt (readVarint_lt hr)

theorem readFixed_le {n v : Nat} {p rest : Bytes} (h : readFixed n p = some (v, rest)) :
    rest.length ≤ p.length ∧ v < 256 ^ n := by
  unfold readFixed at h
  split at h
  next hn =>
    cases h
    have hlt := leVal_lt (p.take n)
    rw [List.length_take_of_le hn] at hlt
    rw [List.length_drop]
    exact ⟨Nat.sub_le _ _, hlt⟩
  · cases h

theorem readString_le {p s rest : Bytes} (h : readString p = some (s, rest)) :
    s.length ≤ kMaxStringLen ∧ rest.length ≤ p.length := by
  unfold readString at h
  split at h
  · cases h
  next n q hread =>
    split at h
    next hn =>
      cases h
      have hlt := readVarint_lt hread
      rw [List.length_take_of_le hn.2, List.length_drop]
      exact ⟨hn.1, by omega⟩
    · cases h

theorem tagOf_div_mod (t : BitVec 32) : tagOf (t.toNat / 8) (t.toNat % 8) = t := by
  apply BitVec.eq_of_toNat_eq
  have hlt := t.isLt
  rw [tagOf, BitVec.toNat_ofNat]
  omega

theorem readUnknown_le {t : BitVec 32} {p rest : Bytes} {u : UnknownField}
    (h : readUnknown t p = some (u, rest)) : rest.length ≤ p.length := by
  unfold readUnknown at h
  split at h
  · cases h
  · split at h
    · obtain ⟨r, hr, hpair⟩ := Option.map_eq_some_iff.mp h
      cases hpair
      exact readVarint64_le hr
    · obtain ⟨r, hr, hpair⟩ := Option.map_eq_some_iff.mp h
      cases hpair
      exact (readFixed_le hr).1
    · obtain ⟨r, hr, hpair⟩ := Option.map_eq_some_iff.mp h
      cases hpair
      exact (readString_le hr).2
    · obtain ⟨r, hr, hpair⟩ := Option.map_eq_some_iff.mp h
      cases hpair
      exact (readFixed_le hr).1
    · cases h

theorem readTag_writeTag {t : BitVec 32} {wireType : Nat} (ht : t.toNat % 8 = wireType)
    (payload rest : Bytes) :
    readTag32 (writeTag (t.toNat / 8) wireType ++ payload ++ rest) =
      some (t, payload ++ rest) := by
  rw [← ht, writeTag, tagOf_div_mod, List.append_assoc]
  exact readTag_varint t _

theorem readUnknown_write {t : BitVec 32} {p q : Bytes} {u : UnknownField}
    (h : readUnknown t p = some (u, q)) (rest : Bytes) :
    ∃ p', readTag32 (writeUnknown u ++ rest) = some (t, p') ∧
      readUnknown t p' = some (u, rest) := by
  unfold readUnknown at h ⊢
  split at h
  · cases h
  next hnumber =>
    split at h
    next htype =>
      obtain ⟨r, hr, hpair⟩ := Option.map_eq_some_iff.mp h
      cases hpair
      refine ⟨_, readTag_writeTag htype _ _, ?_⟩
      simp only [if_neg hnumber, readVarint64_write, Option.map_some]
    next htype =>
      obtain ⟨r, hr, hpair⟩ := Option.map_eq_some_iff.mp h
      cases hpair
      have hlt : r.1 < 2 ^ 64 := (readFixed_le hr).2
      have hval : (BitVec.ofNat 64 r.1).toNat = r.1 := by
        rw [BitVec.toNat_ofNat, Nat.mod_eq_of_lt hlt]
      refine ⟨_, readTag_writeTag htype _ _, ?_⟩
      simp only [if_neg hnumber, hval, readFixed_leBytes (n := 8) hlt, Option.map_some]
    next htype =>
      obtain ⟨r, hr, hpair⟩ := Option.map_eq_some_iff.mp h
      cases hpair
      refine ⟨_, readTag_writeTag htype _ _, ?_⟩
      simp only [if_neg hnumber, readString_write (readString_le hr).1, Option.map_some]
    next htype =>
      obtain ⟨r, hr, hpair⟩ := Option.map_eq_some_iff.mp h
      cases hpair
      have hlt : r.1 < 2 ^ 32 := (readFixed_le hr).2
      have hval : (BitVec.ofNat 32 r.1).toNat = r.1 := by
        rw [BitVec.toNat_ofNat, Nat.mod_eq_of_lt hlt]
      refine ⟨_, readTag_writeTag htype _ _, ?_⟩
      simp only [if_neg hnumber, hval, readFixed_leBytes (n := 4) hlt, Option.map_some]
    · cases h

theorem length_writeTag {n : Nat} (hn : n < 16) {wireType : Nat} (ht : wireType < 8) :
    (writeTag n wireType).length = 1 := by
  have hlt : (tagOf n wireType).toNat < 128 := by
    rw [tagOf, BitVec.toNat_ofNat]
    omega
  rw [writeTag, varint_of_lt 4 hlt]
  rfl

theorem wire_lawful : wire.Lawful where
  tag h := by
    obtain ⟨r, hr, hpair⟩ := Option.map_eq_some_iff.mp h
    cases hpair
    exact readVarint_lt hr
  enum _ _ v rest := by
    refine ⟨writeVarint64 (v.signExtend 64) ++ rest, ?_, readVarint64_write _ rest⟩
    show readTag32 (writeTag _ 0 ++ _ ++ rest) = _
    rw [List.append_assoc]
    exact readTag_varint _ _
  fixed64 _ _ v rest := by
    show readTag32 (writeTag _ 1 ++ _ ++ rest) = _
    rw [List.append_assoc]
    exact readTag_varint _ _
  string _ _ s hs rest := by
    refine ⟨writeString s ++ rest, ?_, readString_write hs rest⟩
    show readTag32 (writeTag _ 2 ++ _ ++ rest) = _
    rw [List.append_assoc]
    exact readTag_varint _ _
  bytes _ _ s hs rest := by
    refine ⟨writeString s ++ rest, ?_, readString_write hs rest⟩
    show readTag32 (writeTag _ 2 ++ _ ++ rest) = _
    rw [List.append_assoc]
    exact readTag_varint _ _
  parsed h := readString_le h
  varint64 h := readVarint64_le h
  field h := readUnknown_le h
  varint _ _ v rest := by
    refine ⟨writeVarint64 v ++ rest, ?_, readVarint64_write v rest⟩
    show readTag32 (writeTag _ 0 ++ _ ++ rest) = _
    rw [List.append_assoc]
    exact readTag_varint _ _
  unknown h rest := readUnknown_write h rest
  enumSize _ hn v := by
    show (writeTag _ 0 ++ _).length = _
    rw [List.length_append, length_writeTag hn (by decide)]
    rfl
  fixed64Size _ hn v := by
    show (writeTag _ 1 ++ _).length = _
    rw [List.length_append, length_writeTag hn (by decide), length_leBytes]
  stringSize _ hn s := by
    show (writeTag _ 2 ++ _).length = _
    rw [List.length_append, length_writeTag hn (by decide)]
    rfl
  bytesSize _ hn s := by
    show (writeTag _ 2 ++ _).length = _
    rw [List.length_append, length_writeTag hn (by decide)]
    rfl
  unknownSize _ := rfl

end TstMuduo.Net.Pb
