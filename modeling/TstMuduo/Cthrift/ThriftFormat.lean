import TstMuduo.Cthrift.BinaryProtocol
import TstMuduo.Lib.Wire
import Mathlib.Data.BitVec

/-!
# The binary format (cthrift/cthrift_tbinary_protocol.cc)

The writing and reading functions of `CthriftTBinaryProtocolT` over a transport, and what is written
with them for a value of any type: fields, elements and entries one behind the other. The reading
side goes by the types that it reads, with the calls of `TProtocol::skip`.
-/

namespace TstMuduo.Cthrift
open TstMuduo.Lib TstMuduo.Net

/-- A transport (`thrift/transport/TTransport.h`) that returns the bytes that were written, in their
order; `unread` are those that were not read yet. A `borrow` may fail, and if it succeeds it
consumes nothing. -/
structure TTransport (σ : Type) where
  write : σ → Bytes → σ
  readAll : σ → Nat → Except TException (Bytes × σ)
  borrow : σ → Nat → Option Bytes × σ
  consume : σ → Nat → Except TException σ
  unread : σ → Bytes
  unread_write : ∀ s bytes, unread (write s bytes) = unread s ++ bytes
  readAll_ok : ∀ s n, n ≤ (unread s).length →
    ∃ t, readAll s n = .ok ((unread s).take n, t) ∧ unread t = (unread s).drop n
  unread_borrow : ∀ s n, unread (borrow s n).2 = unread s
  borrow_take : ∀ s n buf, (borrow s n).1 = some buf → buf.take n = (unread s).take n
  consume_ok : ∀ s n buf, (borrow s n).1 = some buf → n ≤ (unread s).length →
    ∃ t, consume (borrow s n).2 n = .ok t ∧ unread t = (unread s).drop n

/-- What a call may throw, with the text of a bad version; the last two are no exceptions of the
source, but a type without values and the end of the passes that the model makes. -/
inductive Thrown where
  | exception (e : TException)
  | protocol_BAD_VERSION (text : String)
  | noValue
  | noFuel
  deriving DecidableEq, Repr

abbrev Call (σ α : Type) := StateT σ (Except Thrown) α

theorem pure_call {σ α : Type} (a : α) (s : σ) : (pure a : Call σ α) s = .ok (a, s) := rfl

/- `enum TType` (`thrift/protocol/TProtocol.h:171`), the types that have values. -/
inductive TType where
  | T_BOOL
  | T_BYTE
  | T_DOUBLE
  | T_I16
  | T_I32
  | T_I64
  | T_STRING
  | T_STRUCT
  | T_MAP
  | T_SET
  | T_LIST
  deriving DecidableEq, Repr

def T_STOP : Byte := 0

def TType.toByte : TType → Byte
  | T_BOOL => 2
  | T_BYTE => 3
  | T_DOUBLE => 4
  | T_I16 => 6
  | T_I32 => 8
  | T_I64 => 10
  | T_STRING => 11
  | T_STRUCT => 12
  | T_MAP => 13
  | T_SET => 14
  | T_LIST => 15

def TType.ofByte (b : Byte) : Option TType :=
  [T_BOOL, T_BYTE, T_DOUBLE, T_I16, T_I32, T_I64, T_STRING, T_STRUCT, T_MAP, T_SET, T_LIST].find?
    (·.toByte = b)

inductive TMessageType where
  | T_CALL
  | T_REPLY
  | T_EXCEPTION
  | T_ONEWAY
  deriving DecidableEq, Repr

def TMessageType.toInt32 : TMessageType → BitVec 32
  | T_CALL => 1
  | T_REPLY => 2
  | T_EXCEPTION => 3
  | T_ONEWAY => 4

def htonl (host : Endian) (hostlong : BitVec 32) : BitVec 32 := host.htobe 4 hostlong
def ntohl (host : Endian) (netlong : BitVec 32) : BitVec 32 := host.htobe 4 netlong

/- `htonll` and `ntohll` (`cthrift_tbinary_protocol.cc:14`): `htonl` takes the low half of its
argument, and its result is unsigned. -/
def htonll (host : Endian) (val : BitVec 64) : BitVec 64 :=
  ((htonl host (val.setWidth 32)).setWidth 64 <<< 32) +
    (htonl host ((val.sshiftRight 32).setWidth 32)).setWidth 64

def ntohll (host : Endian) (val : BitVec 64) : BitVec 64 :=
  ((ntohl host (val.setWidth 32)).setWidth 64 <<< 32) +
    (ntohl host ((val.sshiftRight 32).setWidth 32)).setWidth 64

/- The limits and modes of a `CthriftTBinaryProtocolT`. -/
structure CthriftTBinaryProtocolT extends CthriftTBinaryProtocol where
  container_limit : Int
  deriving DecidableEq, Repr

namespace CthriftTBinaryProtocolT

variable {σ : Type} (host : Endian) (trans : TTransport σ) (p : CthriftTBinaryProtocolT)

/-! ### Writing functions -/

def write (bytes : Bytes) : Call σ Unit := fun s => .ok ((), trans.write s bytes)

def writeBool (value : Bool) : Call σ (BitVec 32) := do
  write trans [if value then 1 else 0]
  return 1

def writeByte (byte : Byte) : Call σ (BitVec 32) := do
  write trans [byte]
  return 1

def writeI16 (i16 : BitVec 16) : Call σ (BitVec 32) := do
  write trans (host.objectBytes 2 (host.htobe 2 i16))
  return 2

def writeI32 (i32 : BitVec 32) : Call σ (BitVec 32) := do
  write trans (host.objectBytes 4 (htonl host i32))
  return 4

def writeI64 (i64 : BitVec 64) : Call σ (BitVec 32) := do
  write trans (host.objectBytes 8 (htonll host i64))
  return 8

def writeDouble (dub : BitVec 64) : Call σ (BitVec 32) := do
  write trans (host.objectBytes 8 (htonll host dub))
  return 8

def writeString (str : Bytes) : Call σ (BitVec 32) := do
  let size : BitVec 32 := .ofNat 32 str.length
  let result ← writeI32 host trans size
  if 0 < size.toNat then
    write trans (str.take size.toNat)
  return result + size

/- The calls with `wsize += …`, and those that write nothing. -/
def writeMessageBegin (name : Bytes) (messageType : TMessageType) (seqid : BitVec 32) :
    Call σ (BitVec 32) := do
  if p.strict_write then
    let version := VERSION_1 ||| messageType.toInt32
    let n1 ← writeI32 host trans version
    let n2 ← writeString host trans name
    let n3 ← writeI32 host trans seqid
    return n1 + n2 + n3
  else
    let n1 ← writeString host trans name
    let n2 ← writeByte trans (.ofBitVec (messageType.toInt32.setWidth 8))
    let n3 ← writeI32 host trans seqid
    return n1 + n2 + n3

def writeMessageEnd : Call σ (BitVec 32) := return 0
def writeStructBegin : Call σ (BitVec 32) := return 0
def writeStructEnd : Call σ (BitVec 32) := return 0

def writeFieldBegin (fieldType : Byte) (fieldId : BitVec 16) : Call σ (BitVec 32) := do
  let n1 ← writeByte trans fieldType
  let n2 ← writeI16 host trans fieldId
  return n1 + n2

def writeFieldEnd : Call σ (BitVec 32) := return 0
def writeFieldStop : Call σ (BitVec 32) := writeByte trans T_STOP

def writeMapBegin (keyType valType : Byte) (size : BitVec 32) : Call σ (BitVec 32) := do
  let n1 ← writeByte trans keyType
  let n2 ← writeByte trans valType
  let n3 ← writeI32 host trans size
  return n1 + n2 + n3

def writeMapEnd : Call σ (BitVec 32) := return 0

/- `writeListBegin` and `writeSetBegin`. -/
def writeElemsBegin (elemType : Byte) (size : BitVec 32) : Call σ (BitVec 32) := do
  let n1 ← writeByte trans elemType
  let n2 ← writeI32 host trans size
  return n1 + n2

def writeListBegin (elemType : Byte) (size : BitVec 32) : Call σ (BitVec 32) :=
  writeElemsBegin host trans elemType size
def writeListEnd : Call σ (BitVec 32) := return 0
def writeSetBegin (elemType : Byte) (size : BitVec 32) : Call σ (BitVec 32) :=
  writeElemsBegin host trans elemType size
def writeSetEnd : Call σ (BitVec 32) := return 0

/-! ### Reading functions -/

def readAll (len : Nat) : Call σ Bytes := fun s =>
  match trans.readAll s len with
  | .ok r => .ok r
  | .error e => .error (.exception e)

def borrow (len : Nat) : Call σ (Option Bytes) := fun s => .ok (trans.borrow s len)

def consume (len : Nat) : Call σ Unit := fun s =>
  match trans.consume s len with
  | .ok s => .ok ((), s)
  | .error e => .error (.exception e)

def readBool : Call σ (Bool × BitVec 32) := do
  let b ← readAll trans 1
  return (b.headD 0 ≠ 0, 1)

def readByte : Call σ (Byte × BitVec 32) := do
  let b ← readAll trans 1
  return (b.headD 0, 1)

def readI16 : Call σ (BitVec 16 × BitVec 32) := do
  let b ← readAll trans 2
  return (host.htobe 2 (host.ofObjectBytes 2 b), 2)

def readI32 : Call σ (BitVec 32 × BitVec 32) := do
  let b ← readAll trans 4
  return (ntohl host (host.ofObjectBytes 4 b), 4)

def readI64 : Call σ (BitVec 64 × BitVec 32) := do
  let b ← readAll trans 8
  return (ntohll host (host.ofObjectBytes 8 b), 8)

def readDouble : Call σ (BitVec 64 × BitVec 32) := do
  let b ← readAll trans 8
  return (ntohll host (host.ofObjectBytes 8 b), 8)

/- `readStringBody` (`cthrift_tbinary_protocol.cc:558`). -/
def readStringBody (size : BitVec 32) : Call σ (Bytes × BitVec 32) := do
  if size.toInt < 0 then throw (.exception .protocol_NEGATIVE_SIZE)
  if 0 < p.string_limit ∧ p.string_limit < size.toInt then
    throw (.exception .protocol_SIZE_LIMIT)
  if size = 0 then return ([], 0)
  match ← borrow trans size.toNat with
  | some borrow_buf =>
    consume trans size.toNat
    return (borrow_buf.take size.toNat, size)
  | none =>
    let string_buf ← readAll trans size.toNat
    return (string_buf, size)

def readString : Call σ (Bytes × BitVec 32) := do
  let (size, result) ← readI32 host trans
  let (str, n) ← readStringBody trans p size
  return (str, result + n)

/- `readMessageBegin` (`cthrift_tbinary_protocol.cc:334`): name, type and id. -/
def readMessageBegin : Call σ ((Bytes × BitVec 32 × BitVec 32) × BitVec 32) := do
  let (sz, n1) ← readI32 host trans
  if sz.toInt < 0 then
    if sz &&& VERSION_MASK ≠ VERSION_1 then throw (.protocol_BAD_VERSION "Bad version identifier")
    let (name, n2) ← readString host trans p
    let (seqid, n3) ← readI32 host trans
    return ((name, sz &&& 0x000000ff, seqid), n1 + n2 + n3)
  else if p.strict_read then
    throw (.protocol_BAD_VERSION "No version identifier... old protocol client in strict mode?")
  else
    let (name, n2) ← readStringBody trans p sz
    let (type, n3) ← readByte trans
    let (seqid, n4) ← readI32 host trans
    return ((name, type.toBitVec.signExtend 32, seqid), n1 + n2 + n3 + n4)

def readMessageEnd : Call σ (Unit × BitVec 32) := return ((), 0)
def readStructBegin : Call σ (Unit × BitVec 32) := return ((), 0)
def readStructEnd : Call σ (Unit × BitVec 32) := return ((), 0)

def readFieldBegin : Call σ ((Byte × BitVec 16) × BitVec 32) := do
  let (fieldType, n1) ← readByte trans
  if fieldType = T_STOP then return ((fieldType, 0), n1)
  let (fieldId, n2) ← readI16 host trans
  return ((fieldType, fieldId), n1 + n2)

def readFieldEnd : Call σ (Unit × BitVec 32) := return ((), 0)

def checkSize (sizei : BitVec 32) : Call σ Unit := do
  if sizei.toInt < 0 then throw (.exception .protocol_NEGATIVE_SIZE)
  else if p.container_limit ≠ 0 ∧ p.container_limit < sizei.toInt then
    throw (.exception .protocol_SIZE_LIMIT)

def readMapBegin : Call σ ((Byte × Byte × BitVec 32) × BitVec 32) := do
  let (keyType, n1) ← readByte trans
  let (valType, n2) ← readByte trans
  let (sizei, n3) ← readI32 host trans
  checkSize p sizei
  return ((keyType, valType, sizei), n1 + n2 + n3)

def readMapEnd : Call σ (Unit × BitVec 32) := return ((), 0)

/- `readListBegin` and `readSetBegin`. -/
def readElemsBegin : Call σ ((Byte × BitVec 32) × BitVec 32) := do
  let (elemType, n1) ← readByte trans
  let (sizei, n2) ← readI32 host trans
  checkSize p sizei
  return ((elemType, sizei), n1 + n2)

def readListBegin : Call σ ((Byte × BitVec 32) × BitVec 32) := readElemsBegin host trans p
def readListEnd : Call σ (Unit × BitVec 32) := return ((), 0)
def readSetBegin : Call σ ((Byte × BitVec 32) × BitVec 32) := readElemsBegin host trans p
def readSetEnd : Call σ (Unit × BitVec 32) := return ((), 0)

end CthriftTBinaryProtocolT

/-! ### Values -/

mutual

/-- The values of a type; a `double` is given by its bits. -/
inductive Value : TType → Type
  | bool (value : Bool) : Value .T_BOOL
  | byte (byte : Byte) : Value .T_BYTE
  | i16 (i16 : BitVec 16) : Value .T_I16
  | i32 (i32 : BitVec 32) : Value .T_I32
  | i64 (i64 : BitVec 64) : Value .T_I64
  | double (dub : BitVec 64) : Value .T_DOUBLE
  | string (str : Bytes) : Value .T_STRING
  | struct (fields : Fields) : Value .T_STRUCT
  | map (keyType valType : TType) (entries : Entries keyType valType) : Value .T_MAP
  | set (elemType : TType) (elems : Elems elemType) : Value .T_SET
  | list (elemType : TType) (elems : Elems elemType) : Value .T_LIST

inductive Fields : Type
  | nil : Fields
  | cons (fieldType : TType) (fieldId : BitVec 16) (value : Value fieldType) (rest : Fields) :
      Fields

inductive Entries : TType → TType → Type
  | nil {keyType valType : TType} : Entries keyType valType
  | cons {keyType valType : TType} (key : Value keyType) (value : Value valType)
      (rest : Entries keyType valType) : Entries keyType valType

inductive Elems : TType → Type
  | nil {elemType : TType} : Elems elemType
  | cons {elemType : TType} (value : Value elemType) (rest : Elems elemType) : Elems elemType

end

def Entries.length {k v : TType} : Entries k v → Nat
  | .nil => 0
  | .cons _ _ rest => rest.length + 1

def Elems.length {t : TType} : Elems t → Nat
  | .nil => 0
  | .cons _ rest => rest.length + 1

/- The counts that the calls return, in the order of the calls. -/
abbrev Counts := List (BitVec 32)

namespace CthriftTBinaryProtocolT

variable {σ : Type} (host : Endian) (trans : TTransport σ) (p : CthriftTBinaryProtocolT)

mutual

/-- The calls that write a value. -/
def writeValue {t : TType} : Value t → Call σ Counts
  | .bool value => do
    let n ← writeBool trans value
    return [n]
  | .byte byte => do
    let n ← writeByte trans byte
    return [n]
  | .i16 i16 => do
    let n ← writeI16 host trans i16
    return [n]
  | .i32 i32 => do
    let n ← writeI32 host trans i32
    return [n]
  | .i64 i64 => do
    let n ← writeI64 host trans i64
    return [n]
  | .double dub => do
    let n ← writeDouble host trans dub
    return [n]
  | .string str => do
    let n ← writeString host trans str
    return [n]
  | .struct fields => do
    let n1 ← writeStructBegin
    let ns ← writeFields fields
    let n2 ← writeStructEnd
    return n1 :: (ns ++ [n2])
  | .map keyType valType entries => do
    let n1 ← writeMapBegin host trans keyType.toByte valType.toByte (.ofNat 32 entries.length)
    let ns ← writeEntries entries
    let n2 ← writeMapEnd
    return n1 :: (ns ++ [n2])
  | .set elemType elems => do
    let n1 ← writeSetBegin host trans elemType.toByte (.ofNat 32 elems.length)
    let ns ← writeElems elems
    let n2 ← writeSetEnd
    return n1 :: (ns ++ [n2])
  | .list elemType elems => do
    let n1 ← writeListBegin host trans elemType.toByte (.ofNat 32 elems.length)
    let ns ← writeElems elems
    let n2 ← writeListEnd
    return n1 :: (ns ++ [n2])

def writeFields : Fields → Call σ Counts
  | .nil => do
    let n ← writeFieldStop trans
    return [n]
  | .cons fieldType fieldId value rest => do
    let n1 ← writeFieldBegin host trans fieldType.toByte fieldId
    let ns ← writeValue value
    let n2 ← writeFieldEnd
    let ms ← writeFields rest
    return n1 :: (ns ++ n2 :: ms)

def writeEntries {k v : TType} : Entries k v → Call σ Counts
  | .nil => return []
  | .cons key value rest => do
    let ns ← writeValue key
    let ms ← writeValue value
    let ls ← writeEntries rest
    return ns ++ (ms ++ ls)

def writeElems {t : TType} : Elems t → Call σ Counts
  | .nil => return []
  | .cons value rest => do
    let ns ← writeValue value
    let ms ← writeElems rest
    return ns ++ ms

end

def typeOf (b : Byte) : Call σ TType :=
  match TType.ofByte b with
  | some t => pure t
  | none => throw .noValue

mutual

/-- The calls that read a value of a type (`skip` in `thrift/protocol/TProtocol.h:670`), with the
value. -/
def readValue : Nat → (t : TType) → Call σ (Value t × Counts)
  | 0, _ => throw .noFuel
  | _ + 1, .T_BOOL => do
    let (value, n) ← readBool trans
    return (.bool value, [n])
  | _ + 1, .T_BYTE => do
    let (byte, n) ← readByte trans
    return (.byte byte, [n])
  | _ + 1, .T_I16 => do
    let (i16, n) ← readI16 host trans
    return (.i16 i16, [n])
  | _ + 1, .T_I32 => do
    let (i32, n) ← readI32 host trans
    return (.i32 i32, [n])
  | _ + 1, .T_I64 => do
    let (i64, n) ← readI64 host trans
    return (.i64 i64, [n])
  | _ + 1, .T_DOUBLE => do
    let (dub, n) ← readDouble host trans
    return (.double dub, [n])
  | _ + 1, .T_STRING => do
    let (str, n) ← readString host trans p
    return (.string str, [n])
  | fuel + 1, .T_STRUCT => do
    let (_, n1) ← readStructBegin
    let (fields, ns) ← readFields fuel
    let (_, n2) ← readStructEnd
    return (.struct fields, n1 :: (ns ++ [n2]))
  | fuel + 1, .T_MAP => do
    let ((k, v, size), n1) ← readMapBegin host trans p
    let keyType ← typeOf k
    let valType ← typeOf v
    let (entries, ns) ← readEntries fuel keyType valType size.toNat
    let (_, n2) ← readMapEnd
    return (.map keyType valType entries, n1 :: (ns ++ [n2]))
  | fuel + 1, .T_SET => do
    let ((e, size), n1) ← readSetBegin host trans p
    let elemType ← typeOf e
    let (elems, ns) ← readElems fuel elemType size.toNat
    let (_, n2) ← readSetEnd
    return (.set elemType elems, n1 :: (ns ++ [n2]))
  | fuel + 1, .T_LIST => do
    let ((e, size), n1) ← readListBegin host trans p
    let elemType ← typeOf e
    let (elems, ns) ← readElems fuel elemType size.toNat
    let (_, n2) ← readListEnd
    return (.list elemType elems, n1 :: (ns ++ [n2]))

def readFields : Nat → Call σ (Fields × Counts)
  | 0 => throw .noFuel
  | fuel + 1 => do
    let ((type, fieldId), n1) ← readFieldBegin host trans
    if type = T_STOP then return (.nil, [n1])
    let fieldType ← typeOf type
    let (value, ns) ← readValue fuel fieldType
    let (_, n2) ← readFieldEnd
    let (rest, ms) ← readFields fuel
    return (.cons fieldType fieldId value rest, n1 :: (ns ++ n2 :: ms))

def readEntries : Nat → (k v : TType) → Nat → Call σ (Entries k v × Counts)
  | 0, _, _, _ => throw .noFuel
  | _ + 1, _, _, 0 => return (.nil, [])
  | fuel + 1, k, v, size + 1 => do
    let (key, ns) ← readValue fuel k
    let (value, ms) ← readValue fuel v
    let (rest, ls) ← readEntries fuel k v size
    return (.cons key value rest, ns ++ (ms ++ ls))

def readElems : Nat → (t : TType) → Nat → Call σ (Elems t × Counts)
  | 0, _, _ => throw .noFuel
  | _ + 1, _, 0 => return (.nil, [])
  | fuel + 1, t, size + 1 => do
    let (value, ns) ← readValue fuel t
    let (rest, ms) ← readElems fuel t size
    return (.cons value rest, ns ++ ms)

end

/-- A string whose length fits an `int32_t` and is within the limit. -/
def FitsString (str : Bytes) : Prop :=
  str.length < 2 ^ 31 ∧ (0 < p.string_limit → (str.length : Int) ≤ p.string_limit)

/-- A number of elements that fits an `int32_t` and is within the limit. -/
def FitsSize (size : Nat) : Prop :=
  size < 2 ^ 31 ∧ (p.container_limit ≠ 0 → (size : Int) ≤ p.container_limit)

mutual

/-- All strings and containers of the value are within the limits. -/
def FitsValue {t : TType} : Value t → Prop
  | .bool _ | .byte _ | .i16 _ | .i32 _ | .i64 _ | .double _ => True
  | .string str => FitsString p str
  | .struct fields => FitsFields fields
  | .map _ _ entries => FitsSize p entries.length ∧ FitsEntries entries
  | .set _ elems => FitsSize p elems.length ∧ FitsElems elems
  | .list _ elems => FitsSize p elems.length ∧ FitsElems elems

def FitsFields : Fields → Prop
  | .nil => True
  | .cons _ _ value rest => FitsValue value ∧ FitsFields rest

def FitsEntries {k v : TType} : Entries k v → Prop
  | .nil => True
  | .cons key value rest => FitsValue key ∧ FitsValue value ∧ FitsEntries rest

def FitsElems {t : TType} : Elems t → Prop
  | .nil => True
  | .cons value rest => FitsValue value ∧ FitsElems rest

end

end CthriftTBinaryProtocolT

mutual

/-- The number of passes that reading the value takes at most. -/
def Value.passes {t : TType} : Value t → Nat
  | .bool _ | .byte _ | .i16 _ | .i32 _ | .i64 _ | .double _ | .string _ => 1
  | .struct fields => fields.passes + 1
  | .map _ _ entries => entries.passes + 1
  | .set _ elems => elems.passes + 1
  | .list _ elems => elems.passes + 1

def Fields.passes : Fields → Nat
  | .nil => 1
  | .cons _ _ value rest => value.passes + rest.passes + 1

def Entries.passes {k v : TType} : Entries k v → Nat
  | .nil => 1
  | .cons key value rest => key.passes + value.passes + rest.passes + 1

def Elems.passes {t : TType} : Elems t → Nat
  | .nil => 1
  | .cons value rest => value.passes + rest.passes + 1

end

/-! ### Integers -/

theorem toNat_upper (x : BitVec 64) :
    ((x.sshiftRight 32).setWidth 32).toNat = x.toNat / 4294967296 := by
  have hlogical : (x.sshiftRight 32).setWidth 32 = (x >>> 32).setWidth 32 := by
    apply BitVec.eq_of_getLsbD_eq
    intro i hi
    rw [BitVec.getLsbD_setWidth, BitVec.getLsbD_setWidth, BitVec.getLsbD_sshiftRight,
      BitVec.getLsbD_ushiftRight, if_pos (by omega), decide_eq_false (by omega : ¬ 64 ≤ i),
      Bool.not_false, Bool.true_and]
  have hx := x.isLt
  rw [hlogical, BitVec.toNat_setWidth, BitVec.toNat_ushiftRight, Nat.shiftRight_eq_div_pow]
  omega

theorem toNat_halves (a b : BitVec 32) :
    ((a.setWidth 64 <<< 32) + b.setWidth 64 : BitVec 64).toNat =
      a.toNat * 4294967296 + b.toNat := by
  have ha := a.isLt
  have hb := b.isLt
  simp only [BitVec.toNat_setWidth, BitVec.toNat_add, BitVec.toNat_shiftLeft, Nat.shiftLeft_eq]
  omega

theorem ntohl_htonl (host : Endian) (x : BitVec 32) : ntohl host (htonl host x) = x :=
  host.htobe_htobe 4 x

theorem ntohll_htonll (host : Endian) (val : BitVec 64) : ntohll host (htonll host val) = val := by
  have hlow : (htonll host val).setWidth 32 =
      htonl host ((val.sshiftRight 32).setWidth 32) := by
    apply BitVec.eq_of_toNat_eq
    rw [BitVec.toNat_setWidth, htonll, toNat_halves, Nat.mul_add_mod']
    exact Nat.mod_eq_of_lt (BitVec.isLt _)
  have hup : ((htonll host val).sshiftRight 32).setWidth 32 = htonl host (val.setWidth 32) := by
    have hlt := (htonl host ((val.sshiftRight 32).setWidth 32)).isLt
    apply BitVec.eq_of_toNat_eq
    rw [toNat_upper, htonll, toNat_halves]
    omega
  have hval := val.isLt
  apply BitVec.eq_of_toNat_eq
  rw [ntohll, toNat_halves, hlow, hup, ntohl_htonl, ntohl_htonl, toNat_upper,
    BitVec.toNat_setWidth]
  omega

namespace CthriftTBinaryProtocolT

variable {σ : Type} {host : Endian} {trans : TTransport σ} {p : CthriftTBinaryProtocolT}

/-! ### Each function reads what its counterpart has written -/

theorem write_writes (bytes : Bytes) : Writes trans.unread (write trans bytes) bytes () :=
  fun s => ⟨_, rfl, trans.unread_write s bytes⟩

theorem readAll_reads {n : Nat} {bytes : Bytes} (hlen : bytes.length = n) :
    Reads trans.unread (readAll trans n) bytes bytes := by
  intro s rest hs
  obtain ⟨t, ht, hunread⟩ := trans.readAll_ok s n (by rw [hs, List.length_append]; omega)
  rw [hs, ← hlen, List.take_left'] at ht
  · rw [hs, ← hlen, List.drop_left'] at hunread
    · exact ⟨t, by rw [readAll, ← hlen, ht], hunread⟩
    · rfl
  · rfl

theorem roundTrip_bytes {α : Type} {n : Nat} {bytes : Bytes} {f : Bytes → α} {a : α}
    {count : BitVec 32} (hlen : bytes.length = n) (hf : f bytes = a) :
    RoundTrip trans.unread (write trans bytes >>= fun _ => pure count)
      (readAll trans n >>= fun b => pure (f b, count)) bytes a count := by
  subst hf
  exact ⟨(write_writes bytes).map fun _ => count, (readAll_reads hlen).map fun b => (f b, count)⟩

theorem bool_roundTrip (value : Bool) :
    RoundTrip trans.unread (writeBool trans value) (readBool trans)
      [if value then 1 else 0] value 1 := by
  apply roundTrip_bytes rfl
  cases value with
  | false => rfl
  | true => rfl

theorem byte_roundTrip (byte : Byte) :
    RoundTrip trans.unread (writeByte trans byte) (readByte trans) [byte] byte 1 :=
  roundTrip_bytes rfl rfl

theorem i16_roundTrip (i16 : BitVec 16) :
    RoundTrip trans.unread (writeI16 host trans i16) (readI16 host trans)
      (host.objectBytes 2 (host.htobe 2 i16)) i16 2 := by
  apply roundTrip_bytes (host.length_objectBytes 2 _)
  rw [host.ofObjectBytes_objectBytes 2]
  exact host.htobe_htobe 2 i16

abbrev i32Bytes (host : Endian) (i32 : BitVec 32) : Bytes := host.objectBytes 4 (htonl host i32)

theorem i32_roundTrip (i32 : BitVec 32) :
    RoundTrip trans.unread (writeI32 host trans i32) (readI32 host trans) (i32Bytes host i32) i32
      4 := by
  apply roundTrip_bytes (host.length_objectBytes 4 _)
  rw [host.ofObjectBytes_objectBytes 4]
  exact ntohl_htonl host i32

theorem i64_roundTrip (i64 : BitVec 64) :
    RoundTrip trans.unread (writeI64 host trans i64) (readI64 host trans)
      (host.objectBytes 8 (htonll host i64)) i64 8 := by
  apply roundTrip_bytes (host.length_objectBytes 8 _)
  rw [host.ofObjectBytes_objectBytes 8]
  exact ntohll_htonll host i64

theorem double_roundTrip (dub : BitVec 64) :
    RoundTrip trans.unread (writeDouble host trans dub) (readDouble host trans)
      (host.objectBytes 8 (htonll host dub)) dub 8 :=
  i64_roundTrip dub

theorem toInt_ofNat_size {n : Nat} (hn : n < 2 ^ 31) :
    (BitVec.ofNat 32 n).toInt = n ∧ (BitVec.ofNat 32 n).toNat = n := by
  have hmod : n % 2 ^ 32 = n := Nat.mod_eq_of_lt (by omega)
  have hnat : (BitVec.ofNat 32 n).toNat = n := by rw [BitVec.toNat_ofNat, hmod]
  refine ⟨?_, hnat⟩
  rw [BitVec.toInt_eq_toNat_of_lt (by rw [hnat]; omega), hnat]

theorem readStringBody_reads {str : Bytes} (hfit : FitsString p str) :
    Reads trans.unread (readStringBody trans p (.ofNat 32 str.length)) str
      (str, .ofNat 32 str.length) := by
  obtain ⟨hint, hnat⟩ := toInt_ofNat_size hfit.1
  have hneg : ¬ (BitVec.ofNat 32 str.length).toInt < 0 := by omega
  have hlimit : ¬ (0 < p.string_limit ∧ p.string_limit < (BitVec.ofNat 32 str.length).toInt) := by
    rintro ⟨h0, hgt⟩
    have hle := hfit.2 h0
    omega
  unfold readStringBody
  rw [if_neg hneg, if_neg hlimit]
  intro s rest hs
  by_cases hzero : BitVec.ofNat 32 str.length = 0
  · have hnil : str = [] := by
      rw [hzero] at hnat
      exact List.length_eq_zero_iff.mp hnat.symm
    subst hnil
    exact ⟨s, rfl, hs⟩
  · have hlen : str.length ≤ (trans.unread s).length := by
      rw [hs, List.length_append]
      omega
    have htake : (trans.unread s).take str.length = str := by rw [hs, List.take_left' rfl]
    have hdrop : (trans.unread s).drop str.length = rest := by rw [hs, List.drop_left' rfl]
    rw [if_neg hzero, hnat]
    cases hb : (trans.borrow s str.length).1 with
    | some buf =>
      obtain ⟨t, ht, hunread⟩ := trans.consume_ok s str.length buf hb hlen
      have hbuf := trans.borrow_take s str.length buf hb
      refine ⟨t, ?_, hunread.trans hdrop⟩
      simp only [bind, StateT.bind, borrow, Except.bind, hb, consume, ht, pure_call, hbuf,
        htake]
    | none =>
      have hsame := trans.unread_borrow s str.length
      obtain ⟨t, ht, hunread⟩ := trans.readAll_ok (trans.borrow s str.length).2 str.length
        (by rw [hsame]; exact hlen)
      rw [hsame] at ht hunread
      refine ⟨t, ?_, hunread.trans hdrop⟩
      simp only [bind, StateT.bind, borrow, Except.bind, hb, readAll, ht, pure_call, htake]

theorem stringBody_writes {str : Bytes} (hlen : str.length < 2 ^ 31) (n : BitVec 32) :
    Writes trans.unread (do
      if 0 < (BitVec.ofNat 32 str.length).toNat then
        write trans (str.take (BitVec.ofNat 32 str.length).toNat)
      return n : Call σ (BitVec 32)) str n := by
  rw [(toInt_ofNat_size hlen).2, List.take_length]
  by_cases hpos : 0 < str.length
  · rw [if_pos hpos]
    exact (write_writes str).map fun _ => n
  · have hnil : str = [] := List.length_eq_zero_iff.mp (Nat.eq_zero_of_not_pos hpos)
    subst hnil
    exact (RoundTrip.pure () n).writes

theorem string_roundTrip {str : Bytes} (hfit : FitsString p str) :
    RoundTrip trans.unread (writeString host trans str) (readString host trans p)
      (i32Bytes host (.ofNat 32 str.length) ++ str) str (4 + .ofNat 32 str.length) where
  writes := (i32_roundTrip _).writes.bind (stringBody_writes hfit.1 _)
  reads := (i32_roundTrip _).reads.bind ((readStringBody_reads hfit).map fun x => (x.1, 4 + x.2))

theorem version_word (type : TMessageType) :
    (VERSION_1 ||| type.toInt32).toInt < 0 ∧
      (VERSION_1 ||| type.toInt32) &&& VERSION_MASK = VERSION_1 ∧
      (VERSION_1 ||| type.toInt32) &&& 0x000000ff = type.toInt32 := by
  cases type <;> decide

theorem type_byte (type : TMessageType) :
    (UInt8.ofBitVec (type.toInt32.setWidth 8)).toBitVec.signExtend 32 = type.toInt32 := by
  cases type <;> rfl

theorem strictHeader_roundTrip {name : Bytes} (hstrict : p.strict_write = true)
    (hfit : FitsString p name) (type : TMessageType) (seqid : BitVec 32) :
    RoundTrip trans.unread (writeMessageBegin host trans p name type seqid)
      (readMessageBegin host trans p)
      (i32Bytes host (VERSION_1 ||| type.toInt32) ++
        ((i32Bytes host (.ofNat 32 name.length) ++ name) ++ i32Bytes host seqid))
      (name, type.toInt32, seqid) (4 + (4 + .ofNat 32 name.length) + 4) := by
  obtain ⟨hneg, hversion, htype⟩ := version_word type
  unfold writeMessageBegin readMessageBegin
  rw [if_pos hstrict]
  apply (i32_roundTrip _).bind
  dsimp only
  rw [if_pos hneg, if_neg (not_not.mpr hversion), htype]
  exact (string_roundTrip hfit).bind ((i32_roundTrip seqid).last (.pure _ _))

theorem oldHeader_roundTrip {name : Bytes} (hstrict : ¬ p.strict_write = true)
    (hread : p.strict_read = false) (hfit : FitsString p name) (type : TMessageType)
    (seqid : BitVec 32) :
    RoundTrip trans.unread (writeMessageBegin host trans p name type seqid)
      (readMessageBegin host trans p)
      ((i32Bytes host (.ofNat 32 name.length) ++ name) ++
        ([.ofBitVec (type.toInt32.setWidth 8)] ++ i32Bytes host seqid))
      (name, type.toInt32, seqid) (4 + .ofNat 32 name.length + 1 + 4) where
  writes := by
    unfold writeMessageBegin
    rw [if_neg hstrict]
    exact (string_roundTrip hfit).writes.bind
      ((byte_roundTrip _).writes.bind ((i32_roundTrip seqid).writes.map fun n => _ + n))
  reads := by
    have hneg : ¬ (BitVec.ofNat 32 name.length).toInt < 0 := by
      rw [(toInt_ofNat_size hfit.1).1]
      omega
    unfold readMessageBegin
    rw [List.append_assoc]
    apply (i32_roundTrip _).reads.bind
    dsimp only
    rw [if_neg hneg, hread]
    apply (readStringBody_reads hfit).bind
    apply (byte_roundTrip _).reads.bind
    dsimp only
    rw [type_byte]
    exact (i32_roundTrip seqid).reads.map fun x => ((name, type.toInt32, x.1), _ + x.2)

variable (host trans) in
theorem messageBegin_roundTrip {name : Bytes} (hread : p.strict_read = false)
    (hfit : FitsString p name) (type : TMessageType) (seqid : BitVec 32) :
    ∃ bytes n, RoundTrip trans.unread (writeMessageBegin host trans p name type seqid)
      (readMessageBegin host trans p) bytes (name, type.toInt32, seqid) n ∧
      n = .ofNat 32 bytes.length := by
  by_cases hstrict : p.strict_write = true
  · refine ⟨_, _, strictHeader_roundTrip hstrict hfit type seqid, ?_⟩
    simp only [List.length_append, Endian.length_objectBytes, BitVec.ofNat_add]
    ac_rfl
  · refine ⟨_, _, oldHeader_roundTrip hstrict hread hfit type seqid, ?_⟩
    simp only [List.length_append, Endian.length_objectBytes, List.length_singleton,
      BitVec.ofNat_add]
    ac_rfl

theorem checkSize_ok {size : Nat} (hfit : FitsSize p size) :
    (checkSize p (.ofNat 32 size) : Call σ Unit) = pure () := by
  have hint := (toInt_ofNat_size hfit.1).1
  have hlimit : ¬ (p.container_limit ≠ 0 ∧ p.container_limit < (BitVec.ofNat 32 size).toInt) := by
    rintro ⟨h0, hgt⟩
    have hle := hfit.2 h0
    omega
  rw [checkSize, if_neg (by omega), if_neg hlimit]

theorem mapBegin_roundTrip {size : Nat} (hfit : FitsSize p size) (keyType valType : Byte) :
    RoundTrip trans.unread (writeMapBegin host trans keyType valType (.ofNat 32 size))
      (readMapBegin host trans p) ([keyType] ++ ([valType] ++ i32Bytes host (.ofNat 32 size)))
      (keyType, valType, .ofNat 32 size) (1 + 1 + 4) := by
  apply (byte_roundTrip keyType).bind
  apply (byte_roundTrip valType).bind
  apply (i32_roundTrip _).last
  dsimp only
  rw [checkSize_ok hfit]
  exact .pure _ _

theorem elemsBegin_roundTrip {size : Nat} (hfit : FitsSize p size) (elemType : Byte) :
    RoundTrip trans.unread (writeElemsBegin host trans elemType (.ofNat 32 size))
      (readElemsBegin host trans p) ([elemType] ++ i32Bytes host (.ofNat 32 size))
      (elemType, .ofNat 32 size) (1 + 4) := by
  apply (byte_roundTrip elemType).bind
  apply (i32_roundTrip _).last
  dsimp only
  rw [checkSize_ok hfit]
  exact .pure _ _

theorem fieldBegin_roundTrip {fieldType : Byte} (htype : fieldType ≠ T_STOP)
    (fieldId : BitVec 16) :
    RoundTrip trans.unread (writeFieldBegin host trans fieldType fieldId)
      (readFieldBegin host trans)
      ([fieldType] ++ host.objectBytes 2 (host.htobe 2 fieldId)) (fieldType, fieldId) (1 + 2) := by
  apply (byte_roundTrip fieldType).bind
  dsimp only
  rw [if_neg htype]
  exact (i16_roundTrip fieldId).last (.pure _ _)

theorem fieldStop_roundTrip :
    RoundTrip trans.unread (writeFieldStop trans) (readFieldBegin host trans) [T_STOP] (T_STOP, 0)
      1 where
  writes := (byte_roundTrip T_STOP).writes
  reads := (byte_roundTrip T_STOP).reads.last (RoundTrip.pure (T_STOP, 0) 1).reads

theorem typeOf_toByte (t : TType) : (typeOf t.toByte : Call σ TType) = pure t := by
  cases t <;> rfl

theorem toByte_ne_stop (t : TType) : t.toByte ≠ T_STOP := by
  cases t <;> decide

/-! ### Values are read back -/

variable (trans) in
/-- Reading takes what was written and nothing behind it, and gives the value. The calls of both
sides return the same counts, which together are the number of the bytes. -/
def ReadsBack {α : Type} (write : Call σ Counts) (read : Call σ (α × Counts)) (a : α) : Prop :=
  ∃ bytes counts, RoundTrip trans.unread write read bytes a counts ∧
    counts.sum = .ofNat 32 bytes.length

theorem sum_append_counts {ns ms : Counts} {bs cs : Bytes} (hn : ns.sum = .ofNat 32 bs.length)
    (hm : ms.sum = .ofNat 32 cs.length) : (ns ++ ms).sum = .ofNat 32 (bs ++ cs).length := by
  rw [List.sum_append, hn, hm, List.length_append, BitVec.ofNat_add]

theorem sum_enclosed {n : BitVec 32} {ns : Counts} {bs cs : Bytes} (hn : n = .ofNat 32 bs.length)
    (hns : ns.sum = .ofNat 32 cs.length) :
    (n :: (ns ++ [0])).sum = .ofNat 32 (bs ++ cs).length := by
  rw [List.sum_cons, List.sum_append, List.sum_singleton, hn, hns, List.length_append,
    BitVec.ofNat_add, add_zero]

theorem readsBack_one {α β : Type} {w : Call σ (BitVec 32)} {r : Call σ (α × BitVec 32)}
    {bytes : Bytes} {a : α} {n : BitVec 32} (h : RoundTrip trans.unread w r bytes a n)
    (hn : n = .ofNat 32 bytes.length) (f : α → β) :
    ReadsBack trans (do let n ← w; return [n]) (do let (a, n) ← r; return (f a, [n])) (f a) :=
  ⟨bytes, [n], h.last (.pure _ _), by rw [List.sum_singleton, hn]⟩

variable (host trans p) in
/-- With this many passes every value that needs no more of them is read back. -/
structure ReadsUpTo (fuel : Nat) : Prop where
  value : ∀ {t : TType} (value : Value t), FitsValue p value → value.passes ≤ fuel →
    ReadsBack trans (writeValue host trans value) (readValue host trans p fuel t) value
  fields : ∀ fields : Fields, FitsFields p fields → fields.passes ≤ fuel →
    ReadsBack trans (writeFields host trans fields) (readFields host trans p fuel) fields
  entries : ∀ {k v : TType} (entries : Entries k v), FitsEntries p entries →
    entries.passes ≤ fuel → ReadsBack trans (writeEntries host trans entries)
      (readEntries host trans p fuel k v entries.length) entries
  elems : ∀ {t : TType} (elems : Elems t), FitsElems p elems → elems.passes ≤ fuel →
    ReadsBack trans (writeElems host trans elems) (readElems host trans p fuel t elems.length)
      elems

variable {fuel : Nat}

theorem ReadsUpTo.value_succ (h : ReadsUpTo host trans p fuel) {t : TType} (value : Value t)
    (hfit : FitsValue p value) (hfuel : value.passes ≤ fuel + 1) :
    ReadsBack trans (writeValue host trans value) (readValue host trans p (fuel + 1) t) value := by
  cases value with
  | bool value => exact readsBack_one (bool_roundTrip value) rfl Value.bool
  | byte byte => exact readsBack_one (byte_roundTrip byte) rfl Value.byte
  | i16 i16 =>
    apply readsBack_one (i16_roundTrip i16) ?_ Value.i16
    rw [Endian.length_objectBytes]
    rfl
  | i32 i32 =>
    apply readsBack_one (i32_roundTrip i32) ?_ Value.i32
    rw [Endian.length_objectBytes]
    rfl
  | i64 i64 =>
    apply readsBack_one (i64_roundTrip i64) ?_ Value.i64
    rw [Endian.length_objectBytes]
    rfl
  | double dub =>
    apply readsBack_one (double_roundTrip dub) ?_ Value.double
    rw [Endian.length_objectBytes]
    rfl
  | string str =>
    apply readsBack_one (string_roundTrip hfit) ?_ Value.string
    rw [List.length_append, Endian.length_objectBytes, BitVec.ofNat_add]
    rfl
  | struct fields =>
    obtain ⟨bytes, ns, hrt, hsum⟩ := h.fields fields hfit (Nat.le_of_succ_le_succ hfuel)
    refine ⟨[] ++ bytes, 0 :: (ns ++ [0]), ?_, sum_enclosed rfl hsum⟩
    rw [writeValue, readValue]
    exact (RoundTrip.pure () 0).bind (hrt.last ((RoundTrip.pure () 0).last (.pure _ _)))
  | map keyType valType entries =>
    obtain ⟨bytes, ns, hrt, hsum⟩ := h.entries entries hfit.2 (Nat.le_of_succ_le_succ hfuel)
    refine ⟨([keyType.toByte] ++ ([valType.toByte] ++ i32Bytes host (.ofNat 32 entries.length))) ++
      bytes, (1 + 1 + 4) :: (ns ++ [0]), ?_, sum_enclosed ?_ hsum⟩
    · rw [writeValue, readValue]
      apply (mapBegin_roundTrip hfit.1 _ _).bind
      dsimp only
      rw [typeOf_toByte, pure_bind, typeOf_toByte, pure_bind, (toInt_ofNat_size hfit.1.1).2]
      exact hrt.last ((RoundTrip.pure () 0).last (.pure _ _))
    · rw [List.length_append, List.length_append, Endian.length_objectBytes]
      rfl
  | set elemType elems =>
    obtain ⟨bytes, ns, hrt, hsum⟩ := h.elems elems hfit.2 (Nat.le_of_succ_le_succ hfuel)
    refine ⟨([elemType.toByte] ++ i32Bytes host (.ofNat 32 elems.length)) ++ bytes,
      (1 + 4) :: (ns ++ [0]), ?_, sum_enclosed ?_ hsum⟩
    · rw [writeValue, readValue]
      apply (elemsBegin_roundTrip hfit.1 _).bind
      dsimp only
      rw [typeOf_toByte, pure_bind, (toInt_ofNat_size hfit.1.1).2]
      exact hrt.last ((RoundTrip.pure () 0).last (.pure _ _))
    · rw [List.length_append, Endian.length_objectBytes]
      rfl
  | list elemType elems =>
    obtain ⟨bytes, ns, hrt, hsum⟩ := h.elems elems hfit.2 (Nat.le_of_succ_le_succ hfuel)
    refine ⟨([elemType.toByte] ++ i32Bytes host (.ofNat 32 elems.length)) ++ bytes,
      (1 + 4) :: (ns ++ [0]), ?_, sum_enclosed ?_ hsum⟩
    · rw [writeValue, readValue]
      apply (elemsBegin_roundTrip hfit.1 _).bind
      dsimp only
      rw [typeOf_toByte, pure_bind, (toInt_ofNat_size hfit.1.1).2]
      exact hrt.last ((RoundTrip.pure () 0).last (.pure _ _))
    · rw [List.length_append, Endian.length_objectBytes]
      rfl

theorem ReadsUpTo.fields_succ (h : ReadsUpTo host trans p fuel) (fields : Fields)
    (hfit : FitsFields p fields) (hfuel : fields.passes ≤ fuel + 1) :
    ReadsBack trans (writeFields host trans fields) (readFields host trans p (fuel + 1))
      fields := by
  cases fields with
  | nil =>
    refine ⟨[T_STOP], [1], ?_, rfl⟩
    rw [writeFields, readFields]
    exact fieldStop_roundTrip.last (.pure _ _)
  | cons fieldType fieldId value rest =>
    simp only [Fields.passes] at hfuel
    obtain ⟨bs, ns, hrt, hsum⟩ := h.value value hfit.1 (by omega)
    obtain ⟨cs, ms, hrt', hsum'⟩ := h.fields rest hfit.2 (by omega)
    refine ⟨([fieldType.toByte] ++ host.objectBytes 2 (host.htobe 2 fieldId)) ++ (bs ++ ([] ++ cs)),
      [1 + 2] ++ (ns ++ ([0] ++ ms)), ?_, ?_⟩
    · rw [writeFields, readFields]
      apply (fieldBegin_roundTrip (toByte_ne_stop fieldType) fieldId).bind
      dsimp only
      rw [if_neg (toByte_ne_stop fieldType), typeOf_toByte, pure_bind]
      exact hrt.bind ((RoundTrip.pure () 0).bind (hrt'.last (.pure _ _)))
    · apply sum_append_counts ?_ (sum_append_counts hsum (sum_append_counts rfl hsum'))
      rw [List.length_append, Endian.length_objectBytes]
      rfl

theorem ReadsUpTo.entries_succ (h : ReadsUpTo host trans p fuel) {k v : TType}
    (entries : Entries k v) (hfit : FitsEntries p entries) (hfuel : entries.passes ≤ fuel + 1) :
    ReadsBack trans (writeEntries host trans entries)
      (readEntries host trans p (fuel + 1) k v entries.length) entries := by
  cases entries with
  | nil => exact ⟨[], [], .pure _ _, rfl⟩
  | cons key value rest =>
    simp only [Entries.passes] at hfuel
    obtain ⟨bs, ns, hrt, hsum⟩ := h.value key hfit.1 (by omega)
    obtain ⟨cs, ms, hrt', hsum'⟩ := h.value value hfit.2.1 (by omega)
    obtain ⟨ds, ls, hrt'', hsum''⟩ := h.entries rest hfit.2.2 (by omega)
    refine ⟨bs ++ (cs ++ ds), ns ++ (ms ++ ls), ?_,
      sum_append_counts hsum (sum_append_counts hsum' hsum'')⟩
    rw [writeEntries, Entries.length, readEntries]
    exact hrt.bind (hrt'.bind (hrt''.last (.pure _ _)))

theorem ReadsUpTo.elems_succ (h : ReadsUpTo host trans p fuel) {t : TType} (elems : Elems t)
    (hfit : FitsElems p elems) (hfuel : elems.passes ≤ fuel + 1) :
    ReadsBack trans (writeElems host trans elems)
      (readElems host trans p (fuel + 1) t elems.length) elems := by
  cases elems with
  | nil => exact ⟨[], [], .pure _ _, rfl⟩
  | cons value rest =>
    simp only [Elems.passes] at hfuel
    obtain ⟨bs, ns, hrt, hsum⟩ := h.value value hfit.1 (by omega)
    obtain ⟨cs, ms, hrt', hsum'⟩ := h.elems rest hfit.2 (by omega)
    refine ⟨bs ++ cs, ns ++ ms, ?_, sum_append_counts hsum hsum'⟩
    rw [writeElems, Elems.length, readElems]
    exact hrt.bind (hrt'.last (.pure _ _))

variable (host trans p) in
theorem readsUpTo (fuel : Nat) : ReadsUpTo host trans p fuel := by
  induction fuel with
  | zero =>
    exact {
      value := fun value _ hfuel => by
        cases value <;> simp only [Value.passes] at hfuel <;> omega
      fields := fun fields _ hfuel => by
        cases fields <;> simp only [Fields.passes] at hfuel <;> omega
      entries := fun entries _ hfuel => by
        cases entries <;> simp only [Entries.passes] at hfuel <;> omega
      elems := fun elems _ hfuel => by
        cases elems <;> simp only [Elems.passes] at hfuel <;> omega }
  | succ fuel ih =>
    exact {
      value := ih.value_succ
      fields := ih.fields_succ
      entries := ih.entries_succ
      elems := ih.elems_succ }

/-- A message: its header, a value and its end. -/
def writeMessage (host : Endian) (trans : TTransport σ) (p : CthriftTBinaryProtocolT) (name : Bytes)
    (messageType : TMessageType) (seqid : BitVec 32) {t : TType} (value : Value t) :
    Call σ Counts := do
  let n1 ← writeMessageBegin host trans p name messageType seqid
  let ns ← writeValue host trans value
  let n2 ← writeMessageEnd
  return n1 :: (ns ++ [n2])

def readMessage (host : Endian) (trans : TTransport σ) (p : CthriftTBinaryProtocolT) (fuel : Nat)
    (t : TType) : Call σ (((Bytes × BitVec 32 × BitVec 32) × Value t) × Counts) := do
  let (header, n1) ← readMessageBegin host trans p
  let (value, ns) ← readValue host trans p fuel t
  let (_, n2) ← readMessageEnd
  return ((header, value), n1 :: (ns ++ [n2]))

/-- Every header in either format and every value within the limits, alone and one behind the other,
is read back as it was written, from exactly the bytes that were written, and each call of the
reading side returns the count of its counterpart. -/
theorem thrift_round_trip {σ : Type} (host : Endian) (trans : TTransport σ)
    (p : CthriftTBinaryProtocolT) (hread : p.strict_read = false) (name : Bytes)
    (messageType : TMessageType) (seqid : BitVec 32) {t : TType} (value : Value t)
    (hname : FitsString p name) (hvalue : FitsValue p value) (fuel : Nat)
    (hfuel : value.passes ≤ fuel) :
    (∃ bytes n, RoundTrip trans.unread (writeMessageBegin host trans p name messageType seqid)
        (readMessageBegin host trans p) bytes (name, messageType.toInt32, seqid) n ∧
        n = .ofNat 32 bytes.length) ∧
      ReadsBack trans (writeValue host trans value) (readValue host trans p fuel t) value ∧
      ReadsBack trans (writeMessage host trans p name messageType seqid value)
        (readMessage host trans p fuel t) ((name, messageType.toInt32, seqid), value) := by
  have hheader := messageBegin_roundTrip host trans hread hname messageType seqid
  have hback := (readsUpTo host trans p fuel).value value hvalue hfuel
  refine ⟨hheader, hback, ?_⟩
  obtain ⟨bs, n, hrt, hn⟩ := hheader
  obtain ⟨cs, ns, hrt', hsum⟩ := hback
  refine ⟨bs ++ cs, n :: (ns ++ [0]), ?_, sum_enclosed hn hsum⟩
  exact hrt.bind (hrt'.last ((RoundTrip.pure () 0).last (.pure _ _)))

end CthriftTBinaryProtocolT

/-! ### A message in a TMemoryBuffer -/

/- A `TMemoryBuffer` that is written and read; `borrow` succeeds whenever it can. -/
def TMemoryBuffer.trans : TTransport TMemoryBuffer where
  write m bytes := ⟨m.unread ++ bytes⟩
  readAll := TMemoryBuffer.readAll
  borrow m len := (m.borrow len, m)
  consume := TMemoryBuffer.consume
  unread := TMemoryBuffer.unread
  unread_write _ _ := rfl
  readAll_ok _ _ hn := ⟨_, if_pos hn, rfl⟩
  unread_borrow _ _ := rfl
  borrow_take m n buf hbuf := by
    rw [TMemoryBuffer.borrow] at hbuf
    split at hbuf
    · cases hbuf
      rfl
    · cases hbuf
  consume_ok _ _ _ _ hn := ⟨_, if_pos hn, rfl⟩

namespace CthriftTBinaryProtocolT

def oldFormat : CthriftTBinaryProtocolT where
  string_limit := 2
  strict_read := false
  strict_write := false
  container_limit := 2

/- A map from an integer to strings, one of them empty, the least `int64_t` and a `bool`. -/
def sampleValue : Value .T_STRUCT :=
  .struct (.cons .T_MAP 1
    (.map .T_I32 .T_LIST (.cons (.i32 (-1))
      (.list .T_STRING (.cons (.string []) (.cons (.string [104, 105]) .nil))) .nil))
    (.cons .T_I64 (-2) (.i64 (.intMin 64)) (.cons .T_BOOL 3 (.bool true) .nil)))

theorem fits_sampleValue : FitsValue oldFormat sampleValue := by
  have hsize : ∀ n, n < 3 → FitsSize oldFormat n := by
    intro n hn
    exact ⟨by omega, fun _ => by rw [show oldFormat.container_limit = 2 from rfl]; omega⟩
  have hstring : ∀ str : Bytes, str.length < 3 → FitsString oldFormat str := by
    intro str hlen
    exact ⟨by omega, fun _ => by rw [show oldFormat.string_limit = 2 from rfl]; omega⟩
  exact ⟨⟨hsize 1 (by decide), trivial, ⟨hsize 2 (by decide), hstring [] (by decide),
    hstring [104, 105] (by decide), trivial⟩, trivial⟩, trivial, trivial, trivial⟩

theorem thrift_round_trip_sample :
    ∃ counts m, writeMessage .little TMemoryBuffer.trans oldFormat [7] .T_CALL (-1) sampleValue ⟨[]⟩
        = .ok (counts, m) ∧
      readMessage .little TMemoryBuffer.trans oldFormat 20 .T_STRUCT m =
        .ok (((([7], 1, -1), sampleValue), counts), ⟨[]⟩) := by
  obtain ⟨-, -, bytes, counts, hrt, -⟩ :=
    thrift_round_trip .little TMemoryBuffer.trans oldFormat rfl
    [7] .T_CALL (-1) sampleValue ⟨by decide, fun _ => by decide⟩ fits_sampleValue 20 (by decide)
  obtain ⟨m, hm, hunread⟩ := hrt.writes ⟨[]⟩
  obtain ⟨⟨rest⟩, ht, hrest⟩ := hrt.reads m [] (by rw [hunread, List.append_nil]; rfl)
  cases hrest
  exact ⟨counts, m, hm, ht⟩

end CthriftTBinaryProtocolT

end TstMuduo.Cthrift
