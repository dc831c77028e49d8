import TstMuduo.Net.BufferInt

/-!
# Message headers (cthrift/cthrift_tbinary_protocol.cc)

`writeMessageBegin` writes a message header in one of two formats, and `GetSeqID` reads the
sequence id back from a `TMemoryBuffer`. A `TMemoryBuffer` is here what lies between its
`rBase_` and its `wBase_`.
-/

namespace TstMuduo.Cthrift
open TstMuduo.Lib TstMuduo.Net

/-! ### TMemoryBuffer (thrift/transport/TBufferTransports.h) -/

/- The exceptions that the reading functions throw, each with its type. -/
inductive TException where
  | transport_END_OF_FILE
  | transport_BAD_ARGS
  | protocol_NEGATIVE_SIZE
  | protocol_SIZE_LIMIT
  deriving DecidableEq, Repr

structure TMemoryBuffer where
  unread : Bytes
  deriving DecidableEq, Repr

namespace TMemoryBuffer

def resetBuffer (buf : Bytes) : TMemoryBuffer := ⟨buf⟩

/- `readAll` (`TTransport.h:36`): the first `read` that gets nothing throws. -/
def readAll (m : TMemoryBuffer) (len : Nat) : Except TException (Bytes × TMemoryBuffer) :=
  if len ≤ m.unread.length then .ok (m.unread.take len, ⟨m.unread.drop len⟩)
  else .error .transport_END_OF_FILE

/- `borrow`, with its slow path (`TBufferTransports.cpp:419`). -/
def borrow (m : TMemoryBuffer) (len : Nat) : Option Bytes :=
  if len ≤ m.unread.length then some m.unread else none

def consume (m : TMemoryBuffer) (len : Nat) : Except TException TMemoryBuffer :=
  if len ≤ m.unread.length then .ok ⟨m.unread.drop len⟩ else .error .transport_BAD_ARGS

end TMemoryBuffer

/-! ### The protocol -/

/- The fields of `CthriftTBinaryProtocolT` that the headers depend on. -/
structure CthriftTBinaryProtocol where
  string_limit : Int
  strict_read : Bool
  strict_write : Bool
  deriving DecidableEq, Repr

def VERSION_MASK : BitVec 32 := 0xffff0000
def VERSION_1 : BitVec 32 := 0x80010000

/- `g_string_limit` (`cthrift_common.cc:32`). -/
def g_string_limit : Int := 16 * 1024 * 1024

namespace CthriftTBinaryProtocol

/- The constructor that takes only a transport (`cthrift_tbinary_protocol.h:28`). -/
def new : CthriftTBinaryProtocol where
  string_limit := g_string_limit
  strict_read := false
  strict_write := true

/- `writeI32`, `writeByte` and `writeString`, as the strings given to `trans_->write`. -/
def writeI32 (i32 : BitVec 32) : List Bytes := [hostToNetwork32 i32]
def writeByte (byte : Byte) : List Bytes := [[byte]]
def writeString (str : Bytes) : List Bytes :=
  writeI32 (.ofNat 32 str.length) ++ if 0 < str.length then [str] else []

/- `writeMessageBegin` (`cthrift_tbinary_protocol.cc:110`), after the id is settled. -/
def writeMessageBegin (p : CthriftTBinaryProtocol) (name : Bytes) (messageType : Byte)
    (seqid : BitVec 32) : List Bytes :=
  if p.strict_write then
    writeI32 (VERSION_1 ||| .ofNat 32 messageType.toNat) ++ writeString name ++ writeI32 seqid
  else writeString name ++ writeByte messageType ++ writeI32 seqid

def readI32 (m : TMemoryBuffer) : Except TException (BitVec 32 × TMemoryBuffer) := do
  let (b, m) ← m.readAll 4
  return (networkToHost32 b, m)

def readByte (m : TMemoryBuffer) : Except TException (Bytes × TMemoryBuffer) := m.readAll 1

/- `readStringBody` (`cthrift_tbinary_protocol.cc:558`). -/
def readStringBody (p : CthriftTBinaryProtocol) (size : BitVec 32) (m : TMemoryBuffer) :
    Except TException (Bytes × TMemoryBuffer) :=
  if size.toInt < 0 then .error .protocol_NEGATIVE_SIZE
  else if 0 < p.string_limit ∧ p.string_limit < size.toInt then .error .protocol_SIZE_LIMIT
  else if size = 0 then .ok ([], m)
  else
    match m.borrow size.toNat with
    | some borrow_buf => do
      let m ← m.consume size.toNat
      return (borrow_buf.take size.toNat, m)
    | none => m.readAll size.toNat

def readString (p : CthriftTBinaryProtocol) (m : TMemoryBuffer) :
    Except TException (Bytes × TMemoryBuffer) := do
  let (size, m) ← readI32 m
  p.readStringBody size m

/- `GetSeqID` (`cthrift_tbinary_protocol.cc:26`). -/
def getSeqID (p : CthriftTBinaryProtocol) (m : TMemoryBuffer) : Except TException (BitVec 32) := do
  let (i32_size, m) ← readI32 m
  if i32_size.toInt < 0 ∧ i32_size &&& VERSION_MASK = VERSION_1 then
    let (_, m) ← p.readString m
    let (i32_seq_id, _) ← readI32 m
    return i32_seq_id
  else if 0 ≤ i32_size.toInt ∧ p.strict_read = false then
    let (_, m) ← p.readStringBody i32_size m
    let (_, m) ← readByte m
    let (i32_seq_id, _) ← readI32 m
    return i32_seq_id
  else return 0

/-! ### When the header can be read -/

def word (body : Bytes) (i : Nat) : BitVec 32 := networkToHost32 ((body.drop i).take 4)

/-- A length that `readStringBody` lets pass. -/
def Allowed (p : CthriftTBinaryProtocol) (size : BitVec 32) : Prop :=
  0 ≤ size.toInt ∧ (0 < p.string_limit → size.toInt ≤ p.string_limit)

/-- The frame is long enough for the header that it announces, and the name is not too
long. A version other than the first one announces nothing more. -/
def Readable (p : CthriftTBinaryProtocol) (body : Bytes) : Prop :=
  4 ≤ body.length ∧
  ((word body 0).toInt < 0 ∧ word body 0 &&& VERSION_MASK = VERSION_1 →
    8 ≤ body.length ∧ p.Allowed (word body 4) ∧ 12 + (word body 4).toNat ≤ body.length) ∧
  (0 ≤ (word body 0).toInt ∧ p.strict_read = false →
    p.Allowed (word body 0) ∧ 9 + (word body 0).toNat ≤ body.length)

instance (p : CthriftTBinaryProtocol) (size : BitVec 32) : Decidable (p.Allowed size) :=
  inferInstanceAs (Decidable (_ ∧ _))

instance (p : CthriftTBinaryProtocol) (body : Bytes) : Decidable (p.Readable body) :=
  inferInstanceAs (Decidable (_ ∧ _ ∧ _))

variable {p : CthriftTBinaryProtocol} {bytes : Bytes} {size : BitVec 32} {n : Nat}

theorem readAll_ok (h : n ≤ bytes.length) :
    TMemoryBuffer.readAll ⟨bytes⟩ n = .ok (bytes.take n, ⟨bytes.drop n⟩) :=
  if_pos h

theorem readAll_short (h : bytes.length < n) :
    TMemoryBuffer.readAll ⟨bytes⟩ n = .error .transport_END_OF_FILE :=
  if_neg (Nat.not_le_of_lt h)

theorem readI32_ok (h : 4 ≤ bytes.length) :
    readI32 ⟨bytes⟩ = .ok (networkToHost32 (bytes.take 4), ⟨bytes.drop 4⟩) := by
  rw [readI32, readAll_ok h]
  rfl

theorem readI32_short (h : bytes.length < 4) :
    readI32 ⟨bytes⟩ = .error .transport_END_OF_FILE := by
  rw [readI32, readAll_short h]
  rfl

theorem readStringBody_ok (ha : p.Allowed size) (h : size.toNat ≤ bytes.length) :
    p.readStringBody size ⟨bytes⟩ = .ok (bytes.take size.toNat, ⟨bytes.drop size.toNat⟩) := by
  obtain ⟨hpos, hlim⟩ := ha
  have hlimit : ¬ (0 < p.string_limit ∧ p.string_limit < size.toInt) := by
    rintro ⟨h0, hgt⟩
    exact absurd (hlim h0) (Int.not_le.mpr hgt)
  unfold readStringBody
  rw [if_neg (Int.not_lt.mpr hpos), if_neg hlimit]
  split
  next hzero =>
    subst hzero
    rfl
  · simp only [TMemoryBuffer.borrow, TMemoryBuffer.consume, if_pos h, ok_bind]
    rfl

theorem readStringBody_throws (h : ¬ (p.Allowed size ∧ size.toNat ≤ bytes.length)) :
    ∃ e, p.readStringBody size ⟨bytes⟩ = .error e := by
  unfold readStringBody
  split
  · exact ⟨_, rfl⟩
  next hneg =>
    split
    · exact ⟨_, rfl⟩
    next hlim =>
      have ha : p.Allowed size := by
        refine ⟨Int.not_lt.mp hneg, ?_⟩
        intro h0
        by_contra hgt
        exact hlim ⟨h0, Int.not_le.mp hgt⟩
      have hshort : ¬ size.toNat ≤ bytes.length := fun hle => h ⟨ha, hle⟩
      split
      next hzero =>
        subst hzero
        exact absurd (Nat.zero_le _) hshort
      · simp only [TMemoryBuffer.borrow, if_neg hshort]
        exact ⟨_, readAll_short (Nat.lt_of_not_le hshort)⟩

theorem strict_returns_iff (bytes : Bytes) :
    (∃ id, (do
        let (_, m) ← p.readString ⟨bytes⟩
        let (i32_seq_id, _) ← readI32 m
        return i32_seq_id) = Except.ok (ε := TException) id) ↔
      4 ≤ bytes.length ∧ p.Allowed (word bytes 0) ∧
        8 + (word bytes 0).toNat ≤ bytes.length := by
  by_cases h4 : 4 ≤ bytes.length
  · by_cases hs : p.Allowed (word bytes 0) ∧ (word bytes 0).toNat ≤ (bytes.drop 4).length
    · have hbody := readStringBody_ok hs.1 hs.2
      have hlen := hs.2
      rw [List.length_drop] at hlen
      simp only [readString, readI32_ok h4, ok_bind]
      rw [show networkToHost32 (bytes.take 4) = word bytes 0 from rfl, hbody, ok_bind]
      by_cases hid : 4 ≤ ((bytes.drop 4).drop (word bytes 0).toNat).length
      · rw [readI32_ok hid]
        rw [List.length_drop, List.length_drop] at hid
        exact iff_of_true ⟨_, rfl⟩ ⟨h4, hs.1, by omega⟩
      · rw [readI32_short (Nat.lt_of_not_le hid)]
        rw [List.length_drop, List.length_drop] at hid
        apply iff_of_false
        · rintro ⟨id, h⟩
          cases h
        · rintro ⟨-, -, h⟩
          omega
    · obtain ⟨e, he⟩ := readStringBody_throws hs
      simp only [readString, readI32_ok h4, ok_bind]
      rw [show networkToHost32 (bytes.take 4) = word bytes 0 from rfl, he]
      apply iff_of_false
      · rintro ⟨id, h⟩
        cases h
      · rintro ⟨-, ha, h⟩
        apply hs
        rw [List.length_drop]
        exact ⟨ha, by omega⟩
  · rw [readString, readI32_short (Nat.lt_of_not_le h4)]
    apply iff_of_false
    · rintro ⟨id, h⟩
      cases h
    · rintro ⟨h, -⟩
      exact h4 h

theorem old_returns_iff (size : BitVec 32) (bytes : Bytes) :
    (∃ id, (do
        let (_, m) ← p.readStringBody size ⟨bytes⟩
        let (_, m) ← readByte m
        let (i32_seq_id, _) ← readI32 m
        return i32_seq_id) = Except.ok (ε := TException) id) ↔
      p.Allowed size ∧ 5 + size.toNat ≤ bytes.length := by
  by_cases hs : p.Allowed size ∧ size.toNat ≤ bytes.length
  · rw [readStringBody_ok hs.1 hs.2, ok_bind]
    have hlen := hs.2
    by_cases h1 : 1 ≤ (bytes.drop size.toNat).length
    · simp only [readByte, readAll_ok h1, ok_bind]
      by_cases hid : 4 ≤ ((bytes.drop size.toNat).drop 1).length
      · rw [readI32_ok hid]
        rw [List.length_drop, List.length_drop] at hid
        exact iff_of_true ⟨_, rfl⟩ ⟨hs.1, by omega⟩
      · rw [readI32_short (Nat.lt_of_not_le hid)]
        rw [List.length_drop, List.length_drop] at hid
        apply iff_of_false
        · rintro ⟨id, h⟩
          cases h
        · rintro ⟨-, h⟩
          omega
    · simp only [readByte, readAll_short (Nat.lt_of_not_le h1)]
      rw [List.length_drop] at h1
      apply iff_of_false
      · rintro ⟨id, h⟩
        cases h
      · rintro ⟨-, h⟩
        omega
  · obtain ⟨e, he⟩ := readStringBody_throws hs
    rw [he]
    apply iff_of_false
    · rintro ⟨id, h⟩
      cases h
    · rintro ⟨ha, h⟩
      exact hs ⟨ha, by omega⟩

theorem getSeqID_returns_iff (p : CthriftTBinaryProtocol) (body : Bytes) :
    (∃ id, p.getSeqID ⟨body⟩ = .ok id) ↔ p.Readable body := by
  unfold Readable
  by_cases h4 : 4 ≤ body.length
  · have hlen : (body.drop 4).length = body.length - 4 := List.length_drop
    have hword : word (body.drop 4) 0 = word body 4 := rfl
    simp only [getSeqID, readI32_ok h4, ok_bind]
    rw [show networkToHost32 (body.take 4) = word body 0 from rfl]
    split
    next hstrict =>
      rw [strict_returns_iff, hlen, hword]
      constructor
      · rintro ⟨h8, ha, hn⟩
        exact ⟨h4, fun _ => ⟨by omega, ha, by omega⟩,
          fun hold => absurd hstrict.1 (Int.not_lt.mpr hold.1)⟩
      · rintro ⟨-, h, -⟩
        obtain ⟨h8, ha, hn⟩ := h hstrict
        exact ⟨by omega, ha, by omega⟩
    next hstrict =>
      split
      next hold =>
        rw [old_returns_iff, hlen]
        constructor
        · rintro ⟨ha, hn⟩
          exact ⟨h4, fun hs => absurd hs hstrict, fun _ => ⟨ha, by omega⟩⟩
        · rintro ⟨-, -, h⟩
          obtain ⟨ha, hn⟩ := h hold
          exact ⟨ha, by omega⟩
      next hold =>
        exact iff_of_true ⟨_, rfl⟩ ⟨h4, fun hs => absurd hs hstrict, fun ho => absurd ho hold⟩
  · rw [getSeqID, readI32_short (Nat.lt_of_not_le h4)]
    apply iff_of_false
    · rintro ⟨id, h⟩
      cases h
    · rintro ⟨h, -⟩
      exact h4 h

/-! ### What the writer writes -/

theorem flatten_writeString (str : Bytes) :
    (writeString str).flatten = hostToNetwork32 (.ofNat 32 str.length) ++ str := by
  unfold writeString writeI32
  split
  · rw [List.flatten_append, List.flatten_singleton, List.flatten_singleton]
  next h =>
    have hnil : str = [] := List.length_eq_zero_iff.mp (Nat.eq_zero_of_not_pos h)
    subst hnil
    rfl

theorem version_word (messageType : Byte) :
    ((VERSION_1 ||| .ofNat 32 messageType.toNat).toInt < 0) ∧
      (VERSION_1 ||| .ofNat 32 messageType.toNat) &&& VERSION_MASK = VERSION_1 := by
  have hall : ∀ t : Fin 256, (VERSION_1 ||| .ofNat 32 t.val).toInt < 0 ∧
      (VERSION_1 ||| .ofNat 32 t.val) &&& VERSION_MASK = VERSION_1 := by
    decide +kernel
  exact hall ⟨messageType.toNat, messageType.toNat_lt⟩

theorem word_append (x : BitVec 32) (rest : Bytes) : word (hostToNetwork32 x ++ rest) 0 = x :=
  networkToHost32_hostToNetwork32 x

theorem drop_four (x : BitVec 32) (rest : Bytes) : (hostToNetwork32 x ++ rest).drop 4 = rest := rfl

theorem allowed_length {name : Bytes} (hint : name.length < 2 ^ 31)
    (hlim : 0 < p.string_limit → (name.length : Int) ≤ p.string_limit) :
    p.Allowed (.ofNat 32 name.length) ∧ (BitVec.ofNat 32 name.length).toNat = name.length := by
  have hnat : (BitVec.ofNat 32 name.length).toNat = name.length := by
    rw [BitVec.toNat_ofNat, Nat.mod_eq_of_lt (by omega)]
  have hto : (BitVec.ofNat 32 name.length).toInt = name.length := by
    rw [BitVec.toInt_eq_toNat_cond, hnat, if_pos (by omega)]
  unfold Allowed
  rw [hto]
  exact ⟨⟨Int.natCast_nonneg _, hlim⟩, hnat⟩

theorem getSeqID_writeMessageBegin (w : CthriftTBinaryProtocol) (name : Bytes) (messageType : Byte)
    (seqid : BitVec 32) (payload : Bytes) (hread : p.strict_read = false)
    (hint : name.length < 2 ^ 31)
    (hlim : 0 < p.string_limit → (name.length : Int) ≤ p.string_limit) :
    p.getSeqID ⟨(w.writeMessageBegin name messageType seqid).flatten ++ payload⟩ = .ok seqid := by
  obtain ⟨hallowed, hnat⟩ := allowed_length hint hlim
  have hstring : ∀ tail, p.readStringBody (.ofNat 32 name.length) ⟨name ++ tail⟩ =
      .ok (name, ⟨tail⟩) := by
    intro tail
    rw [readStringBody_ok hallowed (by rw [hnat, List.length_append]; omega), hnat,
      List.take_left, List.drop_left]
  have hint32 : ∀ x tail, readI32 ⟨hostToNetwork32 x ++ tail⟩ = .ok (x, ⟨tail⟩) := by
    intro x tail
    rw [readI32_ok (by rw [List.length_append, length_hostToNetwork32]; omega), drop_four]
    exact congrArg (fun y => Except.ok (y, TMemoryBuffer.mk tail)) (word_append x tail)
  unfold writeMessageBegin
  split
  · obtain ⟨hneg, hversion⟩ := version_word messageType
    rw [List.flatten_append, List.flatten_append, flatten_writeString]
    simp only [writeI32, List.flatten_singleton, List.append_assoc, getSeqID, readString, hint32,
      hstring, ok_bind, if_pos (And.intro hneg hversion)]
    rfl
  · have hpos : ¬ ((BitVec.ofNat 32 name.length).toInt < 0 ∧
        BitVec.ofNat 32 name.length &&& VERSION_MASK = VERSION_1) := by
      rintro ⟨hneg, -⟩
      exact absurd hallowed.1 (Int.not_le.mpr hneg)
    have hbyte : ∀ tail, readByte ⟨[messageType] ++ tail⟩ = .ok ([messageType], ⟨tail⟩) := by
      intro tail
      exact readAll_ok (by rw [List.length_append]; exact Nat.le_add_right 1 _)
    rw [List.flatten_append, List.flatten_append, flatten_writeString]
    simp only [writeI32, writeByte, List.flatten_singleton, List.append_assoc, getSeqID, hint32,
      hstring, hbyte, ok_bind, if_neg hpos, if_pos (And.intro hallowed.1 hread)]
    rfl

end CthriftTBinaryProtocol

end TstMuduo.Cthrift
