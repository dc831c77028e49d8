import TstMuduo.Cthrift.Responses
import TstMuduo.Cthrift.SeqIds
import TstMuduo.Cthrift.ThriftFormat

/-!
# The header of an asynchronous call (cthrift/cthrift_tbinary_protocol.cc)

Into a `TMemoryBuffer` the header is written twice. `sendAndRecvMessage` copies what was written
and reads the sequence id from the first header, which leaves the second one in front.
-/

namespace TstMuduo.Cthrift
open TstMuduo.Lib TstMuduo.Net

namespace CthriftTBinaryProtocolT

section
variable {σ : Type} (host : Endian) (trans : TTransport σ) (p : CthriftTBinaryProtocolT)

/- The constructor that takes only a transport (`cthrift_tbinary_protocol.h:28`). -/
def new : CthriftTBinaryProtocolT where
  toCthriftTBinaryProtocol := .new
  container_limit := 0

/- `GetSeqID` (`cthrift_tbinary_protocol.cc:26`), with what it leaves in the buffer. -/
def getSeqID : Call σ (BitVec 32) := do
  let (i32_size, _) ← readI32 host trans
  if i32_size.toInt < 0 ∧ i32_size &&& VERSION_MASK = VERSION_1 then
    let (_, _) ← readString host trans p
    let (i32_seq_id, _) ← readI32 host trans
    return i32_seq_id
  else if 0 ≤ i32_size.toInt ∧ p.strict_read = false then
    let (_, _) ← readStringBody trans p i32_size
    let (_, _) ← readByte trans
    let (i32_seq_id, _) ← readI32 host trans
    return i32_seq_id
  else return 0

/- The id of a message and the counter `g_atomic_i32_seq_id` after it, while no other thread uses
the counter (`cthrift_tbinary_protocol.cc:70`). -/
def takeSeqID (g_atomic_i32_seq_id seqid : BitVec 32) : BitVec 32 × BitVec 32 :=
  if seqid = 0 then
    let i32_seq_id := g_atomic_i32_seq_id + 1
    if i32_seq_id = int32Max then (1, 1) else (i32_seq_id, i32_seq_id)
  else (seqid, g_atomic_i32_seq_id)

/- `writeMessageBegin` of a `TMemoryBuffer` (`cthrift_tbinary_protocol.cc:64`): its result and the
counter. -/
def asyncWriteMessageBegin (g_atomic_i32_seq_id : BitVec 32) (name : Bytes)
    (messageType : TMessageType) (seqid : BitVec 32) :
    Call TMemoryBuffer (BitVec 32 × BitVec 32) := do
  let (i32_seq_id, g_atomic_i32_seq_id) := takeSeqID g_atomic_i32_seq_id seqid
  if p.strict_write then
    let version := VERSION_1 ||| messageType.toInt32
    let n1 ← writeI32 host TMemoryBuffer.trans version
    let n2 ← writeString host TMemoryBuffer.trans name
    let n3 ← writeI32 host TMemoryBuffer.trans i32_seq_id
    let n4 ← writeI32 host TMemoryBuffer.trans version
    let n5 ← writeString host TMemoryBuffer.trans name
    let n6 ← writeI32 host TMemoryBuffer.trans i32_seq_id
    return (n1 + n2 + n3 + n4 + n5 + n6, g_atomic_i32_seq_id)
  else
    let n1 ← writeString host TMemoryBuffer.trans name
    let n2 ← writeByte TMemoryBuffer.trans (.ofBitVec (messageType.toInt32.setWidth 8))
    let n3 ← writeI32 host TMemoryBuffer.trans i32_seq_id
    let n4 ← writeString host TMemoryBuffer.trans name
    let n5 ← writeByte TMemoryBuffer.trans (.ofBitVec (messageType.toInt32.setWidth 8))
    let n6 ← writeI32 host TMemoryBuffer.trans i32_seq_id
    return (n1 + n2 + n3 + n4 + n5 + n6, g_atomic_i32_seq_id)

end

end CthriftTBinaryProtocolT

/- What `sendAndRecvMessage` (`cthrift_client_channel.cc:26`) has made of a message: the id as it
goes into the context, the buffer that is sent, and the one that it came in. -/
structure AsyncMessage where
  seqid : BitVec 32
  str_id : String
  sp_send_tmembuf : TMemoryBuffer
  sendBuf : TMemoryBuffer
  deriving DecidableEq, Repr

/- A `TMemoryBuffer` holds fewer than 2^32 bytes, so that `getBuffer` gives all of them; and a cast
of an `int` to a string does not fail. -/
def sendAndRecvMessage (host : Endian) (sendBuf : TMemoryBuffer) : Except Thrown AsyncMessage := do
  let sp_send_tmembuf := TMemoryBuffer.resetBuffer sendBuf.unread
  let (seqid, sp_send_tmembuf) ←
    CthriftTBinaryProtocolT.getSeqID host TMemoryBuffer.trans .new sp_send_tmembuf
  return {
    seqid := seqid
    str_id := lexicalCast seqid.toInt
    sp_send_tmembuf := sp_send_tmembuf
    sendBuf := ⟨[]⟩ }

namespace CthriftTBinaryProtocolT

/-! ### On a `TMemoryBuffer` -/

def counted {α : Type} (n : α → BitVec 32) (x : Except TException (α × TMemoryBuffer)) :
    Except Thrown ((α × BitVec 32) × TMemoryBuffer) :=
  match x with
  | .ok (a, m) => .ok ((a, n a), m)
  | .error e => .error (.exception e)

theorem readI32_memory (host : Endian) (m : TMemoryBuffer) :
    readI32 host TMemoryBuffer.trans m =
      counted (fun _ => 4) (CthriftTBinaryProtocol.readI32 m) := by
  obtain ⟨bytes⟩ := m
  by_cases h : 4 ≤ bytes.length
  · have hlen : (bytes.take 4).length = 4 := List.length_take_of_le h
    rw [CthriftTBinaryProtocol.readI32_ok h, counted, ← ofObjectBytes_networkToHost32 host hlen]
    simp only [readI32, bind, StateT.bind, readAll, TMemoryBuffer.trans, TMemoryBuffer.readAll,
      if_pos h]
    rfl
  · rw [CthriftTBinaryProtocol.readI32_short (Nat.lt_of_not_le h)]
    simp only [readI32, bind, StateT.bind, readAll, TMemoryBuffer.trans, TMemoryBuffer.readAll,
      if_neg h]
    rfl

theorem readStringBody_memory (p : CthriftTBinaryProtocolT) (size : BitVec 32) (m : TMemoryBuffer) :
    readStringBody TMemoryBuffer.trans p size m =
      counted (fun _ => size) (p.toCthriftTBinaryProtocol.readStringBody size m) := by
  unfold readStringBody CthriftTBinaryProtocol.readStringBody
  by_cases hneg : size.toInt < 0
  · rw [if_pos hneg, if_pos hneg]
    rfl
  by_cases hlimit : 0 < p.string_limit ∧ p.string_limit < size.toInt
  · rw [if_neg hneg, if_neg hneg, if_pos hlimit, if_pos hlimit]
    rfl
  by_cases hzero : size = 0
  · rw [if_neg hneg, if_neg hneg, if_neg hlimit, if_neg hlimit, if_pos hzero, if_pos hzero, hzero]
    rfl
  rw [if_neg hneg, if_neg hneg, if_neg hlimit, if_neg hlimit, if_neg hzero, if_neg hzero]
  by_cases hlen : size.toNat ≤ m.unread.length
  · have hborrow : TMemoryBuffer.trans.borrow m size.toNat = (some m.unread, m) :=
      congrArg (·, m) (if_pos hlen)
    have hconsume : TMemoryBuffer.trans.consume m size.toNat = .ok ⟨m.unread.drop size.toNat⟩ :=
      if_pos hlen
    simp only [bind, StateT.bind, Except.bind, borrow, hborrow, consume, hconsume,
      TMemoryBuffer.borrow, TMemoryBuffer.consume, if_pos hlen]
    rfl
  · have hborrow : TMemoryBuffer.trans.borrow m size.toNat = (none, m) :=
      congrArg (·, m) (if_neg hlen)
    have hread : TMemoryBuffer.trans.readAll m size.toNat = .error .transport_END_OF_FILE :=
      if_neg hlen
    simp only [bind, StateT.bind, Except.bind, borrow, hborrow, readAll, hread,
      TMemoryBuffer.borrow, TMemoryBuffer.readAll, if_neg hlen]
    rfl

/-- What `GetSeqID` returns is what the frames are told by. -/
theorem getSeqID_memory (host : Endian) (p : CthriftTBinaryProtocolT) (m : TMemoryBuffer) :
    (getSeqID host TMemoryBuffer.trans p m).map Prod.fst =
      (p.toCthriftTBinaryProtocol.getSeqID m).mapError Thrown.exception := by
  unfold getSeqID CthriftTBinaryProtocol.getSeqID
  simp only [bind, StateT.bind, readI32_memory]
  cases hsize : CthriftTBinaryProtocol.readI32 m with
  | error e => rfl
  | ok r =>
    obtain ⟨size, m⟩ := r
    simp only [counted, Except.bind]
    by_cases hstrict : size.toInt < 0 ∧ size &&& VERSION_MASK = VERSION_1
    · rw [if_pos hstrict, if_pos hstrict]
      simp only [readString, CthriftTBinaryProtocol.readString, bind, StateT.bind, readI32_memory]
      cases CthriftTBinaryProtocol.readI32 m with
      | error e => rfl
      | ok r =>
        simp only [counted, Except.bind, readStringBody_memory]
        cases p.toCthriftTBinaryProtocol.readStringBody r.1 r.2 with
        | error e => rfl
        | ok r =>
          simp only [pure_call]
          cases CthriftTBinaryProtocol.readI32 r.2 with
          | error e => rfl
          | ok r => rfl
    · rw [if_neg hstrict, if_neg hstrict]
      by_cases hold : 0 ≤ size.toInt ∧ p.strict_read = false
      · rw [if_pos hold, if_pos hold]
        simp only [StateT.bind, readStringBody_memory]
        cases p.toCthriftTBinaryProtocol.readStringBody size m with
        | error e => rfl
        | ok r =>
          simp only [counted, Except.bind, readByte, bind, StateT.bind, readAll]
          by_cases h1 : 1 ≤ r.2.unread.length
          · have hread : TMemoryBuffer.trans.readAll r.2 1 =
              .ok (r.2.unread.take 1, ⟨r.2.unread.drop 1⟩) := if_pos h1
            simp only [CthriftTBinaryProtocol.readByte, TMemoryBuffer.readAll, if_pos h1, hread,
              pure_call, readI32_memory]
            cases CthriftTBinaryProtocol.readI32 ⟨r.2.unread.drop 1⟩ with
            | error e => rfl
            | ok r => rfl
          · have hread : TMemoryBuffer.trans.readAll r.2 1 = .error .transport_END_OF_FILE :=
              if_neg h1
            simp only [CthriftTBinaryProtocol.readByte, TMemoryBuffer.readAll, if_neg h1, hread]
            rfl
      · rw [if_neg hold, if_neg hold]
        rfl

/-! ### One header -/

/-- The bytes of a header in the format that `p` writes. -/
def headerBytes (host : Endian) (p : CthriftTBinaryProtocolT) (name : Bytes)
    (messageType : TMessageType) (seqid : BitVec 32) : Bytes :=
  if p.strict_write then
    i32Bytes host (VERSION_1 ||| messageType.toInt32) ++
      ((i32Bytes host (.ofNat 32 name.length) ++ name) ++ i32Bytes host seqid)
  else
    (i32Bytes host (.ofNat 32 name.length) ++ name) ++
      ([.ofBitVec (messageType.toInt32.setWidth 8)] ++ i32Bytes host seqid)

variable {σ : Type} {host : Endian} {trans : TTransport σ} {p q : CthriftTBinaryProtocolT}
  {name : Bytes}

theorem string_writes {str : Bytes} (hlen : str.length < 2 ^ 31) :
    Writes trans.unread (writeString host trans str) (i32Bytes host (.ofNat 32 str.length) ++ str)
      (4 + .ofNat 32 str.length) :=
  (i32_roundTrip _).writes.bind (stringBody_writes hlen _)

theorem headerBytes_host (host host' : Endian) (p : CthriftTBinaryProtocolT) (name : Bytes)
    (type : TMessageType) (seqid : BitVec 32) :
    headerBytes host p name type seqid = headerBytes host' p name type seqid := by
  have hi32 : ∀ i32, i32Bytes host i32 = i32Bytes host' i32 := fun i32 =>
    (objectBytes_hostToNetwork32 host i32).trans (objectBytes_hostToNetwork32 host' i32).symm
  simp only [headerBytes, hi32]

theorem headerBytes_reads (hfit : FitsString q name)
    (hstrict : p.strict_write = true ∨ q.strict_read = false) (type : TMessageType)
    (seqid : BitVec 32) :
    ∃ n, Reads trans.unread (readMessageBegin host trans q) (headerBytes host p name type seqid)
      ((name, type.toInt32, seqid), n) := by
  unfold headerBytes
  by_cases hw : p.strict_write = true
  · rw [if_pos hw]
    exact ⟨_, (strictHeader_roundTrip (p := { q with strict_write := true }) rfl hfit type
      seqid).reads⟩
  · rw [if_neg hw]
    have hr := hstrict.resolve_left hw
    exact ⟨_, (oldHeader_roundTrip (p := { q with strict_write := false }) Bool.false_ne_true hr
      hfit type seqid).reads⟩

theorem headerBytes_getSeqID (hfit : FitsString q name)
    (hstrict : p.strict_write = true ∨ q.strict_read = false) (type : TMessageType)
    (seqid : BitVec 32) :
    Reads trans.unread (getSeqID host trans q) (headerBytes host p name type seqid) seqid := by
  unfold headerBytes getSeqID
  by_cases hw : p.strict_write = true
  · obtain ⟨hneg, hversion, -⟩ := version_word type
    rw [if_pos hw]
    apply (i32_roundTrip _).reads.bind
    dsimp only
    rw [if_pos ⟨hneg, hversion⟩]
    exact (string_roundTrip hfit).reads.bind ((i32_roundTrip seqid).reads.map Prod.fst)
  · have hsize := (toInt_ofNat_size hfit.1).1
    rw [if_neg hw, List.append_assoc]
    apply (i32_roundTrip _).reads.bind
    dsimp only
    rw [if_neg (by omega), if_pos ⟨by omega, hstrict.resolve_left hw⟩]
    exact (readStringBody_reads hfit).bind
      ((byte_roundTrip _).reads.bind ((i32_roundTrip seqid).reads.map Prod.fst))

/-! ### Two headers and a payload -/

theorem takeSeqID_positive {seqid : BitVec 32} (hpos : 0 < seqid.toInt) (counter : BitVec 32) :
    takeSeqID counter seqid = (seqid, counter) := by
  apply if_neg
  rintro rfl
  exact absurd hpos (by decide)

theorem asyncWriteMessageBegin_writes (hlen : name.length < 2 ^ 31) {seqid : BitVec 32}
    (hpos : 0 < seqid.toInt) (counter : BitVec 32) (type : TMessageType) :
    ∃ n, Writes TMemoryBuffer.unread (asyncWriteMessageBegin host p counter name type seqid)
      (headerBytes host p name type seqid ++ headerBytes host p name type seqid) (n, counter) := by
  have hi32 : ∀ i32, Writes TMemoryBuffer.unread (writeI32 host TMemoryBuffer.trans i32)
      (i32Bytes host i32) 4 := fun i32 => (i32_roundTrip i32).writes
  have hname : Writes TMemoryBuffer.unread (writeString host TMemoryBuffer.trans name) _ _ :=
    string_writes hlen
  unfold asyncWriteMessageBegin headerBytes
  rw [takeSeqID_positive hpos]
  dsimp only
  by_cases hw : p.strict_write = true
  · rw [if_pos hw, if_pos hw, List.append_assoc, List.append_assoc (_ ++ name)]
    exact ⟨_, (hi32 _).bind (hname.bind ((hi32 _).bind ((hi32 _).bind (hname.bind
      ((hi32 _).map fun n => (_ + n, counter))))))⟩
  · have hbyte : Writes TMemoryBuffer.unread (writeByte TMemoryBuffer.trans _) _ 1 :=
      (byte_roundTrip (.ofBitVec (type.toInt32.setWidth 8))).writes
    rw [if_neg hw, if_neg hw, List.append_assoc, List.append_assoc [_]]
    exact ⟨_, hname.bind (hbyte.bind ((hi32 _).bind (hname.bind (hbyte.bind
      ((hi32 _).map fun n => (_ + n, counter))))))⟩

theorem fits_new (h : (name.length : Int) ≤ g_string_limit) : FitsString new name := by
  refine ⟨?_, fun _ => h⟩
  unfold g_string_limit at h
  omega

/-- Whatever is written behind the two headers, `sendAndRecvMessage` gets the id from the first one,
and what it sends is the second one with the payload behind it. -/
theorem async_double_header (host : Endian) (p : CthriftTBinaryProtocolT) {name : Bytes}
    (hname : (name.length : Int) ≤ g_string_limit) (type : TMessageType) {seqid : BitVec 32}
    (hpos : 0 < seqid.toInt) (counter : BitVec 32) {α : Type} {writePayload : Call TMemoryBuffer α}
    {payload : Bytes} {a : α} (hpayload : Writes TMemoryBuffer.unread writePayload payload a) :
    ∃ n m header,
      (asyncWriteMessageBegin host p counter name type seqid >>= fun r =>
        writePayload >>= fun a => pure (r, a)) ⟨[]⟩ = .ok (((n, counter), a), m) ∧
      sendAndRecvMessage host m = .ok ⟨seqid, lexicalCast seqid.toInt, ⟨header ++ payload⟩, ⟨[]⟩⟩ ∧
      ∀ {σ : Type} (host' : Endian) (trans : TTransport σ) (q : CthriftTBinaryProtocolT),
        FitsString q name → (p.strict_write = true ∨ q.strict_read = false) →
        ∃ n, Reads trans.unread (readMessageBegin host' trans q) header
          ((name, type.toInt32, seqid), n) := by
  have hfit := fits_new hname
  have hbegin : ∃ n, Writes TMemoryBuffer.unread (asyncWriteMessageBegin host p counter name type
      seqid) _ (n, counter) := asyncWriteMessageBegin_writes hfit.1 hpos counter type
  obtain ⟨n, hheader⟩ := hbegin
  have hboth := hheader.bind (f := fun r => writePayload >>= fun a => pure (r, a))
    (hpayload.map fun a => ((n, counter), a))
  obtain ⟨m, hm, hunread⟩ := hboth ⟨[]⟩
  refine ⟨n, m, headerBytes host p name type seqid, hm, ?_, ?_⟩
  · have hid : Reads TMemoryBuffer.trans.unread (getSeqID host TMemoryBuffer.trans new) _ seqid :=
      headerBytes_getSeqID (p := p) hfit (.inr rfl) type seqid
    rw [List.nil_append, List.append_assoc] at hunread
    obtain ⟨⟨rest⟩, ht, hrest⟩ := hid (.resetBuffer m.unread) _ hunread
    subst hrest
    exact congrArg (· >>= fun r : BitVec 32 × TMemoryBuffer =>
      Except.ok (⟨r.1, lexicalCast r.1.toInt, r.2, ⟨[]⟩⟩ : AsyncMessage)) ht
  · intro σ host' trans q hq hstrict
    rw [headerBytes_host host host']
    exact headerBytes_reads hq hstrict type seqid

/- The header without a version of the name `echo`, and a payload of one byte. -/
theorem async_double_header_echo :
    ∃ m header, sendAndRecvMessage .little m =
        .ok ⟨7, lexicalCast (7 : BitVec 32).toInt, ⟨header ++ [0]⟩, ⟨[]⟩⟩ ∧
      ∃ n, readMessageBegin .big TMemoryBuffer.trans new ⟨header ++ [0]⟩ =
        .ok ((([101, 99, 104, 111], TMessageType.T_CALL.toInt32, 7), n), ⟨[0]⟩) := by
  have hpayload : Writes TMemoryBuffer.unread (write TMemoryBuffer.trans [0]) [0] () :=
    write_writes [0]
  obtain ⟨-, m, header, -, hsend, hread⟩ := async_double_header .little oldFormat
    (show (([101, 99, 104, 111] : Bytes).length : Int) ≤ g_string_limit by decide) .T_CALL
    (show 0 < (7 : BitVec 32).toInt by decide) 1 hpayload
  obtain ⟨n, hn⟩ := hread .big TMemoryBuffer.trans new (fits_new (by decide)) (.inr rfl)
  obtain ⟨⟨rest⟩, ht, hrest⟩ := hn ⟨header ++ [0]⟩ [0] rfl
  cases hrest
  exact ⟨m, header, hsend, n, ht⟩

end CthriftTBinaryProtocolT

end TstMuduo.Cthrift
