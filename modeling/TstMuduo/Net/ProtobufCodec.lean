import Mathlib.Data.List.Forall2
import TstMuduo.Lib.FrameCodec
import TstMuduo.Net.ProtobufCodecLite

/-!
# The codec with type names (examples/tstprotobuf/codec/codec.h, codec.cc, dispatcher.h)

A frame is the length of the rest in network order, the length of the type name with its
NUL, the name, the NUL, the message and a checksum. Behind the codec a dispatcher calls
what is registered for the type of the message.
-/

namespace TstMuduo.Net
open TstMuduo.Lib

/-- What the codec uses of protobuf: the descriptors of messages, the names of descriptors,
the generated types by name, and the wire format. `adler32` is zlib's. -/
structure ProtobufRuntime (Msg Desc : Type) where
  descriptor : Msg → Desc
  fullName : Desc → Bytes
  findMessageTypeByName : Bytes → Option Desc
  serialize : Msg → Bytes
  parseFromArray : Desc → Bytes → Option Msg
  adler32 : Bytes → BitVec 32

namespace ProtobufCodec

def kMinMessageLen : Nat := 2 * kHeaderLen + 2

end ProtobufCodec

/-- `ProtobufCodec`, with what its `errorCallback_` does. -/
structure ProtobufCodec (Msg Desc : Type) where
  runtime : ProtobufRuntime Msg Desc
  errorCallback : CodecState Msg → ErrorCode → CodecState Msg

namespace ProtobufCodec

variable {Msg Desc : Type}

/- `defaultErrorCallback` (`codec.cc:94`). -/
def defaultErrorCallback (s : CodecState Msg) (code : ErrorCode) : CodecState Msg :=
  let text := "ProtobufCodec::defaultErrorCallback - " ++ errorCodeToString code
  if s.connected then
    { s with connected := false, events := s.events ++ [.logError text, .shutdown] }
  else { s with events := s.events ++ [.logError text] }

def new (runtime : ProtobufRuntime Msg Desc) : ProtobufCodec Msg Desc :=
  ⟨runtime, defaultErrorCallback⟩

/- `fillEmptyBuffer` (`codec.cc:14`). -/
def fillEmptyBuffer (r : ProtobufRuntime Msg Desc) (retbuf : Buffer) (message : Msg) :
    Except Assertion Buffer := do
  check (retbuf.readableBytes = 0) .codecEmptyBuffer
  let typeName := r.fullName (r.descriptor message)
  let nameLen := typeName.length + 1
  let b ← retbuf.appendInt32 (.ofNat 32 nameLen)
  let named ← b.append (typeName ++ [0])
  let byteSize := (r.serialize message).length
  let w ← named.ensureWritableBytes byteSize
  let filled ← (w.val.copyIn (r.serialize message) w.property).hasWritten byteSize
  let summed ← filled.appendInt32 (r.adler32 filled.contents)
  check (summed.readableBytes = kHeaderLen + nameLen + byteSize + kChecksumLen) .codecFrameLength
  summed.prepend (hostToNetwork32 (.ofNat 32 summed.readableBytes))

/- `createMessage` (`codec.cc:146`), for the descriptor of the new object. -/
def createMessage (r : ProtobufRuntime Msg Desc) (typeName : Bytes) : Option Desc :=
  r.findMessageTypeByName typeName

/- `parse` (`codec.cc:162`). -/
def parse (r : ProtobufRuntime Msg Desc) (buf : Bytes) : Except ErrorCode Msg :=
  let len := buf.length
  let expectedCheckSum := networkToHost32 (buf.drop (len - kHeaderLen))
  let checkSum := r.adler32 (buf.take (len - kHeaderLen))
  if checkSum = expectedCheckSum then
    let nameLen := networkToHost32 (buf.take kHeaderLen)
    if 2 < nameLen.toInt ∧ nameLen.toInt ≤ (len : Int) - 2 * (kHeaderLen : Int) then
      let typeName := (buf.drop kHeaderLen).take (nameLen.toNat - 1)
      match createMessage r typeName with
      | some desc =>
        let dataLen := len - nameLen.toNat - 2 * kHeaderLen
        match r.parseFromArray desc ((buf.drop (kHeaderLen + nameLen.toNat)).take dataLen) with
        | some message => .ok message
        | none => .error .kParseError
      | none => .error .kUnknownMessageType
    else .error .kInvalidNameLen
  else .error .kCheckSumError

/- One turn of the loop of `onMessage` (`codec.cc:113`), and whether it is followed by
another one; the message callback comes before the `retrieve`. -/
def turn (c : ProtobufCodec Msg Desc) (s : CodecState Msg) :
    Except Assertion (Bool × CodecState Msg) :=
  if kMinMessageLen + kHeaderLen ≤ s.buffer.readableBytes then do
    let len ← s.buffer.peekInt32
    if (kMaxMessageLen : Int) < len.toInt ∨ len.toInt < kMinMessageLen then
      return (false, c.errorCallback s .kInvalidLength)
    else if len.toNat + kHeaderLen ≤ s.buffer.readableBytes then
      match parse c.runtime ((s.buffer.contents.drop kHeaderLen).take len.toNat) with
      | .ok message => do
        let called := { s with events := s.events ++ [CodecEvent.message message] }
        let b ← called.buffer.retrieve (kHeaderLen + len.toNat)
        return (true, { called with buffer := b })
      | .error errorCode => return (false, c.errorCallback s errorCode)
    else return (false, s)
  else return (false, s)

/- The loop, for at most `fuel` turns; `none` if it has not ended by then. -/
def loop (c : ProtobufCodec Msg Desc) :
    Nat → CodecState Msg → Except Assertion (Option (CodecState Msg))
  | 0, _ => .ok none
  | fuel + 1, s => do
    let (again, t) ← c.turn s
    if again then c.loop fuel t else return some t

/- `onMessage` (`codec.cc:111`). -/
def onMessage (c : ProtobufCodec Msg Desc) (s : CodecState Msg) :
    Except Assertion (Option (CodecState Msg)) :=
  c.loop (s.buffer.readableBytes + 1) s

/- Chunks that are appended to the input buffer, with `onMessage` after each one. -/
def receive (c : ProtobufCodec Msg Desc) :
    CodecState Msg → List Bytes → Except Assertion (Option (CodecState Msg))
  | s, [] => .ok (some s)
  | s, chunk :: chunks => do
    let b ← s.buffer.append chunk
    match ← c.onMessage { s with buffer := b } with
    | none => return none
    | some t => c.receive t chunks

end ProtobufCodec

/-! ### The dispatcher -/

/-- `ProtobufDispatcher`: what is registered for a descriptor, the later registration first. -/
structure ProtobufDispatcher (Desc Callback : Type) where
  callbacks : List (Desc × Callback)
  defaultCallback : Callback

namespace ProtobufDispatcher

variable {Desc Callback Msg : Type} [DecidableEq Desc]

def new (defaultCb : Callback) : ProtobufDispatcher Desc Callback := ⟨[], defaultCb⟩

/- `registerMessageCallback` (`dispatcher.h:70`): the assignment to `callbacks_[desc]`. -/
def registerMessageCallback (d : ProtobufDispatcher Desc Callback) (desc : Desc)
    (callback : Callback) : ProtobufDispatcher Desc Callback :=
  { d with callbacks := (desc, callback) :: d.callbacks.filter fun p => decide (p.1 ≠ desc) }

/- `onProtobufMessage` (`dispatcher.h:58`): the callback that gets the message. -/
def onProtobufMessage (r : ProtobufRuntime Msg Desc) (d : ProtobufDispatcher Desc Callback)
    (message : Msg) : Callback × Msg :=
  match d.callbacks.find? fun p => decide (p.1 = r.descriptor message) with
  | some p => (p.2, message)
  | none => (d.defaultCallback, message)

def registerAll (d : ProtobufDispatcher Desc Callback) (regs : List (Desc × Callback)) :
    ProtobufDispatcher Desc Callback :=
  regs.foldl (fun d p => d.registerMessageCallback p.1 p.2) d

end ProtobufDispatcher

/-! ### The frames -/

namespace ProtobufCodec

variable {Msg Desc : Type} {r : ProtobufRuntime Msg Desc}

/- The wire format, with any byte in the place of the NUL. -/
def body (r : ProtobufRuntime Msg Desc) (typeName : Bytes) (last : Byte) (data : Bytes) : Bytes :=
  let summed := hostToNetwork32 (.ofNat 32 (typeName.length + 1)) ++ (typeName ++ [last]) ++ data
  summed ++ hostToNetwork32 (r.adler32 summed)

def frame (r : ProtobufRuntime Msg Desc) (typeName : Bytes) (last : Byte) (data : Bytes) : Bytes :=
  hostToNetwork32 (.ofNat 32 (body r typeName last data).length) ++ body r typeName last data

def encoded (r : ProtobufRuntime Msg Desc) (message : Msg) : Bytes :=
  frame r (r.fullName (r.descriptor message)) 0 (r.serialize message)

theorem length_body (typeName : Bytes) (last : Byte) (data : Bytes) :
    (body r typeName last data).length = 2 * kHeaderLen + (typeName.length + 1) + data.length := by
  simp only [body, List.length_append, length_hostToNetwork32, List.length_singleton, kHeaderLen]
  omega

theorem length_frame (typeName : Bytes) (last : Byte) (data : Bytes) :
    (frame r typeName last data).length = kHeaderLen + (body r typeName last data).length := by
  rw [frame, List.length_append, length_hostToNetwork32]
  rfl

theorem fillEmptyBuffer_spec (r : ProtobufRuntime Msg Desc) (b : Buffer) (m : Msg)
    (he : b.contents = []) (hb : b.Reserved) :
    ∃ t, fillEmptyBuffer r b m = .ok t ∧ t.contents = encoded r m := by
  generalize hname : r.fullName (r.descriptor m) = typeName
  obtain ⟨b1, h1, hc1⟩ := b.append_spec (hostToNetwork32 (.ofNat 32 (typeName.length + 1)))
  rw [he, List.nil_append] at hc1
  obtain ⟨named, h2, hc2⟩ := b1.append_spec (typeName ++ [0])
  rw [hc1] at hc2
  obtain ⟨w, hw, hcw⟩ := named.ensureWritableBytes_spec (r.serialize m).length
  obtain ⟨filled, hf, hcf, hfi⟩ := w.val.hasWritten_copyIn (r.serialize m) w.property
  rw [hcw, hc2] at hcf
  obtain ⟨summed, hs, hcs⟩ :=
    filled.append_spec (hostToNetwork32 (r.adler32 filled.contents))
  have hbody : summed.contents = body r typeName 0 (r.serialize m) := by
    rw [hcs, hcf]
    rfl
  have hlen : summed.readableBytes =
      kHeaderLen + (typeName.length + 1) + (r.serialize m).length + kChecksumLen := by
    rw [← Buffer.length_contents, hbody, length_body]
    simp only [kHeaderLen, kChecksumLen]
    omega
  have hroom : (hostToNetwork32 (.ofNat 32 summed.readableBytes)).length ≤
      summed.prependableBytes := by
    have hwr := ((hb.append h1).append h2).ensureWritableBytes hw
    have hfr : filled.Reserved := by
      unfold Buffer.Reserved Buffer.prependableBytes at hwr ⊢
      omega
    have hres := hfr.append hs
    unfold Buffer.Reserved kCheapPrepend at hres
    rw [length_hostToNetwork32]
    omega
  obtain ⟨t, ht, htc, _⟩ := summed.prepend_spec _ hroom
  refine ⟨t, ?_, ?_⟩
  · have hempty : b.readableBytes = 0 := b.contents_eq_nil.mp he
    simp only [fillEmptyBuffer, check_ok hempty, ok_bind, hname, Buffer.appendInt32, h1, h2, hw,
      hf, hs, check_ok hlen, ht]
  · rw [htc, ← Buffer.length_contents, hbody, encoded, hname]
    rfl

/-! ### What `onMessage` makes of the stream -/

/- The two tests of the length, and `parse`. -/
def frames (r : ProtobufRuntime Msg Desc) : FrameCodec Byte ErrorCode Msg where
  headLen := kHeaderLen
  minLen := kMinMessageLen + kHeaderLen
  headLen_pos := by decide
  headLen_le := by decide
  size head :=
    let len := networkToHost32 head
    if (kMaxMessageLen : Int) < len.toInt ∨ len.toInt < kMinMessageLen then .error .kInvalidLength
    else .ok len.toNat
  parse := parse r

variable {c : ProtobufCodec Msg Desc}

/-- A turn of the loop goes by what is at the front of the input. -/
theorem turn_spec (c : ProtobufCodec Msg Desc) (s : CodecState Msg) :
    match (frames c.runtime).front s.buffer.contents with
    | .short => c.turn s = .ok (false, s)
    | .bad e => c.turn s = .ok (false, c.errorCallback s e)
    | .good n m =>
      ∃ b, c.turn s = .ok (true, { s with buffer := b, events := s.events ++ [.message m] }) ∧
        b.contents = s.buffer.contents.drop n := by
  have hcontents := s.buffer.length_contents
  by_cases hmin : kMinMessageLen + kHeaderLen ≤ s.buffer.readableBytes
  · have hread :
        s.buffer.peekInt32 = .ok (networkToHost32 (s.buffer.contents.take kHeaderLen)) := by
      have h4 : 4 ≤ s.buffer.readableBytes := by
        unfold kMinMessageLen kHeaderLen at hmin
        omega
      simp only [Buffer.peekInt32, check_ok h4, ok_bind]
      rfl
    have hminC : (frames c.runtime).minLen ≤ s.buffer.contents.length := by
      rw [hcontents]
      exact hmin
    simp only [turn]
    rw [if_pos hmin, hread]
    generalize hl : networkToHost32 (s.buffer.contents.take kHeaderLen) = len
    simp only [ok_bind]
    by_cases hbad : (kMaxMessageLen : Int) < len.toInt ∨ len.toInt < kMinMessageLen
    · rw [if_pos hbad, FrameCodec.front_of_head_error (e := .kInvalidLength) hminC
        (by simp only [frames, hl]; exact if_pos hbad)]
      rfl
    · have hsize : (frames c.runtime).size (s.buffer.contents.take (frames c.runtime).headLen) =
          .ok len.toNat := by
        simp only [frames, hl]
        exact if_neg hbad
      rw [if_neg hbad, Nat.add_comm len.toNat kHeaderLen]
      by_cases hlen : kHeaderLen + len.toNat ≤ s.buffer.readableBytes
      · have hlenC : (frames c.runtime).headLen + len.toNat ≤ s.buffer.contents.length := by
          rw [hcontents]
          exact hlen
        obtain ⟨b, hb, hc⟩ := s.buffer.retrieve_spec _ hlen
        rw [if_pos hlen]
        cases hp : parse c.runtime ((s.buffer.contents.drop kHeaderLen).take len.toNat) with
        | error e =>
          rw [FrameCodec.front_of_body_error hminC hsize hlenC hp]
          rfl
        | ok m =>
          rw [FrameCodec.front_of_body hminC hsize hlenC hp]
          refine ⟨b, ?_, hc⟩
          simp only [hb, ok_bind]
          rfl
      · rw [if_neg hlen, FrameCodec.front_of_incomplete hminC hsize
          (by rw [hcontents]; exact Nat.lt_of_not_le hlen)]
        rfl
  · simp only [turn]
    rw [if_neg hmin, FrameCodec.front_of_lt (by rw [hcontents]; exact Nat.lt_of_not_le hmin)]
    rfl

def afterMessages (s : CodecState Msg) (b : Buffer) (ms : List Msg) : CodecState Msg :=
  { s with buffer := b, events := s.events ++ ms.map .message }

def afterLoop (c : ProtobufCodec Msg Desc) (s : CodecState Msg) : Option ErrorCode → CodecState Msg
  | none => s
  | some e => c.errorCallback s e

theorem loop_spec {fuel : Nat} {s : CodecState Msg} (hfuel : s.buffer.readableBytes < fuel) :
    ∃ b, b.contents = ((frames c.runtime).decode s.buffer.contents).rest ∧
      c.loop fuel s = .ok (some (c.afterLoop
        (afterMessages s b ((frames c.runtime).decode s.buffer.contents).messages)
        ((frames c.runtime).decode s.buffer.contents).error)) := by
  induction fuel generalizing s with
  | zero => omega
  | succ fuel ih =>
    have hturn := turn_spec c s
    simp only [loop]
    cases hf : (frames c.runtime).front s.buffer.contents with
    | short =>
      rw [hf] at hturn
      rw [FrameCodec.decode_of_short hf, hturn]
      exact ⟨s.buffer, rfl, by simp [afterMessages, afterLoop, ok_bind]; rfl⟩
    | bad e =>
      rw [hf] at hturn
      rw [FrameCodec.decode_of_bad hf, hturn]
      exact ⟨s.buffer, rfl, by simp [afterMessages, afterLoop, ok_bind]; rfl⟩
    | good n m =>
      rw [hf] at hturn
      obtain ⟨b, hb, hc⟩ := hturn
      have hpos := FrameCodec.front_good_le hf
      have hlt : b.readableBytes < fuel := by
        rw [← Buffer.length_contents] at hfuel ⊢
        rw [hc, List.length_drop]
        omega
      obtain ⟨b', hb', hl⟩ :=
        ih (s := { s with buffer := b, events := s.events ++ [.message m] }) hlt
      simp only [hc] at hb' hl
      rw [FrameCodec.decode_of_good hf, hb]
      refine ⟨b', hb', ?_⟩
      simp only [ok_bind, if_true, hl]
      simp [afterMessages]

def errorText (e : ErrorCode) : String :=
  "ProtobufCodec::defaultErrorCallback - " ++ errorCodeToString e

def report (connected : Bool) (e : ErrorCode) : List (CodecEvent Msg) :=
  if connected then [.logError (errorText e), .shutdown] else [.logError (errorText e)]

theorem defaultErrorCallback_eq (s : CodecState Msg) (e : ErrorCode) :
    defaultErrorCallback s e =
      { s with connected := false, events := s.events ++ report s.connected e } := by
  obtain ⟨buffer, connected, events⟩ := s
  cases connected with
  | true => rfl
  | false => rfl

/- The malformed frame shows in the last of the chunks `before ++ [chunk]`. -/
def ErrorAt (r : ProtobufRuntime Msg Desc) (e : ErrorCode) (before : List Bytes) (chunk : Bytes) :
    Prop :=
  ((frames r).decode before.flatten).error = none ∧
    ((frames r).decode (before ++ [chunk]).flatten).error = some e

/- What has come of a connection on which the chunks `seen` were received: the messages in order,
then the report of the malformed frame, which is repeated with every later chunk. -/
def ReadsAs (r : ProtobufRuntime Msg Desc) (connected : Bool) (seen : List Bytes)
    (s : CodecState Msg) : Prop :=
  let d := (frames r).decode seen.flatten
  s.buffer.contents = d.rest ∧
    match d.error with
    | none => s.connected = connected ∧ s.events = d.messages.map .message
    | some e => s.connected = false ∧ ∃ before chunk after, seen = before ++ chunk :: after ∧
        ErrorAt r e before chunk ∧
        s.events = d.messages.map .message ++ report connected e ++
          List.replicate after.length (.logError (errorText e))

theorem ReadsAs.chunk {connected : Bool} {seen : List Bytes} {chunk : Bytes} {s : CodecState Msg}
    {b : Buffer} (h : ReadsAs r connected seen s)
    (hb : b.contents = s.buffer.contents ++ chunk) :
    ∃ t, (new r).onMessage { s with buffer := b } = .ok (some t) ∧
      ReadsAs r connected (seen ++ [chunk]) t := by
  obtain ⟨hrest, hstate⟩ := h
  obtain ⟨b', hb', hloop⟩ :=
    loop_spec (c := new r) (s := { s with buffer := b }) (Nat.lt_succ_self _)
  have hflat : (seen ++ [chunk]).flatten = seen.flatten ++ chunk := by
    rw [List.flatten_append, List.flatten_singleton]
  have happ := (frames r).decode_append seen.flatten chunk
  rw [← hrest, ← hb, ← hflat] at happ
  refine ⟨_, hloop, ?_⟩
  change b'.contents = ((frames r).decode b.contents).rest at hb'
  change ReadsAs r connected (seen ++ [chunk])
    ((new r).afterLoop
      (afterMessages { s with buffer := b } b' ((frames r).decode b.contents).messages)
      ((frames r).decode b.contents).error)
  cases hold : ((frames r).decode seen.flatten).error with
  | none =>
    rw [hold] at hstate
    obtain ⟨hconn, hevents⟩ := hstate
    have herr := congrArg Decoded.error happ
    simp only [ReadsAs, happ]
    cases hnew : ((frames r).decode b.contents).error with
    | none =>
      refine ⟨hb', hconn, ?_⟩
      simp only [afterLoop, afterMessages, hevents, List.map_append]
    | some e =>
      refine ⟨?_, ?_⟩
      · simp only [afterLoop, ProtobufCodec.new, defaultErrorCallback_eq]
        exact hb'
      · simp only [afterLoop, ProtobufCodec.new, defaultErrorCallback_eq, afterMessages]
        refine ⟨trivial, seen, chunk, [], rfl, ⟨hold, herr.trans hnew⟩, ?_⟩
        rw [hevents, hconn, List.map_append, List.length_nil, List.replicate_zero,
          List.append_nil]
  | some e =>
    rw [hold] at hstate
    obtain ⟨hconn, before, first, after, hseen, hat, hevents⟩ := hstate
    have hover := FrameCodec.decode_append_of_error chunk hold
    rw [← hflat] at hover
    have heq := happ.symm.trans hover
    simp only [Decoded.mk.injEq, List.append_right_eq_self] at heq
    obtain ⟨hmsgs, herr, hr⟩ := heq
    simp only [ReadsAs, hover, hmsgs, herr, afterLoop, ProtobufCodec.new, defaultErrorCallback_eq]
    refine ⟨?_, trivial, before, first, after ++ [chunk], ?_, hat, ?_⟩
    · rw [← hr]
      exact hb'
    · rw [hseen, List.append_assoc]
      rfl
    · simp only [afterMessages, List.map_nil, List.append_nil]
      rw [hevents, hconn, List.length_append, List.length_singleton, List.replicate_succ',
        ← List.append_assoc]
      rfl

theorem ReadsAs.start {b : Buffer} (hb : b.contents = []) (connected : Bool) :
    ReadsAs r connected [] ⟨b, connected, []⟩ := by
  have hshort : (frames r).front [] = .short :=
    FrameCodec.front_of_lt (show 0 < kMinMessageLen + kHeaderLen by decide)
  simp only [ReadsAs, List.flatten_nil, FrameCodec.decode_of_short hshort]
  exact ⟨hb, trivial, rfl⟩

theorem receive_readsAs {connected : Bool} {seen : List Bytes} {s : CodecState Msg}
    (h : ReadsAs r connected seen s) (chunks : List Bytes) :
    ∃ t, (new r).receive s chunks = .ok (some t) ∧ ReadsAs r connected (seen ++ chunks) t := by
  induction chunks generalizing s seen with
  | nil =>
    rw [List.append_nil]
    exact ⟨s, rfl, h⟩
  | cons chunk chunks ih =>
    obtain ⟨b, hb, hc⟩ := s.buffer.append_spec chunk
    obtain ⟨t, ht, hread⟩ := h.chunk hc
    rw [List.append_cons]
    simp only [receive, hb, ok_bind, ht]
    exact ih hread

/-! ### Which frames are accepted -/

theorem toInt_of_range {x : BitVec 32} {n : Nat} (hlo : 0 ≤ x.toInt) (hn : x.toInt ≤ n) :
    x.toInt = x.toNat ∧ x.toNat ≤ n := by
  have hlt := x.isLt
  rw [BitVec.toInt_eq_toNat_cond] at hlo hn ⊢
  split at hlo
  next hsmall =>
    rw [if_pos hsmall] at hn ⊢
    exact ⟨rfl, by omega⟩
  · omega

def summed (typeName : Bytes) (last : Byte) (data : Bytes) : Bytes :=
  hostToNetwork32 (.ofNat 32 (typeName.length + 1)) ++ (typeName ++ [last]) ++ data

theorem body_eq (typeName : Bytes) (last : Byte) (data : Bytes) :
    body r typeName last data = summed typeName last data ++
      hostToNetwork32 (r.adler32 (summed typeName last data)) := rfl

theorem length_summed (typeName : Bytes) (last : Byte) (data : Bytes) :
    (summed typeName last data).length = kHeaderLen + (typeName.length + 1) + data.length := by
  simp only [summed, List.length_append, length_hostToNetwork32, List.length_singleton, kHeaderLen]

theorem summed_of_fields {buf : Bytes} {n : Nat} (hn : 1 ≤ n)
    (hlen : n + 2 * kHeaderLen ≤ buf.length)
    (hname : buf.take kHeaderLen = hostToNetwork32 (.ofNat 32 n)) :
    ∃ last, buf.take (buf.length - kHeaderLen) =
      summed ((buf.drop kHeaderLen).take (n - 1)) last
        ((buf.drop (kHeaderLen + n)).take (buf.length - n - 2 * kHeaderLen)) := by
  have hnlen : ((buf.drop kHeaderLen).take (n - 1)).length + 1 = n := by
    rw [List.length_take, List.length_drop]
    omega
  have hone : ((buf.drop (kHeaderLen + (n - 1))).take 1).length = 1 := by
    rw [List.length_take, List.length_drop]
    omega
  obtain ⟨last, hlast⟩ := List.length_eq_one_iff.mp hone
  refine ⟨last, ?_⟩
  have hsplit : buf.length - kHeaderLen =
      kHeaderLen + (n - 1) + 1 + (buf.length - n - 2 * kHeaderLen) := by omega
  have hmid : kHeaderLen + (n - 1) + 1 = kHeaderLen + n := by omega
  rw [summed, hnlen, ← hname, ← hlast, hsplit, List.take_add, List.take_add, List.take_add, hmid,
    List.append_assoc (buf.take kHeaderLen)]

theorem parse_body (r : ProtobufRuntime Msg Desc) (typeName : Bytes) (last : Byte) (data : Bytes)
    (hmax : (body r typeName last data).length ≤ kMaxMessageLen) :
    parse r (body r typeName last data) =
      if 2 ≤ typeName.length then
        match createMessage r typeName with
        | some desc =>
          match r.parseFromArray desc data with
          | some m => .ok m
          | none => .error .kParseError
        | none => .error .kUnknownMessageType
      else .error .kInvalidNameLen := by
  have hlen := length_body (r := r) typeName last data
  have hslen := length_summed typeName last data
  have hsl : (body r typeName last data).length - kHeaderLen =
      (summed typeName last data).length := by
    omega
  have hsummed : (body r typeName last data).take (summed typeName last data).length =
      summed typeName last data := by
    rw [body_eq, List.take_left]
  have htail : (body r typeName last data).drop (summed typeName last data).length =
      hostToNetwork32 (r.adler32 (summed typeName last data)) := by
    rw [body_eq, List.drop_left]
  have hassoc : body r typeName last data = hostToNetwork32 (.ofNat 32 (typeName.length + 1)) ++
      (typeName ++ ([last] ++ (data ++
        hostToNetwork32 (r.adler32 (summed typeName last data))))) := by
    rw [body_eq, summed]
    simp only [List.append_assoc]
  have hhead : (body r typeName last data).take kHeaderLen =
      hostToNetwork32 (.ofNat 32 (typeName.length + 1)) := by
    rw [hassoc]
    exact List.take_left' (length_hostToNetwork32 _)
  have hrest : (body r typeName last data).drop kHeaderLen =
      typeName ++ ([last] ++ (data ++
        hostToNetwork32 (r.adler32 (summed typeName last data)))) := by
    rw [hassoc]
    exact List.drop_left' (length_hostToNetwork32 _)
  obtain ⟨hnat, hint⟩ :=
    ProtobufCodecLite.toInt_ofNat_length (n := typeName.length + 1) (by omega)
  have hdata : ((body r typeName last data).drop (kHeaderLen + (typeName.length + 1))).take
      ((body r typeName last data).length - (typeName.length + 1) - 2 * kHeaderLen) = data := by
    have hdl : (body r typeName last data).length - (typeName.length + 1) - 2 * kHeaderLen =
        data.length := by omega
    rw [hdl, ← List.drop_drop, hrest, ← List.append_assoc,
      List.drop_left' (by rw [List.length_append]; rfl), List.take_left]
  simp only [parse]
  rw [hsl, hsummed, htail, networkToHost32_hostToNetwork32, if_pos rfl, hhead,
    networkToHost32_hostToNetwork32, hint, hnat, hrest, Nat.add_sub_cancel, List.take_left, hdata]
  by_cases hname : 2 ≤ typeName.length
  · rw [if_pos (by omega), if_pos hname]
  · rw [if_neg (by omega), if_neg hname]

/-- `parse` accepts the bodies of the wire format with a name of two bytes or more, whatever
byte stands in the place of the NUL. -/
theorem parse_ok_iff {buf : Bytes} {m : Msg} (hmin : kMinMessageLen ≤ buf.length)
    (hmax : buf.length ≤ kMaxMessageLen) :
    parse r buf = .ok m ↔ ∃ typeName last data desc, buf = body r typeName last data ∧
      2 ≤ typeName.length ∧ createMessage r typeName = some desc ∧
      r.parseFromArray desc data = some m := by
  constructor
  · intro h
    simp only [parse] at h
    split at h
    next hsum =>
      split at h
      next hname =>
        split at h
        next desc hdesc =>
          split at h
          next m' hm =>
            cases h
            generalize hN : networkToHost32 (buf.take kHeaderLen) = N at hname hdesc hm
            obtain ⟨hint, _⟩ := toInt_of_range (x := N) (n := buf.length) (by omega) (by omega)
            have hhead : (buf.take kHeaderLen).length = 4 := by
              rw [List.length_take]
              unfold kMinMessageLen kHeaderLen at *
              omega
            have hN' : buf.take kHeaderLen = hostToNetwork32 (.ofNat 32 N.toNat) := by
              rw [BitVec.ofNat_toNat, BitVec.setWidth_eq, ← hN,
                hostToNetwork32_networkToHost32 _ hhead]
            obtain ⟨last, hfields⟩ := summed_of_fields (by omega) (by omega) hN'
            refine ⟨_, last, _, desc, ?_, ?_, hdesc, hm⟩
            · have htail : (buf.drop (buf.length - kHeaderLen)).length = 4 := by
                rw [List.length_drop]
                unfold kMinMessageLen kHeaderLen at *
                omega
              rw [body_eq, ← hfields, hsum, hostToNetwork32_networkToHost32 _ htail,
                List.take_append_drop]
            · rw [List.length_take, List.length_drop]
              omega
          · cases h
        · cases h
      · cases h
    · cases h
  · intro h
    obtain ⟨typeName, last, data, desc, rfl, hname, hdesc, hm⟩ := h
    rw [parse_body r typeName last data hmax, if_pos hname, hdesc]
    simp only [hm]

/-- The frames that are taken for the message `m`: the wire format, with any byte in the place of
the NUL, around a name of two bytes or more that names a type and data of that type, with a
body of 64 MiB at most. -/
def Accepts (r : ProtobufRuntime Msg Desc) (m : Msg) (bytes : Bytes) : Prop :=
  ∃ typeName last data desc, bytes = frame r typeName last data ∧ 2 ≤ typeName.length ∧
    (body r typeName last data).length ≤ kMaxMessageLen ∧
    createMessage r typeName = some desc ∧ r.parseFromArray desc data = some m

theorem front_frame {typeName data : Bytes} {last : Byte} {rest : Bytes}
    (hmin : kMinMessageLen ≤ (body r typeName last data).length)
    (hmax : (body r typeName last data).length ≤ kMaxMessageLen) :
    (frames r).front (frame r typeName last data ++ rest) =
      match parse r (body r typeName last data) with
      | .ok m => .good (frame r typeName last data).length m
      | .error e => .bad e := by
  obtain ⟨hnat, hint⟩ := ProtobufCodecLite.toInt_ofNat_length hmax
  have hhead : (frame r typeName last data ++ rest).take kHeaderLen =
      hostToNetwork32 (.ofNat 32 (body r typeName last data).length) := by
    rw [frame, List.append_assoc]
    exact List.take_left' (length_hostToNetwork32 _)
  have hdrop : ((frame r typeName last data ++ rest).drop kHeaderLen).take
      (body r typeName last data).length = body r typeName last data := by
    have hd : (frame r typeName last data ++ rest).drop kHeaderLen =
        body r typeName last data ++ rest := by
      rw [frame, List.append_assoc]
      exact List.drop_left' (length_hostToNetwork32 _)
    rw [hd, List.take_left]
  have hle : kHeaderLen + (body r typeName last data).length ≤
      (frame r typeName last data ++ rest).length := by
    rw [List.length_append, length_frame]
    omega
  have hlong : (frames r).minLen ≤ (frame r typeName last data ++ rest).length := by
    change kMinMessageLen + kHeaderLen ≤ _
    omega
  have hsize : (frames r).size ((frame r typeName last data ++ rest).take (frames r).headLen) =
      .ok (body r typeName last data).length := by
    simp only [frames, hhead, networkToHost32_hostToNetwork32, hint, hnat]
    exact if_neg (by omega)
  have hparse : (frames r).parse (((frame r typeName last data ++ rest).drop
      (frames r).headLen).take (body r typeName last data).length) =
      parse r (body r typeName last data) := by
    simp only [frames, hdrop]
  rw [length_frame]
  cases hp : parse r (body r typeName last data) with
  | ok m => exact FrameCodec.front_of_body hlong hsize hle (hparse.trans hp)
  | error e => exact FrameCodec.front_of_body_error hlong hsize hle (hparse.trans hp)

theorem front_good_iff {xs : Bytes} {n : Nat} {m : Msg} :
    (frames r).front xs = .good n m ↔
      ∃ bytes rest, xs = bytes ++ rest ∧ n = bytes.length ∧ Accepts r m bytes := by
  constructor
  · intro h
    obtain ⟨k, rfl, hle, hmin, hsize, hparse⟩ := FrameCodec.front_good_cases h
    change kHeaderLen + k ≤ xs.length at hle
    change parse r ((xs.drop kHeaderLen).take k) = .ok m at hparse
    change kMinMessageLen + kHeaderLen ≤ xs.length at hmin
    simp only [frames] at hsize
    generalize hN : networkToHost32 (xs.take kHeaderLen) = N at hsize
    split at hsize
    · cases hsize
    next hrange =>
      cases hsize
      obtain ⟨hint, hN64⟩ :=
        toInt_of_range (x := N) (n := kMaxMessageLen) (by unfold kMinMessageLen at hrange; omega)
          (by omega)
      have hbl : ((xs.drop kHeaderLen).take N.toNat).length = N.toNat := by
        rw [List.length_take, List.length_drop]
        omega
      obtain ⟨typeName, last, data, desc, hbody, hname, hdesc, hm⟩ :=
        (parse_ok_iff (by omega) (by omega)).mp hparse
      have hhead : (xs.take kHeaderLen).length = 4 := by
        rw [List.length_take]
        unfold kMinMessageLen kHeaderLen at *
        omega
      have hframe : xs.take kHeaderLen ++ (xs.drop kHeaderLen).take N.toNat =
          frame r typeName last data := by
        rw [frame, ← hbody, hbl, BitVec.ofNat_toNat, BitVec.setWidth_eq, ← hN,
          hostToNetwork32_networkToHost32 _ hhead]
      refine ⟨frame r typeName last data, xs.drop (kHeaderLen + N.toNat), ?_, ?_, typeName, last,
        data, desc, rfl, hname, ?_, hdesc, hm⟩
      · rw [← hframe, ← List.take_add, List.take_append_drop]
      · rw [length_frame, ← hbody, hbl]
        rfl
      · rw [← hbody, hbl]
        exact hN64
  · intro h
    obtain ⟨_, rest, rfl, rfl, typeName, last, data, desc, rfl, hname, hmax, hdesc, hm⟩ := h
    have hbl := length_body (r := r) typeName last data
    have hmin : kMinMessageLen ≤ (body r typeName last data).length := by
      unfold kMinMessageLen
      omega
    rw [front_frame hmin hmax, (parse_ok_iff hmin hmax).mpr
      ⟨typeName, last, data, desc, rfl, hname, hdesc, hm⟩]

theorem front_of_accepts {m : Msg} {bytes : Bytes} (h : Accepts r m bytes) (rest : Bytes) :
    (frames r).front (bytes ++ rest) = .good bytes.length m :=
  front_good_iff.mpr ⟨bytes, rest, rfl, rfl, h⟩

theorem decode_frames (r : ProtobufRuntime Msg Desc) (xs : Bytes) :
    (∃ fs, xs = fs.flatten ++ ((frames r).decode xs).rest ∧
      List.Forall₂ (Accepts r) ((frames r).decode xs).messages fs) ∧
    (frames r).front ((frames r).decode xs).rest =
      match ((frames r).decode xs).error with
      | none => .short
      | some e => .bad e := by
  induction xs using (frames r).decode_induction with
  | hshort xs hf =>
    rw [FrameCodec.decode_of_short hf]
    exact ⟨⟨[], rfl, .nil⟩, hf⟩
  | hbad xs e hf =>
    rw [FrameCodec.decode_of_bad hf]
    exact ⟨⟨[], rfl, .nil⟩, hf⟩
  | hgood xs n m hf ih =>
    obtain ⟨⟨fs, hxs, hfs⟩, hend⟩ := ih
    obtain ⟨bytes, rest, rfl, rfl, hacc⟩ := front_good_iff.mp hf
    rw [FrameCodec.decode_of_good hf]
    refine ⟨⟨bytes :: fs, ?_, .cons hacc hfs⟩, hend⟩
    rw [List.drop_left] at hxs
    rw [List.flatten_cons, List.append_assoc]
    simp only [List.drop_left]
    rw [← hxs]

/-- Behind the accepted frames at the front of `bytes` stands a malformed one. -/
def Malformed (r : ProtobufRuntime Msg Desc) (bytes : Bytes) (e : ErrorCode) : Prop :=
  ∃ ms fs rest, bytes = fs.flatten ++ rest ∧ List.Forall₂ (Accepts r) ms fs ∧
    (frames r).front rest = .bad e

theorem decode_accepted {ms : List Msg} {fs : List Bytes} (h : List.Forall₂ (Accepts r) ms fs)
    {rest : Bytes} {e : ErrorCode} (hbad : (frames r).front rest = .bad e) :
    ((frames r).decode (fs.flatten ++ rest)).error = some e := by
  induction h with
  | nil =>
    rw [List.flatten_nil, List.nil_append, FrameCodec.decode_of_bad hbad]
  | @cons m bytes ms fs hacc _ ih =>
    have hgood := front_of_accepts hacc (fs.flatten ++ rest)
    rw [List.flatten_cons, List.append_assoc, FrameCodec.decode_of_good hgood, List.drop_left]
    exact ih

theorem malformed_iff {bytes : Bytes} {e : ErrorCode} :
    Malformed r bytes e ↔ ((frames r).decode bytes).error = some e := by
  constructor
  · rintro ⟨ms, fs, rest, rfl, hacc, hbad⟩
    exact decode_accepted hacc hbad
  · intro herr
    obtain ⟨⟨fs, hxs, hfs⟩, hend⟩ := decode_frames r bytes
    rw [herr] at hend
    exact ⟨_, fs, _, hxs, hfs, hend⟩

/-- Whatever a peer sends and however it arrives: no call of `onMessage` fails, what is delivered
are the messages of the accepted frames at the front of the stream, in order, and the buffer
holds the rest, in front of which no accepted frame stands. A malformed frame there is
reported with its error and shuts the connection down, once, with the chunk in which it first
shows, and is reported again with every later one, behind which nothing is delivered. -/
theorem typed_stream (r : ProtobufRuntime Msg Desc) (b : Buffer) (hb : b.contents = [])
    (connected : Bool) (chunks : List Bytes) :
    ∃ t ms fs, (new r).receive ⟨b, connected, []⟩ chunks = .ok (some t) ∧
      chunks.flatten = fs.flatten ++ t.buffer.contents ∧ List.Forall₂ (Accepts r) ms fs ∧
      (∀ m bytes, Accepts r m bytes → ¬ bytes <+: t.buffer.contents) ∧
      ((frames r).front t.buffer.contents = .short ∧ t.connected = connected ∧
        t.events = ms.map .message ∨
      ∃ e before chunk after, chunks = before ++ chunk :: after ∧
        (∀ e', ¬ Malformed r before.flatten e') ∧ Malformed r (before ++ [chunk]).flatten e ∧
        (frames r).front t.buffer.contents = .bad e ∧ t.connected = false ∧
        t.events = ms.map .message ++ report connected e ++
          List.replicate after.length (.logError (errorText e))) := by
  obtain ⟨t, ht, hrest, hstate⟩ := receive_readsAs (r := r) (ReadsAs.start hb connected) chunks
  rw [List.nil_append] at hrest hstate
  obtain ⟨⟨fs, hxs, hfs⟩, hend⟩ := decode_frames r chunks.flatten
  rw [← hrest] at hxs hend
  refine ⟨t, _, fs, ht, hxs, hfs, ?_, ?_⟩
  · intro m bytes hacc hprefix
    obtain ⟨rest, hr⟩ := hprefix
    rw [← hr, front_of_accepts hacc] at hend
    split at hend <;> cases hend
  · cases he : ((frames r).decode chunks.flatten).error with
    | none =>
      rw [he] at hend hstate
      exact .inl ⟨hend, hstate⟩
    | some e =>
      rw [he] at hend hstate
      obtain ⟨hconn, before, chunk, after, hcut, hat, hevents⟩ := hstate
      refine .inr ⟨e, before, chunk, after, hcut, ?_, malformed_iff.mpr hat.2, hend, hconn, hevents⟩
      intro e' hmal
      cases (malformed_iff.mp hmal).symm.trans hat.1

/-! ### Messages of a peer that uses the codec -/

def send (r : ProtobufRuntime Msg Desc) (message : Msg) : Except Assertion Bytes := do
  let buf ← fillEmptyBuffer r (Buffer.new kInitialSize) message
  return buf.contents

theorem send_eq (r : ProtobufRuntime Msg Desc) (m : Msg) : send r m = .ok (encoded r m) := by
  obtain ⟨t, ht, hc⟩ :=
    fillEmptyBuffer_spec r (Buffer.new kInitialSize) m (Buffer.contents_new _)
      (Buffer.Reserved.new _)
  simp only [send, ht, ok_bind, hc]
  rfl

/-- Types have names, the descriptor of a message is found under its name, and the wire format
of a message parses back to it. -/
structure Lawful (r : ProtobufRuntime Msg Desc) : Prop where
  fullName_ne : ∀ m, r.fullName (r.descriptor m) ≠ []
  find_fullName : ∀ m, r.findMessageTypeByName (r.fullName (r.descriptor m)) = some (r.descriptor m)
  parse_serialize : ∀ m, r.parseFromArray (r.descriptor m) (r.serialize m) = some m

def Fits (r : ProtobufRuntime Msg Desc) (m : Msg) : Prop :=
  2 * kHeaderLen + ((r.fullName (r.descriptor m)).length + 1) + (r.serialize m).length ≤
    kMaxMessageLen

def longName (r : ProtobufRuntime Msg Desc) (m : Msg) : Bool :=
  decide (2 ≤ (r.fullName (r.descriptor m)).length)

theorem front_encoded (hr : Lawful r) {m : Msg} (hfit : Fits r m) (rest : Bytes) :
    (frames r).front (encoded r m ++ rest) =
      if longName r m then .good (encoded r m).length m else .bad .kInvalidNameLen := by
  have hpos := List.length_pos_iff.mpr (hr.fullName_ne m)
  have hbl := length_body (r := r) (r.fullName (r.descriptor m)) 0 (r.serialize m)
  have hmax : (body r (r.fullName (r.descriptor m)) 0 (r.serialize m)).length ≤ kMaxMessageLen := by
    rw [hbl]
    exact hfit
  rw [encoded, front_frame (by unfold kMinMessageLen; omega) hmax, parse_body r _ _ _ hmax]
  simp only [longName, decide_eq_true_eq]
  by_cases hl : 2 ≤ (r.fullName (r.descriptor m)).length
  · have hfind : createMessage r (r.fullName (r.descriptor m)) = some (r.descriptor m) :=
      hr.find_fullName m
    rw [if_pos hl, if_pos hl, hfind]
    simp only [hr.parse_serialize m]
  · rw [if_neg hl, if_neg hl]

theorem decode_encoded (hr : Lawful r) {ms : List Msg} (hfit : ∀ m ∈ ms, Fits r m) :
    ((frames r).decode (ms.map (encoded r)).flatten).messages = ms.takeWhile (longName r) ∧
      ((frames r).decode (ms.map (encoded r)).flatten).error =
        if ms.all (longName r) then none else some .kInvalidNameLen := by
  induction ms with
  | nil =>
    have hshort : (frames r).front [] = .short :=
      FrameCodec.front_of_lt (show 0 < kMinMessageLen + kHeaderLen by decide)
    rw [List.map_nil, List.flatten_nil, FrameCodec.decode_of_short hshort]
    exact ⟨rfl, rfl⟩
  | cons m ms ih =>
    have hf := front_encoded hr (hfit m List.mem_cons_self) (ms.map (encoded r)).flatten
    obtain ⟨ihm, ihe⟩ := ih fun k hk => hfit k (List.mem_cons_of_mem _ hk)
    rw [List.map_cons, List.flatten_cons]
    cases hl : longName r m with
    | true =>
      rw [hl, if_pos rfl] at hf
      rw [FrameCodec.decode_of_good hf, List.drop_left, List.takeWhile_cons_of_pos hl,
        List.all_cons,
        hl, Bool.true_and]
      exact ⟨congrArg (m :: ·) ihm, ihe⟩
    | false =>
      rw [hl, if_neg Bool.false_ne_true] at hf
      rw [FrameCodec.decode_of_bad hf, List.takeWhile_cons_of_neg (by simp [hl]), List.all_cons, hl,
        Bool.false_and]
      exact ⟨rfl, rfl⟩

end ProtobufCodec

namespace ProtobufDispatcher

variable {Desc Callback : Type} [DecidableEq Desc]

/- What the last of the registrations for `desc` has set. -/
def lastCallback (regs : List (Desc × Callback)) (defaultCb : Callback) (desc : Desc) : Callback :=
  match regs.reverse.find? fun p => decide (p.1 = desc) with
  | some p => p.2
  | none => defaultCb

theorem find?_register (d : ProtobufDispatcher Desc Callback) (p : Desc × Callback) (desc : Desc) :
    ((d.registerMessageCallback p.1 p.2).callbacks.find? fun q => decide (q.1 = desc)) =
      ((p :: d.callbacks).find? fun q => decide (q.1 = desc)) := by
  obtain ⟨key, callback⟩ := p
  simp only [registerMessageCallback, List.find?_cons, List.find?_filter]
  by_cases hkey : key = desc
  · simp [hkey]
  · have hsame : ∀ q : Desc × Callback,
        decide (decide (q.1 ≠ key) = true ∧ decide (q.1 = desc) = true) = decide (q.1 = desc) := by
      intro q
      by_cases hq : q.1 = desc
      · simp [hq, Ne.symm hkey]
      · simp [hq]
    simp only [decide_eq_false hkey, hsame]

theorem find?_registerAll (d : ProtobufDispatcher Desc Callback) (regs : List (Desc × Callback))
    (desc : Desc) :
    ((d.registerAll regs).callbacks.find? fun q => decide (q.1 = desc)) =
      ((regs.reverse ++ d.callbacks).find? fun q => decide (q.1 = desc)) := by
  induction regs generalizing d with
  | nil => rfl
  | cons p regs ih =>
    have hstep := ih (d.registerMessageCallback p.1 p.2)
    rw [List.find?_append, find?_register] at hstep
    rw [List.reverse_cons, List.append_assoc, List.find?_append, List.singleton_append]
    exact hstep

theorem defaultCallback_registerAll (d : ProtobufDispatcher Desc Callback)
    (regs : List (Desc × Callback)) : (d.registerAll regs).defaultCallback = d.defaultCallback := by
  induction regs generalizing d with
  | nil => rfl
  | cons p regs ih => exact ih (d.registerMessageCallback p.1 p.2)

theorem onProtobufMessage_registerAll {Msg : Type} (r : ProtobufRuntime Msg Desc)
    (defaultCb : Callback) (regs : List (Desc × Callback)) (m : Msg) :
    ((new defaultCb).registerAll regs).onProtobufMessage r m =
      (lastCallback regs defaultCb (r.descriptor m), m) := by
  simp only [onProtobufMessage, lastCallback, find?_registerAll, defaultCallback_registerAll,
    ProtobufDispatcher.new, List.append_nil]
  split <;> rfl

end ProtobufDispatcher

namespace ProtobufCodec

variable {Msg Desc : Type}

theorem delivered_messages {s : CodecState Msg} {ms : List Msg} (h : s.events = ms.map .message) :
    s.delivered = ms := by
  rw [CodecState.delivered, h, List.filterMap_map]
  exact List.filterMap_some

theorem delivered_report {s : CodecState Msg} {ms : List Msg} {connected : Bool} {e : ErrorCode}
    {again : Nat}
    (h : s.events = ms.map .message ++ report connected e ++
      List.replicate again (.logError (errorText e))) : s.delivered = ms := by
  have hms := delivered_messages (s := { s with events := ms.map .message }) rfl
  simp only [CodecState.delivered] at hms ⊢
  rw [h, List.filterMap_append, List.filterMap_append, hms]
  cases connected <;> simp [report]

theorem sent_eq {r : ProtobufRuntime Msg Desc} {ms : List Msg} {fs : List Bytes}
    (h : List.Forall₂ (fun m f => send r m = .ok f) ms fs) : fs = ms.map (encoded r) := by
  induction h with
  | nil => rfl
  | cons hm _ ih =>
    rw [send_eq] at hm
    cases hm
    rw [List.map_cons, ih]

/-- Two programs that use the codec, with whatever registrations in the receiver's dispatcher:
however the sent frames are cut, the messages in front of the first one whose type has a name of
one letter reach the last callback registered for their type, in order, and nothing else
does. That first message, if there is one, is reported as `InvalidNameLen` and ends the
connection. -/
theorem typed_round_trip {Callback : Type} [DecidableEq Desc] (r : ProtobufRuntime Msg Desc)
    (hr : Lawful r) (regs : List (Desc × Callback)) (defaultCb : Callback) (ms : List Msg)
    (hfit : ∀ m ∈ ms, Fits r m) (fs : List Bytes)
    (hsent : List.Forall₂ (fun m f => send r m = .ok f) ms fs) (chunks : List Bytes)
    (hcut : chunks.flatten = fs.flatten) (b : Buffer) (hb : b.contents = []) :
    ∃ t, (new r).receive ⟨b, true, []⟩ chunks = .ok (some t) ∧
      t.delivered.map (((ProtobufDispatcher.new defaultCb).registerAll regs).onProtobufMessage r) =
        (ms.takeWhile (longName r)).map
          (fun m => (ProtobufDispatcher.lastCallback regs defaultCb (r.descriptor m), m)) ∧
      (t.connected = true ↔ ∀ m ∈ ms, 2 ≤ (r.fullName (r.descriptor m)).length) ∧
      ∀ m ∈ ms, (r.fullName (r.descriptor m)).length < 2 →
        .logError (errorText .kInvalidNameLen) ∈ t.events := by
  obtain ⟨t, ht, _, hstate⟩ := receive_readsAs (r := r) (ReadsAs.start hb true) chunks
  obtain ⟨hmsgs, herr⟩ := decode_encoded hr hfit
  rw [List.nil_append, hcut, sent_eq hsent, hmsgs, herr] at hstate
  have hcalls : t.delivered = ms.takeWhile (longName r) →
      t.delivered.map
        (((ProtobufDispatcher.new defaultCb).registerAll regs).onProtobufMessage r) =
      (ms.takeWhile (longName r)).map
        (fun m => (ProtobufDispatcher.lastCallback regs defaultCb (r.descriptor m), m)) := by
    intro hdel
    rw [hdel]
    exact List.map_congr_left fun m _ =>
      ProtobufDispatcher.onProtobufMessage_registerAll r defaultCb regs m
  have hall : ms.all (longName r) = true ↔
      ∀ m ∈ ms, 2 ≤ (r.fullName (r.descriptor m)).length := by
    simp only [List.all_eq_true, longName, decide_eq_true_eq]
  refine ⟨t, ht, ?_⟩
  by_cases hlong : ms.all (longName r) = true
  · rw [if_pos hlong] at hstate
    refine ⟨hcalls (delivered_messages hstate.2), ?_, ?_⟩
    · exact ⟨fun _ => hall.mp hlong, fun _ => hstate.1⟩
    · intro m hm hshort
      have hge := hall.mp hlong m hm
      omega
  · rw [if_neg hlong] at hstate
    obtain ⟨hconn, _, _, _, _, _, hevents⟩ := hstate
    refine ⟨hcalls (delivered_report hevents), ?_, ?_⟩
    · rw [hconn]
      exact ⟨fun h => (by cases h), fun h => absurd (hall.mpr h) hlong⟩
    · intro m _ _
      rw [hevents]
      simp [report]

/- Two types without fields, `Qu` and `Q`. -/
def testRuntime : ProtobufRuntime Bool Bool where
  descriptor m := m
  fullName desc := if desc then [81, 117] else [81]
  findMessageTypeByName name :=
    if name = [81, 117] then some true else if name = [81] then some false else none
  serialize _ := []
  parseFromArray desc data := if data = [] then some desc else none
  adler32 := zlibAdler32

theorem testRuntime_lawful : Lawful testRuntime where
  fullName_ne m := by cases m <;> decide
  find_fullName m := by cases m <;> rfl
  parse_serialize m := by cases m <;> rfl

theorem typed_stream_test :
    ∃ t ms fs, (new testRuntime).receive ⟨Buffer.new kInitialSize, true, []⟩
        [(encoded testRuntime true).take 5, (encoded testRuntime true).drop 5 ++ [0, 0], [0, 9]] =
        .ok (some t) ∧
      (encoded testRuntime true ++ [0, 0, 0, 9] : Bytes) = fs.flatten ++ t.buffer.contents ∧
      List.Forall₂ (Accepts testRuntime) ms fs := by
  obtain ⟨t, ms, fs, ht, hflat, hfs, -⟩ := typed_stream testRuntime (Buffer.new kInitialSize)
    (Buffer.contents_new _) true
    [(encoded testRuntime true).take 5, (encoded testRuntime true).drop 5 ++ [0, 0], [0, 9]]
  refine ⟨t, ms, fs, ht, ?_, hfs⟩
  rw [← hflat]
  decide

theorem typed_round_trip_test :
    ∃ t, (new testRuntime).receive ⟨Buffer.new kInitialSize, true, []⟩
        [encoded testRuntime true, encoded testRuntime false ++ encoded testRuntime true] =
        .ok (some t) ∧
      t.delivered.map (((ProtobufDispatcher.new 0).registerAll
        [(true, 1), (true, 2)]).onProtobufMessage testRuntime) = [(2, true)] ∧
      t.connected ≠ true := by
  obtain ⟨t, ht, hcalls, hconn, -⟩ := typed_round_trip testRuntime testRuntime_lawful
    [(true, 1), (true, 2)] 0 [true, false, true]
    (fun m _ => by cases m <;> unfold Fits <;> decide)
    ([true, false, true].map (encoded testRuntime))
    (by simp [send_eq])
    [encoded testRuntime true, encoded testRuntime false ++ encoded testRuntime true]
    (by simp) (Buffer.new kInitialSize) (Buffer.contents_new _)
  refine ⟨t, ht, hcalls.trans (by decide), ?_⟩
  intro h
  have hlong := hconn.mp h false (by decide)
  exact absurd hlong (by decide)

end ProtobufCodec

end TstMuduo.Net
