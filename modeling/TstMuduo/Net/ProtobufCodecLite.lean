import Mathlib.Data.List.Forall2
import TstMuduo.Lib.Incremental
import TstMuduo.Net.BufferInt

/-!
# The protobuf codec (muduo/net/protobuf/ProtobufCodecLite.h, ProtobufCodecLite.cc)

A frame is the length of the rest in network order, the tag, the payload and the
checksum of tag and payload. zlib's `adler32` and the serialization of protobuf are
parameters of the codec.
-/

namespace TstMuduo.Net
open TstMuduo.Lib

/-! ### The codec -/

inductive ErrorCode where
  | kInvalidLength
  | kCheckSumError
  | kInvalidNameLen
  | kUnknownMessageType
  | kParseError
  deriving DecidableEq, Repr

/- `errorCodeToString` (`ProtobufCodecLite.cc:131`). -/
def errorCodeToString : ErrorCode → String
  | .kInvalidLength => "InvalidLength"
  | .kCheckSumError => "CheckSumError"
  | .kInvalidNameLen => "InvalidNameLen"
  | .kUnknownMessageType => "UnknownMessageType"
  | .kParseError => "ParseError"

/- What an `ErrorCallback` object holds: nothing, or the codec's own default. -/
inductive ErrorCallback where
  | empty
  | defaultErrorCallback
  deriving DecidableEq, Repr

structure ProtobufCodecLite (Msg : Type) where
  tag : Bytes
  adler32 : Bytes → BitVec 32
  serialize : Msg → Bytes
  parseFromArray : Bytes → Option Msg
  rawCb : Option (Bytes → Bool)
  errorCallback : ErrorCallback

/- What the codec does outside. -/
inductive CodecEvent (Msg : Type) where
  | message (m : Msg)
  | logError (text : String)
  | shutdown
  deriving DecidableEq, Repr

/- The connection as `onMessage` finds it: its input buffer, and whether `connected()`. -/
structure CodecState (Msg : Type) where
  buffer : Buffer
  connected : Bool
  events : List (CodecEvent Msg)

def kHeaderLen : Nat := 4
def kChecksumLen : Nat := 4
def kMaxMessageLen : Nat := 64 * 1024 * 1024

variable {Msg : Type}

/- `defaultErrorCallback` (`ProtobufCodecLite.cc:152`); `shutdown()` leaves `kConnected`. -/
def defaultErrorCallback (s : CodecState Msg) (code : ErrorCode) : CodecState Msg :=
  let text := "ProtobufCodecLite::defaultErrorCallback - " ++ errorCodeToString code
  if s.connected then
    { s with connected := false, events := s.events ++ [.logError text, .shutdown] }
  else { s with events := s.events ++ [.logError text] }

/- The call of an `ErrorCallback`; an empty `boost::function` throws. -/
def ErrorCallback.call (s : CodecState Msg) (code : ErrorCode) :
    ErrorCallback → Except Assertion (CodecState Msg)
  | .empty => .error .badFunctionCall
  | .defaultErrorCallback => .ok (Net.defaultErrorCallback s code)

namespace ProtobufCodecLite

def new (tag : Bytes) (adler32 : Bytes → BitVec 32) (serialize : Msg → Bytes)
    (parseFromArray : Bytes → Option Msg) : ProtobufCodecLite Msg :=
  ⟨tag, adler32, serialize, parseFromArray, none, .defaultErrorCallback⟩

def kMinMessageLen (c : ProtobufCodecLite Msg) : Nat := c.tag.length + kChecksumLen

/- `serializeToBuffer` (`ProtobufCodecLite.cc:96`); `ByteSizeLong()` is the length of what
the serialization writes. -/
def serializeToBuffer (c : ProtobufCodecLite Msg) (m : Msg) (b : Buffer) :
    Except Assertion (Nat × Buffer) := do
  let byteSize := (c.serialize m).length
  let r ← b.ensureWritableBytes (byteSize + kChecksumLen)
  let w ← (r.val.copyIn (c.serialize m) (Nat.le_trans (Nat.le_add_right _ _) r.property)).hasWritten
    byteSize
  return (byteSize, w)

/- `fillEmptyBuffer` (`ProtobufCodecLite.cc:37`). -/
def fillEmptyBuffer (c : ProtobufCodecLite Msg) (b : Buffer) (m : Msg) :
    Except Assertion Buffer := do
  check (b.readableBytes = 0) .codecEmptyBuffer
  let tagged ← b.append c.tag
  let (byteSize, filled) ← c.serializeToBuffer m tagged
  let summed ← filled.appendInt32 (c.adler32 filled.contents)
  check (summed.readableBytes = c.tag.length + byteSize + kChecksumLen) .codecFrameLength
  summed.prepend (hostToNetwork32 (.ofNat 32 summed.readableBytes))

/- `validateChecksum` (`ProtobufCodecLite.cc:172`). -/
def validateChecksum (c : ProtobufCodecLite Msg) (buf : Bytes) : Bool :=
  let expectedCheckSum := networkToHost32 (buf.drop (buf.length - kChecksumLen))
  let checkSum := c.adler32 (buf.take (buf.length - kChecksumLen))
  decide (checkSum = expectedCheckSum)

/- `parse` (`ProtobufCodecLite.cc:180`): tag, payload and checksum. -/
def parse (c : ProtobufCodecLite Msg) (buf : Bytes) : Except ErrorCode Msg :=
  if c.validateChecksum buf then
    if buf.take c.tag.length = c.tag then
      match c.parseFromArray ((buf.take (buf.length - kChecksumLen)).drop c.tag.length) with
      | some m => .ok m
      | none => .error .kParseError
    else .error .kUnknownMessageType
  else .error .kCheckSumError

/- The `rawCb_` test of `onMessage`: true where the message is to be dropped. -/
def rawRefused (c : ProtobufCodecLite Msg) (frame : Bytes) : Bool :=
  match c.rawCb with
  | none => false
  | some f => !f frame

/- One turn of the loop of `onMessage` (`ProtobufCodecLite.cc:58`), and whether it is
followed by another one. -/
def turn (c : ProtobufCodecLite Msg) (s : CodecState Msg) :
    Except Assertion (Bool × CodecState Msg) :=
  if c.kMinMessageLen + kHeaderLen ≤ s.buffer.readableBytes then do
    let len ← s.buffer.peekInt32
    if (kMaxMessageLen : Int) < len.toInt ∨ len.toInt < c.kMinMessageLen then
      let t ← c.errorCallback.call s .kInvalidLength
      return (false, t)
    else if kHeaderLen + len.toNat ≤ s.buffer.readableBytes then
      if c.rawRefused (s.buffer.contents.take (kHeaderLen + len.toNat)) then
        let b ← s.buffer.retrieve (kHeaderLen + len.toNat)
        return (false, { s with buffer := b })
      else
        match c.parse ((s.buffer.contents.drop kHeaderLen).take len.toNat) with
        | .ok m =>
          let b ← s.buffer.retrieve (kHeaderLen + len.toNat)
          return (true, { s with buffer := b, events := s.events ++ [.message m] })
        | .error e =>
          let t ← c.errorCallback.call s e
          return (false, t)
    else return (false, s)
  else return (false, s)

/- The loop, for at most `fuel` turns; `none` if it has not ended by then. -/
def loop (c : ProtobufCodecLite Msg) :
    Nat → CodecState Msg → Except Assertion (Option (CodecState Msg))
  | 0, _ => .ok none
  | fuel + 1, s => do
    let (again, t) ← c.turn s
    if again then c.loop fuel t else return some t

/- `onMessage` (`ProtobufCodecLite.cc:54`). -/
def onMessage (c : ProtobufCodecLite Msg) (s : CodecState Msg) :
    Except Assertion (Option (CodecState Msg)) :=
  c.loop (s.buffer.readableBytes + 1) s

/- Chunks that are appended to the input buffer, with `onMessage` after each one. -/
def receive (c : ProtobufCodecLite Msg) :
    CodecState Msg → List Bytes → Except Assertion (Option (CodecState Msg))
  | s, [] => .ok (some s)
  | s, chunk :: chunks => do
    let b ← s.buffer.append chunk
    match ← c.onMessage { s with buffer := b } with
    | none => return none
    | some t => c.receive t chunks

/-! ### What the encoder writes -/

def frame (c : ProtobufCodecLite Msg) (payload : Bytes) : Bytes :=
  hostToNetwork32 (.ofNat 32 (c.tag.length + payload.length + kChecksumLen)) ++
    (c.tag ++ payload ++ hostToNetwork32 (c.adler32 (c.tag ++ payload)))

theorem serializeToBuffer_spec (c : ProtobufCodecLite Msg) (m : Msg) (b : Buffer)
    (hb : b.Reserved) :
    ∃ r, c.serializeToBuffer m b = .ok ((c.serialize m).length, r) ∧
      r.contents = b.contents ++ c.serialize m ∧ r.Reserved := by
  obtain ⟨w, hw, hc⟩ := b.ensureWritableBytes_spec ((c.serialize m).length + kChecksumLen)
  obtain ⟨r, hr, hrc, hri⟩ := w.val.hasWritten_copyIn (c.serialize m)
    (Nat.le_trans (Nat.le_add_right _ _) w.property)
  refine ⟨r, ?_, ?_, ?_⟩
  · simp only [serializeToBuffer, hw, ok_bind, hr]
    rfl
  · rw [hrc, hc]
  · have hwr := hb.ensureWritableBytes hw
    unfold Buffer.Reserved Buffer.prependableBytes at hwr ⊢
    omega

theorem fillEmptyBuffer_spec (c : ProtobufCodecLite Msg) (b : Buffer) (m : Msg)
    (he : b.contents = []) (hb : b.Reserved) :
    ∃ r, c.fillEmptyBuffer b m = .ok r ∧ r.contents = c.frame (c.serialize m) := by
  obtain ⟨tagged, ht, htc⟩ := b.append_spec c.tag
  rw [he, List.nil_append] at htc
  obtain ⟨filled, hf, hfc, hfr⟩ := c.serializeToBuffer_spec m tagged (hb.append ht)
  rw [htc] at hfc
  obtain ⟨summed, hs, hsc⟩ := filled.append_spec (hostToNetwork32 (c.adler32 filled.contents))
  rw [hfc] at hs hsc
  have hlen : summed.readableBytes = c.tag.length + (c.serialize m).length + kChecksumLen := by
    rw [← Buffer.length_contents, hsc, List.length_append, List.length_append,
      length_hostToNetwork32]
    rfl
  have hroom : (hostToNetwork32 (.ofNat 32 summed.readableBytes)).length ≤
      summed.prependableBytes := by
    have hres := hfr.append hs
    unfold Buffer.Reserved kCheapPrepend at hres
    rw [length_hostToNetwork32]
    omega
  obtain ⟨r, hr, hrc, _⟩ := summed.prepend_spec _ hroom
  refine ⟨r, ?_, ?_⟩
  · have hempty : b.readableBytes = 0 := b.contents_eq_nil.mp he
    simp only [fillEmptyBuffer, check_ok hempty, ok_bind, ht, hf, Buffer.appendInt32, hfc, hs,
      check_ok hlen, hr]
  · rw [hrc, hsc, hlen]
    rfl

/-! ### What the decoder sees at the front of its input -/

inductive Front (Msg : Type) where
  | short
  | bad (e : ErrorCode)
  | good (n : Nat) (m : Msg)

/- The three exits of the loop, and its way on. -/
def front (c : ProtobufCodecLite Msg) (input : Bytes) : Front Msg :=
  if c.kMinMessageLen + kHeaderLen ≤ input.length then
    let len := networkToHost32 (input.take kHeaderLen)
    if (kMaxMessageLen : Int) < len.toInt ∨ len.toInt < c.kMinMessageLen then .bad .kInvalidLength
    else if kHeaderLen + len.toNat ≤ input.length then
      match c.parse ((input.drop kHeaderLen).take len.toNat) with
      | .ok m => .good (kHeaderLen + len.toNat) m
      | .error e => .bad e
    else .short
  else .short

theorem front_append (c : ProtobufCodecLite Msg) (xs zs : Bytes) (h : c.front xs ≠ .short) :
    c.front (xs ++ zs) = c.front xs := by
  by_cases hmin : c.kMinMessageLen + kHeaderLen ≤ xs.length
  · have hhead : (xs ++ zs).take kHeaderLen = xs.take kHeaderLen :=
      List.take_append_of_le_length (by omega)
    have hmin' : c.kMinMessageLen + kHeaderLen ≤ (xs ++ zs).length := by
      rw [List.length_append]
      omega
    unfold front at h ⊢
    rw [if_pos hmin] at h ⊢
    rw [if_pos hmin', hhead]
    generalize networkToHost32 (xs.take kHeaderLen) = len at h ⊢
    simp only at h ⊢
    by_cases hbad : (kMaxMessageLen : Int) < len.toInt ∨ len.toInt < c.kMinMessageLen
    · rw [if_pos hbad, if_pos hbad]
    · rw [if_neg hbad] at h ⊢
      rw [if_neg hbad]
      by_cases hlen : kHeaderLen + len.toNat ≤ xs.length
      · have hlen' : kHeaderLen + len.toNat ≤ (xs ++ zs).length := by
          rw [List.length_append]
          omega
        have hbody : ((xs ++ zs).drop kHeaderLen).take len.toNat =
            (xs.drop kHeaderLen).take len.toNat := by
          rw [List.drop_append_of_le_length (by omega),
            List.take_append_of_le_length (by rw [List.length_drop]; omega)]
        rw [if_pos hlen, if_pos hlen', hbody]
      · rw [if_neg hlen] at h
        exact absurd rfl h
  · unfold front at h
    rw [if_neg hmin] at h
    exact absurd rfl h

theorem front_good_le {c : ProtobufCodecLite Msg} {xs : Bytes} {n : Nat} {m : Msg}
    (h : c.front xs = .good n m) : 0 < n ∧ n ≤ xs.length := by
  unfold front at h
  split at h
  · simp only at h
    split at h
    · cases h
    · split at h
      next hlen =>
        split at h
        · cases h
          exact ⟨by unfold kHeaderLen; omega, hlen⟩
        · cases h
      · cases h
  · cases h

/- The decoder as a scanner; its state is what it has delivered. -/
def scanner (c : ProtobufCodecLite Msg) : Scanner (List Msg) Byte where
  scan ms input :=
    match c.front input with
    | .short => .more
    | .bad _ => .halt ms
    | .good n m => .take n (ms ++ [m])
  take_pos h := by
    split at h
    · cases h
    · cases h
    next hf => cases h; exact (front_good_le hf).1
  take_le h := by
    split at h
    · cases h
    · cases h
    next hf => cases h; exact (front_good_le hf).2
  take_append zs h := by
    split at h
    · cases h
    · cases h
    next hf =>
      cases h
      rw [c.front_append _ zs (by simp [hf]), hf]
  halt_append zs h := by
    split at h
    · cases h
    next hf =>
      cases h
      rw [c.front_append _ zs (by simp [hf]), hf]
    · cases h

/-! ### The loop and the chunks -/

end ProtobufCodecLite

def CodecState.delivered (s : CodecState Msg) : List Msg :=
  s.events.filterMap fun
    | .message m => some m
    | _ => none

theorem delivered_defaultErrorCallback (s : CodecState Msg) (code : ErrorCode) :
    (defaultErrorCallback s code).delivered = s.delivered := by
  unfold defaultErrorCallback CodecState.delivered
  split
  · simp
  · simp

theorem buffer_defaultErrorCallback (s : CodecState Msg) (code : ErrorCode) :
    (defaultErrorCallback s code).buffer = s.buffer := by
  unfold defaultErrorCallback
  split
  · rfl
  · rfl

theorem connected_defaultErrorCallback (s : CodecState Msg) (code : ErrorCode) :
    (defaultErrorCallback s code).connected = false := by
  unfold defaultErrorCallback
  split
  · rfl
  next h => simpa using h

namespace ProtobufCodecLite

variable {c : ProtobufCodecLite Msg}

/-- A turn of the loop goes by what is at the front of the input. -/
theorem turn_spec (hraw : c.rawCb = none) (s : CodecState Msg) :
    (c.front s.buffer.contents = .short → c.turn s = .ok (false, s)) ∧
    (∀ e, c.front s.buffer.contents = .bad e →
      c.turn s = do return (false, ← c.errorCallback.call s e)) ∧
    ∀ n m, c.front s.buffer.contents = .good n m →
      ∃ b, c.turn s = .ok (true, { s with buffer := b, events := s.events ++ [.message m] }) ∧
        b.contents = s.buffer.contents.drop n := by
  by_cases hmin : c.kMinMessageLen + kHeaderLen ≤ s.buffer.readableBytes
  · have hread :
        s.buffer.peekInt32 = .ok (networkToHost32 (s.buffer.contents.take kHeaderLen)) := by
      have h4 : 4 ≤ s.buffer.readableBytes := by
        unfold kHeaderLen at hmin
        omega
      simp only [Buffer.peekInt32, check_ok h4, ok_bind]
      rfl
    have hraw' : ∀ f, c.rawRefused f = false := by
      intro f
      unfold rawRefused
      rw [hraw]
    unfold turn front
    rw [if_pos hmin, Buffer.length_contents, if_pos hmin, hread]
    generalize networkToHost32 (s.buffer.contents.take kHeaderLen) = len
    simp only [ok_bind, hraw', Bool.false_eq_true, if_false]
    by_cases hbad : (kMaxMessageLen : Int) < len.toInt ∨ len.toInt < c.kMinMessageLen
    · rw [if_pos hbad, if_pos hbad]
      refine ⟨by simp, ?_, by simp⟩
      intro e he
      cases he
      rfl
    · rw [if_neg hbad, if_neg hbad]
      by_cases hlen : kHeaderLen + len.toNat ≤ s.buffer.readableBytes
      · rw [if_pos hlen, if_pos hlen]
        obtain ⟨b, hb, hc⟩ := s.buffer.retrieve_spec _ hlen
        cases hp : c.parse ((s.buffer.contents.drop kHeaderLen).take len.toNat) with
        | error e =>
          refine ⟨by simp, ?_, by simp⟩
          intro e' he
          cases he
          rfl
        | ok m =>
          refine ⟨by simp, by simp, ?_⟩
          intro n m' he
          cases he
          refine ⟨b, ?_, hc⟩
          simp only [hb, ok_bind]
          rfl
      · rw [if_neg hlen, if_neg hlen]
        exact ⟨fun _ => rfl, by simp, by simp⟩
  · unfold turn front
    rw [if_neg hmin, Buffer.length_contents, if_neg hmin]
    exact ⟨fun _ => rfl, by simp, by simp⟩

/-- The loop ends, and does what the scan of its input says: it waits, or calls the error
callback with the malformed frame still at the front of the buffer. -/
theorem loop_spec (hraw : c.rawCb = none) {fuel : Nat} {s : CodecState Msg} {stopped : Bool}
    {ms : List Msg} {rest : Bytes} (hfuel : s.buffer.readableBytes < fuel)
    (h : c.scanner.Drains s.delivered s.buffer.contents stopped ms rest) :
    ∃ t : CodecState Msg, t.buffer.contents = rest ∧ t.delivered = ms ∧
      t.connected = s.connected ∧
      (stopped = false → c.loop fuel s = .ok (some t)) ∧
      (stopped = true → ∃ e, c.front rest = .bad e ∧
        c.loop fuel s = do return some (← c.errorCallback.call t e)) := by
  induction fuel generalizing s with
  | zero => omega
  | succ fuel ih =>
    obtain ⟨hshort, hbad, hgood⟩ := turn_spec hraw s
    simp only [loop]
    cases h with
    | more hs =>
      have hf : c.front s.buffer.contents = .short := by
        simp only [scanner] at hs
        split at hs
        · assumption
        · cases hs
        · cases hs
      refine ⟨s, rfl, rfl, rfl, ?_, by simp⟩
      intro _
      rw [hshort hf]
      rfl
    | halt hs =>
      simp only [scanner] at hs
      split at hs
      · cases hs
      next e hf =>
        cases hs
        refine ⟨s, rfl, rfl, rfl, by simp, ?_⟩
        intro _
        refine ⟨e, hf, ?_⟩
        rw [hbad e hf]
        cases c.errorCallback.call s e with
        | error a => rfl
        | ok t => rfl
      · cases hs
    | take hs hd =>
      simp only [scanner] at hs
      split at hs
      · cases hs
      · cases hs
      next n m hf =>
        cases hs
        obtain ⟨b, hb, hc⟩ := hgood _ m hf
        have hpos := front_good_le hf
        have hlt : b.readableBytes < fuel := by
          rw [← Buffer.length_contents] at hfuel ⊢
          rw [hc, List.length_drop]
          omega
        have hdel : CodecState.delivered
            { s with buffer := b, events := s.events ++ [.message m] } = s.delivered ++ [m] := by
          simp [CodecState.delivered]
        rw [← hc, ← hdel] at hd
        rw [hb]
        exact ih hlt hd

theorem drains_empty {b : Buffer} (hb : b.contents = []) :
    c.scanner.Drains [] [] false [] b.contents := by
  rw [hb]
  refine .more ?_
  have hshort : c.front [] = .short := by
    unfold front
    exact if_neg (by simp [kHeaderLen])
  simp only [scanner, hshort]

theorem scan_again (ms : List Msg) (xs : Bytes) (t : List Msg)
    (h : c.scanner.scan ms xs = .halt t) : c.scanner.scan t xs = .halt t := by
  simp only [scanner] at h ⊢
  split at h
  · cases h
  next e hf => cases h; rfl
  · cases h

theorem receive_default (hraw : c.rawCb = none)
    (herr : c.errorCallback = .defaultErrorCallback) {s : CodecState Msg} {seen : Bytes}
    {stopped : Bool} (h : c.scanner.Drains [] seen stopped s.delivered s.buffer.contents)
    (hshut : stopped = true → s.connected = false) (chunks : List Bytes) :
    ∃ t stopped', c.receive s chunks = .ok (some t) ∧
      c.scanner.Drains [] (seen ++ chunks.flatten) stopped' t.delivered t.buffer.contents ∧
      (stopped' = true → t.connected = false) := by
  induction chunks generalizing s seen stopped with
  | nil =>
    refine ⟨s, stopped, rfl, ?_, hshut⟩
    rw [List.flatten_nil, List.append_nil]
    exact h
  | cons chunk chunks ih =>
    obtain ⟨b, hb, hc⟩ := s.buffer.append_spec chunk
    obtain ⟨stopped', ms, rest, hd⟩ :=
      c.scanner.exists_drains s.delivered (s.buffer.contents ++ chunk)
    have hwhole := h.append_again scan_again hd
    rw [← hc] at hd
    obtain ⟨t, ht, hm, _, hwait, hover⟩ :=
      loop_spec hraw (s := { s with buffer := b }) (Nat.lt_succ_self _) hd
    rw [← ht, ← hm] at hwhole
    rw [List.flatten_cons, ← List.append_assoc]
    simp only [receive, hb, ok_bind, onMessage]
    cases stopped' with
    | false =>
      rw [hwait rfl]
      exact ih hwhole (by simp)
    | true =>
      obtain ⟨e, _, hl⟩ := hover rfl
      rw [hl, herr]
      rw [← delivered_defaultErrorCallback t e, ← buffer_defaultErrorCallback t e] at hwhole
      exact ih hwhole fun _ => connected_defaultErrorCallback t e

theorem receive_empty (hraw : c.rawCb = none) (herr : c.errorCallback = .empty)
    {s : CodecState Msg} {seen : Bytes}
    (h : c.scanner.Drains [] seen false s.delivered s.buffer.contents) (chunks : List Bytes) :
    (∃ t, c.receive s chunks = .ok (some t) ∧
      c.scanner.Drains [] (seen ++ chunks.flatten) false t.delivered t.buffer.contents) ∨
    (c.receive s chunks = .error .badFunctionCall ∧
      ∃ ms rest, c.scanner.Drains [] (seen ++ chunks.flatten) true ms rest) := by
  induction chunks generalizing s seen with
  | nil =>
    left
    refine ⟨s, rfl, ?_⟩
    rw [List.flatten_nil, List.append_nil]
    exact h
  | cons chunk chunks ih =>
    obtain ⟨b, hb, hc⟩ := s.buffer.append_spec chunk
    obtain ⟨stopped', ms, rest, hd⟩ :=
      c.scanner.exists_drains s.delivered (s.buffer.contents ++ chunk)
    have hwhole := h.append hd
    rw [← hc] at hd
    obtain ⟨t, ht, hm, _, hwait, hover⟩ :=
      loop_spec hraw (s := { s with buffer := b }) (Nat.lt_succ_self _) hd
    rw [List.flatten_cons, ← List.append_assoc]
    simp only [receive, hb, ok_bind, onMessage]
    cases stopped' with
    | false =>
      rw [← ht, ← hm] at hwhole
      rw [hwait rfl]
      exact ih hwhole
    | true =>
      right
      obtain ⟨e, _, hl⟩ := hover rfl
      refine ⟨?_, ms, rest ++ chunks.flatten, hwhole.append_of_over _⟩
      rw [hl, herr]
      rfl

/-! ### The well-formed frames of a stream -/

/- The length is in range, checksum and tag match, and the payload parses. -/
def WellFormed (c : ProtobufCodecLite Msg) (bytes : Bytes) (m : Msg) : Prop :=
  ∃ payload, bytes = c.frame payload ∧
    c.tag.length + payload.length + kChecksumLen ≤ kMaxMessageLen ∧
    c.parseFromArray payload = some m

/-- The stream is well-formed frames with the messages `ms`, and then the rest. -/
inductive Frames (c : ProtobufCodecLite Msg) : Bytes → List Msg → Bytes → Prop
  | nil {rest} : Frames c rest [] rest
  | cons {bytes m stream ms rest} :
    c.WellFormed bytes m → Frames c stream ms rest → Frames c (bytes ++ stream) (m :: ms) rest

/- No further frame stands at the front of the rest. -/
def Maximal (c : ProtobufCodecLite Msg) (rest : Bytes) : Prop :=
  ∀ bytes m, c.WellFormed bytes m → ¬ bytes <+: rest

theorem parse_ok_iff {buf : Bytes} {m : Msg} (hlen : c.kMinMessageLen ≤ buf.length) :
    c.parse buf = .ok m ↔ ∃ payload,
      buf = c.tag ++ payload ++ hostToNetwork32 (c.adler32 (c.tag ++ payload)) ∧
      c.parseFromArray payload = some m := by
  constructor
  · intro h
    unfold parse at h
    split at h
    next hsum =>
      split at h
      next htag =>
        split at h
        next m' hp =>
          cases h
          refine ⟨_, ?_, hp⟩
          unfold kMinMessageLen at hlen
          have hbody : c.tag ++ (buf.take (buf.length - kChecksumLen)).drop c.tag.length =
              buf.take (buf.length - kChecksumLen) := by
            have htake : (buf.take (buf.length - kChecksumLen)).take c.tag.length = c.tag := by
              rw [List.take_take, Nat.min_eq_left (by omega), htag]
            nth_rewrite 1 [← htake]
            exact List.take_append_drop _ _
          have hdrop : (buf.drop (buf.length - kChecksumLen)).length = 4 := by
            rw [List.length_drop]
            unfold kChecksumLen at hlen ⊢
            omega
          simp only [validateChecksum, decide_eq_true_eq] at hsum
          rw [hbody, hsum, hostToNetwork32_networkToHost32 _ hdrop, List.take_append_drop]
        · cases h
      · cases h
    · cases h
  · intro h
    obtain ⟨payload, rfl, hp⟩ := h
    have hl : (c.tag ++ payload ++ hostToNetwork32 (c.adler32 (c.tag ++ payload))).length -
        kChecksumLen = (c.tag ++ payload).length := by
      rw [List.length_append, length_hostToNetwork32]
      exact Nat.add_sub_cancel _ _
    have hsum : c.validateChecksum
        (c.tag ++ payload ++ hostToNetwork32 (c.adler32 (c.tag ++ payload))) = true := by
      simp only [validateChecksum, hl, List.take_left, List.drop_left,
        networkToHost32_hostToNetwork32, decide_true]
    have htag : (c.tag ++ payload ++ hostToNetwork32 (c.adler32 (c.tag ++ payload))).take
        c.tag.length = c.tag := by
      rw [List.append_assoc, List.take_left]
    unfold parse
    rw [if_pos hsum, if_pos htag, hl, List.take_left, List.drop_left, hp]

theorem toInt_ofNat_length {n : Nat} (h : n ≤ kMaxMessageLen) :
    (BitVec.ofNat 32 n).toNat = n ∧ (BitVec.ofNat 32 n).toInt = n := by
  unfold kMaxMessageLen at h
  have hn : (BitVec.ofNat 32 n).toNat = n := by
    rw [BitVec.toNat_ofNat]
    omega
  refine ⟨hn, ?_⟩
  rw [BitVec.toInt_eq_toNat_of_lt (by omega), hn]

theorem length_frame (c : ProtobufCodecLite Msg) (payload : Bytes) :
    (c.frame payload).length = kHeaderLen + (c.tag.length + payload.length + kChecksumLen) := by
  simp only [frame, List.length_append, length_hostToNetwork32, kHeaderLen, kChecksumLen]

theorem front_of_wellFormed {bytes : Bytes} {m : Msg} (h : c.WellFormed bytes m) (zs : Bytes) :
    c.front (bytes ++ zs) = .good bytes.length m := by
  obtain ⟨payload, rfl, hmax, hp⟩ := h
  obtain ⟨hnat, hint⟩ := toInt_ofNat_length hmax
  have hl := c.length_frame payload
  generalize hbuf : c.tag ++ payload ++ hostToNetwork32 (c.adler32 (c.tag ++ payload)) = buf
  have hbl : buf.length = c.tag.length + payload.length + kChecksumLen := by
    rw [← hbuf, List.length_append, List.length_append, length_hostToNetwork32]
    rfl
  have hfront : c.front (c.frame payload) = .good (c.frame payload).length m := by
    have hmin : c.kMinMessageLen + kHeaderLen ≤ (c.frame payload).length := by
      unfold kMinMessageLen
      omega
    have hhead : (c.frame payload).take kHeaderLen =
        hostToNetwork32 (.ofNat 32 (c.tag.length + payload.length + kChecksumLen)) := by
      unfold frame
      exact List.take_left' (length_hostToNetwork32 _)
    have hrest : (c.frame payload).drop kHeaderLen = buf := by
      unfold frame
      rw [← hbuf]
      exact List.drop_left' (length_hostToNetwork32 _)
    have hrange : ¬ ((kMaxMessageLen : Int) <
        (BitVec.ofNat 32 (c.tag.length + payload.length + kChecksumLen)).toInt ∨
        (BitVec.ofNat 32 (c.tag.length + payload.length + kChecksumLen)).toInt <
          c.kMinMessageLen) := by
      rw [hint]
      unfold kMinMessageLen
      omega
    have hparse : c.parse buf = .ok m :=
      (parse_ok_iff (by unfold kMinMessageLen; omega)).mpr ⟨payload, hbuf.symm, hp⟩
    unfold front
    rw [if_pos hmin, hhead, networkToHost32_hostToNetwork32, hrest]
    simp only
    rw [if_neg hrange, hnat, if_pos (Nat.le_of_eq hl.symm),
      List.take_of_length_le (Nat.le_of_eq hbl),
      hparse, hl]
  rw [c.front_append _ zs (by simp [hfront]), hfront]

theorem wellFormed_of_front {xs : Bytes} {n : Nat} {m : Msg} (h : c.front xs = .good n m) :
    c.WellFormed (xs.take n) m := by
  unfold front at h
  split at h
  next hmin =>
    simp only at h
    split at h
    · cases h
    next hrange =>
      split at h
      next hlen =>
        split at h
        next m' hp =>
          cases h
          generalize hn : networkToHost32 (xs.take kHeaderLen) = len at hrange hlen hp
          have hint : len.toInt = len.toNat := by
            rw [BitVec.toInt_eq_toNat_cond] at hrange ⊢
            have hlt := len.isLt
            unfold kMinMessageLen at hrange
            split
            · rfl
            · omega
          have hbody : ((xs.drop kHeaderLen).take len.toNat).length = len.toNat := by
            rw [List.length_take, List.length_drop]
            omega
          obtain ⟨payload, hbuf, hm⟩ := (parse_ok_iff (by omega)).mp hp
          have hl : len.toNat = c.tag.length + payload.length + kChecksumLen := by
            rw [← hbody, hbuf, List.length_append, List.length_append, length_hostToNetwork32]
            rfl
          refine ⟨payload, ?_, by omega, hm⟩
          have hhead : hostToNetwork32
              (.ofNat 32 (c.tag.length + payload.length + kChecksumLen)) =
              xs.take kHeaderLen := by
            rw [← hl, BitVec.ofNat_toNat, BitVec.setWidth_eq, ← hn]
            refine hostToNetwork32_networkToHost32 _ ?_
            rw [List.length_take]
            unfold kHeaderLen at hmin ⊢
            omega
          rw [frame, hhead, ← hbuf, List.take_add]
        · cases h
      · cases h
  · cases h

theorem frames_of_drains {ms ms' : List Msg} {xs rest : Bytes} {stopped : Bool}
    (h : c.scanner.Drains ms xs stopped ms' rest) :
    ∃ new, ms' = ms ++ new ∧ c.Frames xs new rest ∧ ∀ n m, c.front rest ≠ .good n m := by
  induction h with
  | more hs =>
    refine ⟨[], by rw [List.append_nil], .nil, ?_⟩
    intro n m hf
    simp only [scanner, hf] at hs
    cases hs
  | halt hs =>
    simp only [scanner] at hs
    split at hs
    · cases hs
    next hf =>
      cases hs
      refine ⟨[], by rw [List.append_nil], .nil, ?_⟩
      intro n m hg
      cases hf.symm.trans hg
    · cases hs
  | take hs _ ih =>
    simp only [scanner] at hs
    split at hs
    · cases hs
    · cases hs
    next hf =>
      cases hs
      obtain ⟨new, hnew, hframes, hmax⟩ := ih
      refine ⟨_ :: new, by rw [hnew, List.append_assoc, List.singleton_append], ?_, hmax⟩
      have hcons := Frames.cons (wellFormed_of_front hf) hframes
      rw [List.take_append_drop] at hcons
      exact hcons

theorem drains_of_frames {ms new ms' : List Msg} {xs rest rest' : Bytes} {stopped : Bool}
    (h : c.Frames xs new rest) (hd : c.scanner.Drains (ms ++ new) rest stopped ms' rest') :
    c.scanner.Drains ms xs stopped ms' rest' := by
  induction h generalizing ms with
  | nil =>
    rw [List.append_nil] at hd
    exact hd
  | cons hw _ ih =>
    refine .take (n := _) (t := _) (by simp only [scanner, front_of_wellFormed hw]; rfl) ?_
    rw [List.drop_left]
    exact ih (by rw [List.append_assoc]; exact hd)

theorem maximal_iff {rest : Bytes} : c.Maximal rest ↔ ∀ n m, c.front rest ≠ .good n m := by
  constructor
  · intro h n m hf
    exact h _ m (wellFormed_of_front hf) (List.take_prefix _ _)
  · intro h bytes m hw hp
    obtain ⟨zs, rfl⟩ := hp
    exact h _ m (front_of_wellFormed hw zs)

theorem drains_iff_frames {ms : List Msg} {xs rest : Bytes} :
    (∃ stopped, c.scanner.Drains [] xs stopped ms rest) ↔ c.Frames xs ms rest ∧ c.Maximal rest := by
  constructor
  · intro h
    obtain ⟨stopped, hd⟩ := h
    obtain ⟨new, rfl, hframes, hmax⟩ := frames_of_drains hd
    exact ⟨hframes, maximal_iff.mpr hmax⟩
  · intro h
    obtain ⟨hframes, hmax⟩ := h
    rw [maximal_iff] at hmax
    cases hf : c.front rest with
    | short => exact ⟨false, drains_of_frames hframes (.more (by simp only [scanner, hf]))⟩
    | bad e =>
      refine ⟨true, drains_of_frames hframes (.halt ?_)⟩
      simp only [scanner, hf]
      rfl
    | good n m => exact absurd hf (hmax n m)

/- `bytes` is what `fillEmptyBuffer` writes for `m` into a new buffer, as in `send`. -/
def Encodes (c : ProtobufCodecLite Msg) (m : Msg) (bytes : Bytes) : Prop :=
  ∃ b, c.fillEmptyBuffer (Buffer.new kInitialSize) m = .ok b ∧ b.contents = bytes

theorem encodes_frame (c : ProtobufCodecLite Msg) (m : Msg) :
    c.Encodes m (c.frame (c.serialize m)) :=
  c.fillEmptyBuffer_spec _ m (Buffer.contents_new _) (Buffer.Reserved.new _)

theorem frames_serialized (hproto : ∀ m, c.parseFromArray (c.serialize m) = some m)
    (ms : List Msg)
    (hlen : ∀ m ∈ ms, c.tag.length + (c.serialize m).length + kChecksumLen ≤ kMaxMessageLen)
    (further : Bytes) :
    c.Frames ((ms.map fun m => c.frame (c.serialize m)).flatten ++ further) ms further := by
  induction ms with
  | nil => exact .nil
  | cons m ms ih =>
    have hw : c.WellFormed (c.frame (c.serialize m)) m :=
      ⟨c.serialize m, rfl, hlen m List.mem_cons_self, hproto m⟩
    rw [List.map_cons, List.flatten_cons, List.append_assoc]
    exact .cons hw (ih fun k hk => hlen k (List.mem_cons_of_mem _ hk))

/-- The encoded messages followed by anything, in whatever chunks, are delivered first and
in order; all in all the deliveries are the messages of the maximal prefix of well-formed
frames of the stream, which the stream alone determines. -/
theorem stream_round_trip (c : ProtobufCodecLite Msg) (hraw : c.rawCb = none)
    (herr : c.errorCallback = .defaultErrorCallback)
    (hproto : ∀ m, c.parseFromArray (c.serialize m) = some m) (ms : List Msg)
    (hlen : ∀ m ∈ ms, c.tag.length + (c.serialize m).length + kChecksumLen ≤ kMaxMessageLen) :
    ∃ frames, List.Forall₂ c.Encodes ms frames ∧
      ∀ (further : Bytes) (chunks : List Bytes) (b : Buffer) (connected : Bool),
        chunks.flatten = frames.flatten ++ further → b.contents = [] →
        ∃ s, c.receive ⟨b, connected, []⟩ chunks = .ok (some s) ∧ ms <+: s.delivered ∧
          (∃ rest, c.Frames chunks.flatten s.delivered rest ∧ c.Maximal rest) ∧
          ∀ ds rest, c.Frames chunks.flatten ds rest → c.Maximal rest → s.delivered = ds := by
  refine ⟨ms.map fun m => c.frame (c.serialize m), ?_, ?_⟩
  · rw [List.forall₂_map_right_iff]
    exact List.forall₂_same.mpr fun m _ => c.encodes_frame m
  · intro further chunks b connected hcut hb
    obtain ⟨s, stopped, hs, hd, _⟩ :=
      receive_default hraw herr (s := ⟨b, connected, []⟩) (drains_empty hb) (by simp) chunks
    rw [List.nil_append] at hd
    refine ⟨s, hs, ?_, ?_, ?_⟩
    · obtain ⟨stopped', ms', rest', hd'⟩ := c.scanner.exists_drains ([] ++ ms) further
      obtain ⟨new, hnew, _, _⟩ := frames_of_drains hd'
      have hwhole := drains_of_frames (frames_serialized hproto ms hlen further) hd'
      rw [← hcut] at hwhole
      obtain ⟨_, hdel, _⟩ := hd.unique hwhole
      refine ⟨new, ?_⟩
      rw [hdel, hnew, List.nil_append]
    · exact ⟨_, drains_iff_frames.mp ⟨stopped, hd⟩⟩
    · intro ds rest hframes hmax
      obtain ⟨stopped', hd'⟩ := drains_iff_frames.mpr ⟨hframes, hmax⟩
      exact (hd.unique hd').2.1

end ProtobufCodecLite

/- zlib's `adler32(1, buf, len)`. -/
def zlibAdler32 (bytes : Bytes) : BitVec 32 :=
  let (a, b) := bytes.foldl
    (fun ab x =>
      let a := (ab.1 + x.toNat) % 65521
      (a, (ab.2 + a) % 65521)) (1, 0)
  .ofNat 32 (b * 65536 + a)

/- `rpctag` (`RpcCodec.cc:28`). -/
def rpctag : Bytes := [82, 80, 67, 48]

/- The payload that `RpcCodec_test.cc:66` expects of a request with the id 2. -/
def testPayload : Bytes := [8, 1, 17, 2, 0, 0, 0, 0, 0, 0, 0]

def testCodec : ProtobufCodecLite Unit :=
  .new rpctag zlibAdler32 (fun _ => testPayload) fun bytes =>
    if bytes = testPayload then some () else none

/- `wire` of `RpcCodec_test.cc:68`. -/
def testWire : Bytes :=
  [0, 0, 0, 0x13, 82, 80, 67, 48, 8, 1, 17, 2, 0, 0, 0, 0, 0, 0, 0, 0x0f, 0xef, 0x01, 0x32]

theorem testWire_eq : testCodec.frame testPayload = testWire := by decide

namespace ProtobufCodecLite

theorem stream_round_trip_test :
    ∃ s, testCodec.receive ⟨Buffer.new kInitialSize, true, []⟩
        [testWire.take 5, testWire.drop 5 ++ testWire.take 22, [0x32, 0, 0]] = .ok (some s) ∧
      [(), ()] <+: s.delivered := by
  obtain ⟨frames, hframes, h⟩ := stream_round_trip testCodec rfl rfl (fun _ => rfl) [(), ()]
    (by decide)
  have hwire : ∀ f, testCodec.Encodes () f → f = testWire := by
    intro f hf
    obtain ⟨b, hb, rfl⟩ := hf
    obtain ⟨b', hb', hw⟩ := testCodec.encodes_frame ()
    cases hb.symm.trans hb'
    rw [hw]
    exact testWire_eq
  match frames, hframes with
  | [f, g], .cons hf (.cons hg .nil) =>
    rw [hwire f hf, hwire g hg] at h
    obtain ⟨s, hs, hp, _⟩ := h [0, 0]
      [testWire.take 5, testWire.drop 5 ++ testWire.take 22, [0x32, 0, 0]]
      (Buffer.new kInitialSize) true (by decide) (Buffer.contents_new _)
    exact ⟨s, hs, hp⟩

end ProtobufCodecLite

/-! ### The codec of an RPC channel -/

/- `ProtobufCodecLiteT` with its default arguments (`ProtobufCodecLite.h:110`): it hands
its own `errorCb` on, which is an empty function, in the place of the codec's default. -/
def ProtobufCodecLiteT.new (tag : Bytes) (adler32 : Bytes → BitVec 32) (serialize : Msg → Bytes)
    (parseFromArray : Bytes → Option Msg) : ProtobufCodecLite Msg :=
  ⟨tag, adler32, serialize, parseFromArray, none, .empty⟩

/- The `codec_` of both constructors of `RpcChannel` (`RpcChannel.cc:14`, `RpcChannel.cc:21`). -/
def RpcChannel.codec (adler32 : Bytes → BitVec 32) (serialize : Msg → Bytes)
    (parseFromArray : Bytes → Option Msg) : ProtobufCodecLite Msg :=
  ProtobufCodecLiteT.new rpctag adler32 serialize parseFromArray

namespace ProtobufCodecLite

/- Behind its well-formed frames the stream goes on with a length out of range, or with a
whole frame that `parse` rejects. -/
def Malformed (c : ProtobufCodecLite Msg) (stream : Bytes) : Prop :=
  ∃ ms rest e, c.Frames stream ms rest ∧ c.front rest = .bad e

def Survives (c : ProtobufCodecLite Msg) (s : CodecState Msg) (chunks : List Bytes) : Prop :=
  ∃ t, c.receive s chunks = .ok (some t) ∧ (c.Malformed chunks.flatten → t.connected = false)

variable {c : ProtobufCodecLite Msg}

theorem malformed_iff {stream : Bytes} :
    c.Malformed stream ↔ ∃ ms rest, c.scanner.Drains [] stream true ms rest := by
  constructor
  · intro h
    obtain ⟨ms, rest, e, hframes, hf⟩ := h
    refine ⟨ms, rest, drains_of_frames hframes (.halt ?_)⟩
    simp only [scanner, hf]
    rfl
  · intro h
    obtain ⟨ms, rest, hd⟩ := h
    obtain ⟨new, _, hframes, _⟩ := frames_of_drains hd
    have hover := hd.scan_of_over scan_again
    simp only [scanner] at hover
    split at hover
    · cases hover
    next e hf => exact ⟨new, rest, e, hframes, hf⟩
    · cases hover

theorem survives_default (hraw : c.rawCb = none)
    (herr : c.errorCallback = .defaultErrorCallback) (b : Buffer) (hb : b.contents = [])
    (connected : Bool) (chunks : List Bytes) : c.Survives ⟨b, connected, []⟩ chunks := by
  obtain ⟨t, stopped, ht, hd, hshut⟩ :=
    receive_default hraw herr (s := ⟨b, connected, []⟩) (drains_empty hb) (by simp) chunks
  refine ⟨t, ht, ?_⟩
  intro hm
  obtain ⟨ms, rest, hd'⟩ := malformed_iff.mp hm
  exact hshut (hd.unique hd').1

/-- An RPC endpoint survives exactly the input that is not malformed. -/
theorem rpc_survives_iff (adler32 : Bytes → BitVec 32) (serialize : Msg → Bytes)
    (parseFromArray : Bytes → Option Msg) (b : Buffer) (hb : b.contents = []) (connected : Bool)
    (chunks : List Bytes) :
    (RpcChannel.codec adler32 serialize parseFromArray).Survives ⟨b, connected, []⟩ chunks ↔
      ¬ (RpcChannel.codec adler32 serialize parseFromArray).Malformed chunks.flatten := by
  have hreceive := receive_empty (c := RpcChannel.codec adler32 serialize parseFromArray) rfl rfl
    (s := ⟨b, connected, []⟩) (drains_empty hb) chunks
  rw [List.nil_append] at hreceive
  rw [malformed_iff]
  constructor
  · intro h hm
    obtain ⟨t, ht, _⟩ := h
    obtain ⟨ms, rest, hd⟩ := hm
    rcases hreceive with ⟨t', ht', hd'⟩ | ⟨hthrow, _⟩
    · cases (hd.unique hd').1
    · cases ht.symm.trans hthrow
  · intro h
    rcases hreceive with ⟨t, ht, hd⟩ | ⟨_, hd⟩
    · refine ⟨t, ht, ?_⟩
      intro hm
      exact absurd (malformed_iff.mp hm) h
    · exact absurd hd h

def testRpcCodec : ProtobufCodecLite Unit :=
  RpcChannel.codec zlibAdler32 (fun _ => testPayload) fun bytes =>
    if bytes = testPayload then some () else none

theorem rpc_survives_iff_test :
    testRpcCodec.Survives ⟨Buffer.new kInitialSize, true, []⟩
      [testWire.take 9, testWire.drop 9] := by
  refine (rpc_survives_iff zlibAdler32 _ _ _ (Buffer.contents_new _) true _).mpr ?_
  intro hm
  obtain ⟨ms, rest, hd⟩ := malformed_iff.mp hm
  have hgood : testRpcCodec.WellFormed testWire () := ⟨testPayload, by decide, by decide, by decide⟩
  have hend : testRpcCodec.scanner.Drains [] testWire false [()] [] := by
    have hframes : testRpcCodec.Frames (testWire ++ []) [()] [] := .cons hgood .nil
    rw [List.append_nil] at hframes
    refine drains_of_frames hframes (.more ?_)
    rfl
  cases (hd.unique hend).1

/-- Twelve zero bytes are enough to make `onMessage` throw. -/
theorem rpc_throws :
    ¬ testRpcCodec.Survives ⟨Buffer.new kInitialSize, true, []⟩ [List.replicate 12 0] := by
  intro h
  obtain ⟨t, ht, _⟩ := h
  have hthrow : (testRpcCodec.receive ⟨Buffer.new kInitialSize, true, []⟩
      [List.replicate 12 0]).toBool = false := by decide +kernel
  rw [ht] at hthrow
  cases hthrow

end ProtobufCodecLite

end TstMuduo.Net
