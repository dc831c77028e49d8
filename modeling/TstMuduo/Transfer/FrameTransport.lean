import TstMuduo.Lib.CInt
import TstMuduo.Lib.Endian
import TstMuduo.Lib.Machine

/-!
# The framed transport (examples/transferserver/transport.cpp, frametransport.cpp)

A request comes as a big-endian length of four bytes and a body, cut anywhere. The
transport collects the length in the union `Framing`, which between two calls is parked in
`m_readWant`, and the body in a buffer that it makes larger or smaller; the response goes
out of the memory buffer that the processor has filled.
-/

namespace TstMuduo.Transfer
open TstMuduo.Lib

abbrev Bytes := List UInt8

inductive SocketState where
  | SOCKET_RECV_FRAMING
  | SOCKET_RECV
  | SOCKET_SEND
  deriving DecidableEq, Repr

inductive AppState where
  | APP_INIT
  | APP_READ_FRAME_SIZE
  | APP_READ_REQUEST
  | APP_WAIT_TASK
  | APP_SEND_RESULT
  | APP_CLOSE_CONNECTION
  deriving DecidableEq, Repr

inductive ServerState where
  | SERVER_READ
  | SERVER_WRITE
  deriving DecidableEq, Repr

/- The signals of a transport. `SignalReadSocketDone` comes with what its slot then finds in
the input buffer. -/
inductive Signal where
  | SignalCloseSocket
  | SignalClientCloseSocket
  | SignalReadSocketDone (request : Bytes)
  | SignalSetWriteState
  | SignalSetReadState
  deriving DecidableEq, Repr

def Signal.request? : Signal → Option Bytes
  | .SignalReadSocketDone request => some request
  | _ => none

inductive TransportFault where
  | assertFailed
  | overrun
  | endlessLoop
  deriving DecidableEq, Repr

/-- The allocator: a block that it grants has the size that was asked for. -/
structure Memory where
  malloc : Nat → Option Bytes
  realloc : Bytes → Nat → Option Bytes
  malloc_length : ∀ n b, malloc n = some b → b.length = n
  realloc_length : ∀ a n b, realloc a n = some b → b.length = n

/- What `send` answers: a number of bytes that it has room for, an error, or that the
caller is to try again. -/
inductive Send where
  | room (n : Nat)
  | again
  | failed
  deriving DecidableEq, Repr

def INVALID_SOCKET : Int := -1
def FRAME_SIZE : Nat := 4
def MAX_FRAME_SIZE_AP : Nat := 1024 * 1024

/- `Transport` and `FrameTransport`. The last three fields are a record of what happened:
the signals, how many bytes `recv` has stored, and the bytes that `send` has taken. -/
structure FrameTransport where
  readBuffer : Option Bytes
  writeBuffer : Option Bytes
  readBufferSize : Nat
  writeBufferSize : Nat
  readBufferPos : Nat
  writeBufferPos : Nat
  socket : Int
  inMemBuffer : Bytes
  outMemBuffer : Bytes
  framing : Option Bytes
  socketState : SocketState
  appState : AppState
  serverState : ServerState
  readWant : Nat
  signals : List Signal
  fetched : Nat
  wire : Bytes
  deriving DecidableEq, Repr

/- `a - b` of two `uint32_t`. -/
def sub32 (a b : Nat) : Nat := (((a : Int) - b) % 2 ^ 32).toNat

/- `holly_align` (`common.h:266`); `align` is a power of two. -/
def hollyAlign (bytes align : Nat) : Nat := (bytes + (align - 1)) / align * align

def put (block : Bytes) (pos : Nat) (bytes : Bytes) : Bytes :=
  block.take pos ++ bytes ++ block.drop (pos + bytes.length)

def store (block : Bytes) (pos : Nat) (bytes : Bytes) : Except TransportFault Bytes := do
  check (pos + bytes.length ≤ block.length) .overrun
  return put block pos bytes

namespace FrameTransport

/- The constructor (`frametransport.cpp:19`). -/
def create (readBufferSize writeBufferSize : Nat) : FrameTransport where
  readBuffer := none
  writeBuffer := none
  readBufferSize := readBufferSize
  writeBufferSize := writeBufferSize
  readBufferPos := 0
  writeBufferPos := 0
  socket := INVALID_SOCKET
  inMemBuffer := []
  outMemBuffer := []
  framing := none
  socketState := .SOCKET_RECV_FRAMING
  appState := .APP_INIT
  serverState := .SERVER_READ
  readWant := 0
  signals := []
  fetched := 0
  wire := []

/- The buffers of `Transport::init` (`transport.cpp:46`): the input buffer observes the read
buffer. -/
def initBuffer (mem : Memory) (t : FrameTransport) : Option FrameTransport :=
  match t.readBuffer with
  | some _ => some t
  | none =>
    match mem.malloc t.readBufferSize with
    | none => none
    | some b => some { t with readBuffer := some b, inMemBuffer := b }

/- `FrameTransport::init` (`frametransport.cpp:42`); `none` where it returns false. -/
def init (mem : Memory) (t : FrameTransport) : Option FrameTransport :=
  match t.initBuffer mem with
  | none => none
  | some t =>
    some { t with
      writeBuffer := none
      writeBufferSize := 0
      readBufferPos := 0
      writeBufferPos := 0
      socket := INVALID_SOCKET
      framing := some (t.framing.getD (List.replicate FRAME_SIZE 0))
      socketState := .SOCKET_RECV_FRAMING
      appState := .APP_INIT
      serverState := .SERVER_READ
      readWant := 0 }

def emit (t : FrameTransport) (s : Signal) : FrameTransport :=
  { t with signals := t.signals ++ [s] }

/- `Transport::read` (`transport.cpp:70`): its result and what it has stored. `waiting` are
the bytes that are there for `recv`, none of them at the end of the stream; `recv` fails
where there is no such list. -/
def read (t : FrameTransport) (buf : Option Bytes) (len : Nat) (waiting : Option Bytes) :
    Int × Bytes :=
  if t.socket = INVALID_SOCKET ∨ buf = none ∨ len = 0 then (-1, [])
  else
    match waiting with
    | none => (-1, [])
    | some bytes => (castInt32 (bytes.take len).length, bytes.take len)

/- `Transport::write` (`transport.cpp:103`) of `len` bytes from `pos` of the block on: its
result and the bytes that `send` has taken. -/
def write (t : FrameTransport) (buf : Option Bytes) (pos len : Nat) (send : Send) :
    Except TransportFault (Int × Bytes) :=
  match buf with
  | none => .ok (-1, [])
  | some block =>
    if len = 0 ∨ t.socket = INVALID_SOCKET then .ok (-1, [])
    else
      match send with
      | .failed => .ok (-1, [])
      | .again => .ok (0, [])
      | .room n => do
        check (pos + min n len ≤ block.length) .overrun
        let b := castInt32 (min n len : Nat)
        return (if b = 0 then -1 else b, (block.drop pos).take (min n len))

/- `m_framing->size = m_readWant`, as bytes. -/
def parked (host : Endian) (t : FrameTransport) : Bytes := host.objectBytes 4 (.ofNat _ t.readWant)

/- `read_framing` (`frametransport.cpp:122`). -/
def readFraming (host : Endian) (t : FrameTransport) (waiting : Option Bytes) :
    Except TransportFault (Bool × FrameTransport) := do
  check (t.framing ≠ none) .assertFailed
  let framing := t.parked host
  let (fetch, bytes) := t.read (some framing) (sub32 FRAME_SIZE t.readBufferPos) waiting
  if fetch ≤ 0 then return (false, { t with framing := some framing }.emit .SignalCloseSocket)
  let buf ← store framing t.readBufferPos bytes
  let pos := t.readBufferPos + fetch.toNat
  let t := { t with
    framing := some buf
    readBufferPos := pos
    fetched := t.fetched + bytes.length }
  if pos < FRAME_SIZE then
    return (false, { t with readWant := (host.ofObjectBytes 4 buf).toNat })
  let t := { t with readWant := (host.htobe 4 (host.ofObjectBytes 4 buf)).toNat }
  if MAX_FRAME_SIZE_AP < t.readWant then return (false, t.emit .SignalCloseSocket)
  return (true, { t with appState := .APP_READ_FRAME_SIZE })

/- `while (m_readWant > newSize) newSize *= 2`: after 32 turns the size is zero for good. -/
def grow (readWant : Nat) : Nat → Nat → Except TransportFault Nat
  | 0, _ => .error .endlessLoop
  | turns + 1, newSize =>
    if newSize < readWant then grow readWant turns (newSize * 2 % 2 ^ 32) else .ok newSize

/- The branches of `transition` that make the read buffer larger or smaller
(`frametransport.cpp:166`); the flag is false where there is no memory. -/
def resize (mem : Memory) (t : FrameTransport) : Except TransportFault (Bool × FrameTransport) :=
  if t.readBufferPos < t.readWant then do
    let t := { t with readBufferSize := if t.readBufferSize = 0 then 2 else t.readBufferSize }
    let newSize ← grow t.readWant 33 t.readBufferSize
    match mem.realloc (t.readBuffer.getD []) newSize with
    | none => return (false, t)
    | some newbuffer =>
      return (true, { t with readBuffer := some newbuffer, readBufferSize := newSize })
  else if t.readWant * 2 % 2 ^ 32 < t.readBufferSize then
    let size := hollyAlign t.readWant 8
    if t.readWant ≤ size then
      match mem.malloc size with
      | none => return (true, t)
      | some newBuffer =>
        return (true, { t with readBuffer := some newBuffer, readBufferSize := size % 2 ^ 32 })
    else return (true, t)
  else return (true, t)

/- The part of `transition` after `LABEL_APP_INIT`. -/
def appInit (t : FrameTransport) : FrameTransport :=
  { t with
    writeBuffer := none
    writeBufferPos := 0
    writeBufferSize := 0
    socketState := .SOCKET_RECV_FRAMING
    appState := .APP_READ_FRAME_SIZE
    serverState := .SERVER_READ
    readBufferPos := 0 }.emit .SignalSetReadState

/- `transition` (`frametransport.cpp:156`). -/
def transition (mem : Memory) (host : Endian) (t : FrameTransport) :
    Except TransportFault FrameTransport :=
  match t.appState with
  | .APP_READ_FRAME_SIZE =>
    if t.readWant = 0 then return t.emit .SignalCloseSocket
    else do
      let (granted, t) ← t.resize mem
      if granted then
        return { t with
          readBufferPos := 0
          socketState := .SOCKET_RECV
          appState := .APP_READ_REQUEST }
      else return t.emit .SignalCloseSocket
  | .APP_READ_REQUEST => do
    check (t.readWant ≤ (t.readBuffer.getD []).length) .overrun
    let request := (t.readBuffer.getD []).take t.readWant
    return { t with
      inMemBuffer := request
      outMemBuffer := List.replicate 4 0
      appState := .APP_WAIT_TASK
      serverState := .SERVER_WRITE }.emit (.SignalReadSocketDone request)
  | .APP_WAIT_TASK =>
    let size := t.outMemBuffer.length % 2 ^ 32
    if 4 < size then
      -- the header is stored through `m_writeBuffer`, which is the memory of the output buffer
      let header := host.objectBytes 4 (host.htobe 4 (.ofNat _ (size - 4)))
      let block := header ++ t.outMemBuffer.drop 4
      return { t with
        writeBuffer := some block
        outMemBuffer := block
        writeBufferSize := size
        writeBufferPos := 0
        socketState := .SOCKET_SEND
        appState := .APP_SEND_RESULT }.emit .SignalSetWriteState
    else return { t with writeBuffer := some t.outMemBuffer, writeBufferSize := size }.appInit
  | .APP_SEND_RESULT => return t.appInit
  | .APP_INIT => return t.appInit
  | .APP_CLOSE_CONNECTION => return t.emit .SignalCloseSocket

/- `read_data` (`frametransport.cpp:247`). -/
def readData (t : FrameTransport) (waiting : Option Bytes) :
    Except TransportFault (Bool × FrameTransport) := do
  let fetch := sub32 t.readWant t.readBufferPos
  if fetch = 0 then return (false, t.emit .SignalCloseSocket)
  let (got, bytes) := t.read t.readBuffer fetch waiting
  if 0 < got then
    let buf ← store (t.readBuffer.getD []) t.readBufferPos bytes
    let pos := t.readBufferPos + got.toNat
    return (decide (pos = t.readWant), { t with
      readBuffer := some buf
      readBufferPos := pos
      fetched := t.fetched + bytes.length })
  else return (false, t.emit .SignalCloseSocket)

/- `write_data` (`frametransport.cpp:270`). -/
def writeData (t : FrameTransport) (send : Send) :
    Except TransportFault (Bool × FrameTransport) := do
  if t.writeBufferPos = t.writeBufferSize then return (true, t)
  let left := sub32 t.writeBufferSize t.writeBufferPos
  let (sent, bytes) ← t.write t.writeBuffer t.writeBufferPos left send
  if sent < 0 then return (false, t.emit .SignalCloseSocket)
  let pos := t.writeBufferPos + sent.toNat
  return (decide (pos = t.writeBufferSize), { t with
    writeBufferPos := pos
    wire := t.wire ++ bytes })

/- The call of `transition` after a part of `work_socket` that says whether to make it. -/
def andTransition (mem : Memory) (host : Endian) (r : Bool × FrameTransport) :
    Except TransportFault FrameTransport :=
  if r.1 then r.2.transition mem host else return r.2

/- The `switch` of `work_socket`. -/
def workState (mem : Memory) (host : Endian) (t : FrameTransport) (waiting : Option Bytes)
    (send : Send) : Except TransportFault FrameTransport :=
  match t.socketState with
  | .SOCKET_RECV_FRAMING =>
    if t.serverState = .SERVER_WRITE then return t.emit .SignalClientCloseSocket
    else do andTransition mem host (← t.readFraming host waiting)
  | .SOCKET_RECV =>
    if t.serverState = .SERVER_WRITE then return t.emit .SignalClientCloseSocket
    else do andTransition mem host (← t.readData waiting)
  | .SOCKET_SEND => do andTransition mem host (← t.writeData send)

/- `work_socket` (`frametransport.cpp:63`). -/
def workSocket (mem : Memory) (host : Endian) (t : FrameTransport) (sfd : Int)
    (waiting : Option Bytes) (send : Send) : Except TransportFault FrameTransport :=
  if t.socket = INVALID_SOCKET ∧ t.appState = .APP_INIT then
    { t with socket := sfd }.workState mem host waiting send
  else if t.socket ≠ sfd then return t.emit .SignalCloseSocket
  else t.workState mem host waiting send

/- `write_socket` (`frametransport.cpp:112`). -/
def writeSocket (mem : Memory) (host : Endian) (t : FrameTransport) (sfd : Int) :
    Except TransportFault FrameTransport :=
  if t.socket ≠ sfd then return t.emit .SignalCloseSocket else t.transition mem host

/-! ### What the parts do -/

def handed (t : FrameTransport) : List Bytes := t.signals.filterMap Signal.request?

end FrameTransport

def be32 (n : Nat) : Bytes := (leBytes 4 n).reverse

def frame (body : Bytes) : Bytes := be32 body.length ++ body

theorem length_be32 (n : Nat) : (be32 n).length = 4 := by
  rw [be32, List.length_reverse, length_leBytes]

theorem htobe_be32 (host : Endian) {n : Nat} (hn : n < 2 ^ 32) :
    (host.htobe 4 (host.ofObjectBytes 4 (be32 n))).toNat = n := by
  rw [Endian.htobe_ofObjectBytes host 4 _ (length_be32 n), be32, List.reverse_reverse,
    leVal_leBytes, BitVec.toNat_ofNat]
  omega

theorem objectBytes_htobe_length (host : Endian) {n : Nat} (hn : n < 2 ^ 32) :
    host.objectBytes 4 (host.htobe 4 (.ofNat _ n)) = be32 n := by
  rw [Endian.objectBytes_htobe, be32, BitVec.toNat_ofNat, Nat.mod_eq_of_lt hn]

theorem sub32_of_le {a b : Nat} (h : b ≤ a) (ha : a < 2 ^ 32) : sub32 a b = a - b := by
  unfold sub32
  omega

theorem length_put {block bytes : Bytes} {pos : Nat} (h : pos + bytes.length ≤ block.length) :
    (put block pos bytes).length = block.length := by
  rw [put, List.length_append, List.length_append, List.length_take, List.length_drop]
  omega

theorem take_put {block : Bytes} {pos : Nat} (bytes : Bytes) (h : pos ≤ block.length) :
    (put block pos bytes).take (pos + bytes.length) = block.take pos ++ bytes := by
  have hlen : (block.take pos ++ bytes).length = pos + bytes.length := by
    rw [List.length_append, List.length_take, Nat.min_eq_left h]
  rw [put, ← hlen, List.take_left]

theorem store_ok {block bytes : Bytes} {pos : Nat} (h : pos + bytes.length ≤ block.length) :
    store block pos bytes = .ok (put block pos bytes) := by
  rw [store, check_ok h]
  rfl

namespace FrameTransport

variable {mem : Memory} {host : Endian} {t : FrameTransport} {waiting bytes : Bytes}

theorem length_parked (host : Endian) (t : FrameTransport) : (t.parked host).length = 4 :=
  Endian.length_objectBytes host 4 _

theorem parked_eq {buf : Bytes} (hbuf : buf.length = 4) (t : FrameTransport)
    (hwant : t.readWant = (host.ofObjectBytes 4 buf).toNat) : t.parked host = buf := by
  rw [parked, hwant, BitVec.ofNat_toNat, BitVec.setWidth_eq]
  exact Endian.objectBytes_ofObjectBytes host 4 buf hbuf

theorem read_ok {buf : Option Bytes} {len : Nat} (hsocket : t.socket ≠ INVALID_SOCKET)
    (hbuf : buf ≠ none) (hpos : 0 < len) (hlen : len < 2 ^ 31) (waiting : Bytes) :
    t.read buf len (some waiting) = (((waiting.take len).length : Int), waiting.take len) := by
  have hnot : ¬ (t.socket = INVALID_SOCKET ∨ buf = none ∨ len = 0) := by
    rintro (h | h | h)
    · exact hsocket h
    · exact hbuf h
    · omega
  have hle := List.length_take_le len waiting
  rw [read, if_neg hnot, castInt32_ok (by omega)]

def afterFraming (host : Endian) (t : FrameTransport) (bytes : Bytes) : FrameTransport :=
  { t with
    framing := some (put (t.parked host) t.readBufferPos bytes)
    readBufferPos := t.readBufferPos + bytes.length
    fetched := t.fetched + bytes.length }

section framing

variable (hframing : t.framing ≠ none) (hsocket : t.socket ≠ INVALID_SOCKET)
  (hpos : t.readBufferPos < 4) (hbytes : waiting.take (4 - t.readBufferPos) = bytes)

include hpos hbytes

theorem store_framing (host : Endian) : store (t.parked host) t.readBufferPos bytes =
    .ok (put (t.parked host) t.readBufferPos bytes) := by
  have hle := List.length_take_le (4 - t.readBufferPos) waiting
  apply store_ok
  rw [length_parked, ← hbytes]
  omega

include hsocket

theorem read_framing (host : Endian) :
    t.read (some (t.parked host)) (sub32 FRAME_SIZE t.readBufferPos) (some waiting) =
      ((bytes.length : Int), bytes) := by
  have hsub : sub32 FRAME_SIZE t.readBufferPos = 4 - t.readBufferPos :=
    sub32_of_le hpos.le (by decide)
  rw [hsub, read_ok hsocket (Option.some_ne_none _) (Nat.sub_pos_of_lt hpos) (by omega), hbytes]

include hframing

theorem readFraming_short (hsome : bytes ≠ []) (hshort : t.readBufferPos + bytes.length < 4) :
    t.readFraming host (some waiting) = .ok (false, { t.afterFraming host bytes with
      readWant := (host.ofObjectBytes 4 (put (t.parked host) t.readBufferPos bytes)).toNat }) := by
  have hlen := List.length_pos_iff.mpr hsome
  rw [readFraming, check_ok hframing, ok_bind]
  simp only [read_framing hsocket hpos hbytes, store_framing hpos hbytes, ok_bind,
    Int.toNat_natCast]
  rw [if_neg (by omega), if_pos (show _ < FRAME_SIZE from hshort)]
  rfl

theorem readFraming_full (hsome : bytes ≠ []) (hfull : t.readBufferPos + bytes.length = 4)
    {want : Nat}
    (hwant : (host.htobe 4
      (host.ofObjectBytes 4 (put (t.parked host) t.readBufferPos bytes))).toNat = want)
    (hmax : want ≤ MAX_FRAME_SIZE_AP) :
    t.readFraming host (some waiting) = .ok (true, { t.afterFraming host bytes with
      readWant := want
      appState := .APP_READ_FRAME_SIZE }) := by
  have hlen := List.length_pos_iff.mpr hsome
  rw [readFraming, check_ok hframing, ok_bind]
  simp only [read_framing hsocket hpos hbytes, store_framing hpos hbytes, ok_bind,
    Int.toNat_natCast, hwant]
  rw [if_neg (by omega), if_neg (show ¬ _ < FRAME_SIZE from hfull.not_lt), if_neg (by omega)]
  rfl

end framing

def afterData (t : FrameTransport) (b bytes : Bytes) : FrameTransport :=
  { t with
    readBuffer := some (put b t.readBufferPos bytes)
    readBufferPos := t.readBufferPos + bytes.length
    fetched := t.fetched + bytes.length }

theorem readData_ok {b : Bytes} (hsocket : t.socket ≠ INVALID_SOCKET)
    (hbuffer : t.readBuffer = some b) (hpos : t.readBufferPos < t.readWant)
    (hfits : t.readWant ≤ b.length) (hwant : t.readWant < 2 ^ 31)
    (hbytes : waiting.take (t.readWant - t.readBufferPos) = bytes) (hsome : bytes ≠ []) :
    t.readData (some waiting) =
      .ok (decide (t.readBufferPos + bytes.length = t.readWant), t.afterData b bytes) := by
  have hlen := List.length_pos_iff.mpr hsome
  have hle := List.length_take_le (t.readWant - t.readBufferPos) waiting
  have hsub : sub32 t.readWant t.readBufferPos = t.readWant - t.readBufferPos :=
    sub32_of_le hpos.le (by omega)
  have hread := read_ok hsocket (Option.some_ne_none b) (Nat.sub_pos_of_lt hpos)
    (by omega) waiting
  have hstore : store b t.readBufferPos bytes = .ok (put b t.readBufferPos bytes) := by
    apply store_ok
    rw [← hbytes]
    omega
  rw [hbytes] at hread
  rw [readData, hbuffer, hsub, if_neg (by omega)]
  simp only [hread, Option.getD_some, hstore, ok_bind, Int.toNat_natCast]
  rw [if_pos (by omega)]
  rfl

section writing

variable {block : Bytes} (hsocket : t.socket ≠ INVALID_SOCKET)
  (hbuffer : t.writeBuffer = some block) (hpos : t.writeBufferPos < t.writeBufferSize)
  (hsize : t.writeBufferSize < 2 ^ 32)

include hsocket hbuffer hpos hsize

theorem writeData_again : t.writeData .again = .ok (false, t) := by
  have hsub : sub32 t.writeBufferSize t.writeBufferPos = t.writeBufferSize - t.writeBufferPos :=
    sub32_of_le hpos.le hsize
  have hwrite : t.write t.writeBuffer t.writeBufferPos (t.writeBufferSize - t.writeBufferPos)
      .again = .ok (0, []) := by
    rw [hbuffer, write]
    exact if_neg (not_or.mpr ⟨by omega, hsocket⟩)
  rw [writeData, if_neg hpos.ne, hsub]
  simp only [hwrite, ok_bind, Int.toNat_zero, Nat.add_zero, List.append_nil,
    decide_eq_false hpos.ne]
  rfl

theorem writeData_room (hlen : block.length = t.writeBufferSize) {n : Nat} (hn : 0 < n)
    (hmax : n ≤ 2147483647) :
    t.writeData (.room n) =
      .ok (decide (t.writeBufferPos + min n (t.writeBufferSize - t.writeBufferPos) =
          t.writeBufferSize),
        { t with
          writeBufferPos := t.writeBufferPos + min n (t.writeBufferSize - t.writeBufferPos)
          wire := t.wire ++ (block.drop t.writeBufferPos).take
            (min n (t.writeBufferSize - t.writeBufferPos)) }) := by
  have hsub : sub32 t.writeBufferSize t.writeBufferPos = t.writeBufferSize - t.writeBufferPos :=
    sub32_of_le hpos.le hsize
  rw [writeData, if_neg hpos.ne, hsub, hbuffer]
  generalize hleft : t.writeBufferSize - t.writeBufferPos = left
  have hwrite : t.write (some block) t.writeBufferPos left (.room n) =
      .ok (((min n left : Nat) : Int), (block.drop t.writeBufferPos).take (min n left)) := by
    rw [write]
    simp only
    rw [if_neg (not_or.mpr ⟨by omega, hsocket⟩), check_ok (by omega), ok_bind,
      castInt32_ok (by omega), if_neg (by omega)]
    rfl
  simp only [hwrite, ok_bind, Int.toNat_natCast]
  rw [if_neg (by omega)]
  rfl

end writing

/-! ### The read buffer -/

theorem grow_ok {want : Nat} (hwant : want ≤ 2 ^ 31) (turns : Nat) {size : Nat}
    (hturns : want ≤ size * 2 ^ turns) :
    ∃ n, grow want (turns + 1) size = .ok n ∧ want ≤ n ∧ size ≤ n := by
  induction turns generalizing size with
  | zero =>
    have hle : want ≤ size := by
      rw [Nat.pow_zero, Nat.mul_one] at hturns
      exact hturns
    exact ⟨size, if_neg hle.not_gt, hle, Nat.le_refl size⟩
  | succ turns ih =>
    by_cases hlt : size < want
    · have hmod : size * 2 % 2 ^ 32 = size * 2 := Nat.mod_eq_of_lt (by omega)
      have hdouble : want ≤ size * 2 * 2 ^ turns := by
        rw [Nat.mul_assoc, ← Nat.pow_succ']
        exact hturns
      obtain ⟨n, hn, hw, hs⟩ := ih hdouble
      refine ⟨n, ?_, hw, by omega⟩
      rw [grow, if_pos hlt, hmod]
      exact hn
    · exact ⟨size, if_neg hlt, Nat.not_lt.mp hlt, Nat.le_refl size⟩

theorem resize_ok {b : Bytes} (hrealloc : ∀ a n, (mem.realloc a n).isSome)
    (hbuffer : t.readBuffer = some b) (hlen : b.length = t.readBufferSize)
    (hsize : 4 ≤ t.readBufferSize) (hpos : t.readBufferPos = 4) (hwant : 1 ≤ t.readWant)
    (hmax : t.readWant ≤ MAX_FRAME_SIZE_AP) :
    ∃ c, t.resize mem = .ok (true, { t with
        readBuffer := some c
        readBufferSize := c.length }) ∧ 4 ≤ c.length ∧ t.readWant ≤ c.length := by
  have hmax' : t.readWant ≤ 1048576 := hmax
  have hsame : { t with readBuffer := some b, readBufferSize := b.length } = t := by
    rw [hlen, ← hbuffer]
  unfold resize
  by_cases hlarge : t.readBufferPos < t.readWant
  · rw [if_pos hlarge]
    simp only [if_neg (show ¬ t.readBufferSize = 0 by omega)]
    obtain ⟨n, hn, hfits, hle⟩ := grow_ok (show t.readWant ≤ 2 ^ 31 by omega) 32
      (show t.readWant ≤ t.readBufferSize * 2 ^ 32 by omega)
    obtain ⟨c, hc⟩ := Option.isSome_iff_exists.mp (hrealloc (t.readBuffer.getD []) n)
    have hcl := mem.realloc_length _ _ _ hc
    refine ⟨c, ?_, by omega, by omega⟩
    rw [hn, ok_bind]
    simp only [hc, hcl]
    rfl
  · rw [if_neg hlarge]
    by_cases hsmall : t.readWant * 2 % 2 ^ 32 < t.readBufferSize
    · have halign : hollyAlign t.readWant 8 = 8 := by
        unfold hollyAlign
        omega
      rw [if_pos hsmall, halign, if_pos (by omega)]
      cases hc : mem.malloc 8 with
      | none => exact ⟨b, by rw [hsame]; rfl, by omega, by omega⟩
      | some c =>
        have hcl := mem.malloc_length _ _ hc
        refine ⟨c, ?_, by omega, by omega⟩
        rw [hcl]
        rfl
    · rw [if_neg hsmall]
      exact ⟨b, by rw [hsame]; rfl, by omega, by omega⟩

/-! ### Transitions -/

theorem transition_frameSize (host : Endian) {b : Bytes}
    (hrealloc : ∀ a n, (mem.realloc a n).isSome) (happ : t.appState = .APP_READ_FRAME_SIZE)
    (hbuffer : t.readBuffer = some b) (hlen : b.length = t.readBufferSize)
    (hsize : 4 ≤ t.readBufferSize) (hpos : t.readBufferPos = 4) (hwant : 1 ≤ t.readWant)
    (hmax : t.readWant ≤ MAX_FRAME_SIZE_AP) :
    ∃ c, t.transition mem host = .ok { t with
        readBuffer := some c
        readBufferSize := c.length
        readBufferPos := 0
        socketState := .SOCKET_RECV
        appState := .APP_READ_REQUEST } ∧ 4 ≤ c.length ∧ t.readWant ≤ c.length := by
  obtain ⟨c, hc, h4, hfits⟩ := resize_ok hrealloc hbuffer hlen hsize hpos hwant hmax
  refine ⟨c, ?_, h4, hfits⟩
  simp only [transition, happ]
  rw [if_neg (show ¬ t.readWant = 0 by omega), hc, ok_bind]
  rfl

theorem transition_request (mem : Memory) (host : Endian) {b : Bytes}
    (happ : t.appState = .APP_READ_REQUEST) (hbuffer : t.readBuffer = some b)
    (hfits : t.readWant ≤ b.length) :
    t.transition mem host = .ok ({ t with
        inMemBuffer := b.take t.readWant
        outMemBuffer := List.replicate 4 0
        appState := .APP_WAIT_TASK
        serverState := .SERVER_WRITE }.emit (.SignalReadSocketDone (b.take t.readWant))) := by
  simp only [transition, happ, hbuffer, Option.getD_some]
  rw [check_ok hfits, ok_bind]
  rfl

theorem transition_response (mem : Memory) (host : Endian) {pad r : Bytes}
    (happ : t.appState = .APP_WAIT_TASK) (hout : t.outMemBuffer = pad ++ r)
    (hpad : pad.length = 4) (hr : r ≠ []) (hmax : r.length + 4 < 2 ^ 32) :
    t.transition mem host = .ok ({ t with
        writeBuffer := some (frame r)
        outMemBuffer := frame r
        writeBufferSize := r.length + 4
        writeBufferPos := 0
        socketState := .SOCKET_SEND
        appState := .APP_SEND_RESULT }.emit .SignalSetWriteState) := by
  have hlen := List.length_pos_iff.mpr hr
  have hsize : t.outMemBuffer.length % 2 ^ 32 = r.length + 4 := by
    rw [hout, List.length_append, hpad]
    omega
  have hblock : host.objectBytes 4 (host.htobe 4 (.ofNat _ (r.length + 4 - 4))) ++
      t.outMemBuffer.drop 4 = frame r := by
    rw [Nat.add_sub_cancel, objectBytes_htobe_length host (by omega), hout, ← hpad,
      List.drop_left, frame]
  simp only [transition, happ, hsize]
  rw [if_pos (by omega), hblock]
  rfl

theorem transition_empty (mem : Memory) (host : Endian) (happ : t.appState = .APP_WAIT_TASK)
    (hout : t.outMemBuffer.length = 4) :
    t.transition mem host = .ok t.appInit := by
  simp only [transition, happ, hout]
  rfl

theorem transition_sent (mem : Memory) (host : Endian) (happ : t.appState = .APP_SEND_RESULT) :
    t.transition mem host = .ok t.appInit := by
  simp only [transition, happ]
  rfl

theorem not_mem_emit {x y : Signal} (hne : x ≠ y) (h : x ∉ t.signals) :
    x ∉ (t.emit y).signals := by
  rw [emit, List.mem_append, List.mem_singleton]
  exact not_or.mpr ⟨h, hne⟩

theorem handed_emit (t : FrameTransport) (s : Signal) :
    (t.emit s).handed = t.handed ++ s.request?.toList := by
  rw [handed, emit, List.filterMap_append]
  cases s <;> rfl

end FrameTransport

end TstMuduo.Transfer
