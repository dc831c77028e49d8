import TstMuduo.Transfer.FrameTransport

/-!
# Exchanges with a lock-step client

The client sends a request only when everything that the server writes for the earlier ones
has been written. Between requests the socket is readable or writable with any number of
bytes, and the processor answers a request that has been handed to it.
-/

namespace TstMuduo.Transfer
open TstMuduo.Lib

/- The transport with all that the client has sent, the requests in it, and the responses of
the processor. -/
structure Exchange where
  t : FrameTransport
  stream : Bytes
  requests : List Bytes
  responses : List Bytes
  deriving DecidableEq, Repr

/- `readable k`: `k` bytes have come that `recv` has not taken yet. `writable room`: `send`
takes up to `room` bytes, or it is to be called again. -/
inductive Event where
  | request (body : Bytes)
  | readable (k : Nat)
  | respond (response : Bytes)
  | writable (room : Option Nat)
  deriving DecidableEq, Repr

def reply (response : Bytes) : Bytes := if response = [] then [] else frame response

namespace Exchange

def unread (s : Exchange) : Bytes := s.stream.drop s.t.fetched

def Over (s : Exchange) : Prop :=
  s.responses.length = s.requests.length ∧ s.t.wire = s.responses.flatMap reply

instance (s : Exchange) : Decidable s.Over := inferInstanceAs (Decidable (_ ∧ _))

end Exchange

def FrameTransport.fill (t : FrameTransport) (response : Bytes) : FrameTransport :=
  { t with outMemBuffer := t.outMemBuffer ++ response }

def sendOf : Option Nat → Send
  | some n => .room n
  | none => .again

/- The socket `sd` of one connection. `m_writeBufferSize` has 32 bits, and `send` takes no more
bytes at a time than an `int` counts; it is called only while the socket is watched for
writing. -/
def exchanges (mem : Memory) (host : Endian) (sd : Nat) (t : FrameTransport) :
    Machine Exchange Event TransportFault where
  init := ⟨t, [], [], []⟩
  step s
    | .request body =>
      if s.Over ∧ 1 ≤ body.length ∧ body.length ≤ MAX_FRAME_SIZE_AP then
        some (.ok { s with
          stream := s.stream ++ frame body
          requests := s.requests ++ [body] })
      else none
    | .readable k =>
      if 0 < k ∧ k ≤ s.unread.length then
        some do
          let t ← s.t.workSocket mem host sd (some (s.unread.take k)) .again
          return { s with t := t }
      else none
    | .respond response =>
      if s.t.handed.length = s.responses.length + 1 ∧ response.length + 4 < 2 ^ 32 then
        some do
          let t ← (s.t.fill response).writeSocket mem host sd
          return { s with
            t := t
            responses := s.responses ++ [response] }
      else none
    | .writable room =>
      if s.t.socketState = .SOCKET_SEND ∧ ∀ n ∈ room, 0 < n ∧ n ≤ 2147483647 then
        some do
          let t ← s.t.workSocket mem host sd none (sendOf room)
          return { s with t := t }
      else none

namespace Exchange

/-- What is to hold in every state, if `written` is what goes out for a response. -/
structure Right (written : Bytes → Bytes) (s : Exchange) : Prop where
  notClosed : .SignalCloseSocket ∉ s.t.signals
  notClientClosed : .SignalClientCloseSocket ∉ s.t.signals
  bodyFits : s.t.socketState = .SOCKET_RECV → s.t.readWant ≤ s.t.readBufferSize
  inOrder : s.t.handed <+: s.requests
  all : s.unread = [] → s.t.handed = s.requests
  wirePart : s.t.wire <+: s.responses.flatMap written
  wireAll : s.t.socketState ≠ .SOCKET_SEND → s.t.wire = s.responses.flatMap written
  backInFraming : s.responses.length = s.requests.length →
    s.t.wire = s.responses.flatMap written → s.t.socketState = .SOCKET_RECV_FRAMING

/-- And each event of the socket takes some bytes further. -/
structure Proceeds (m : Machine Exchange Event TransportFault) (s : Exchange) : Prop where
  reads : ∀ k, 0 < k → k ≤ s.unread.length →
    ∃ u, m.step s (.readable k) = some (.ok u) ∧ s.t.fetched < u.t.fetched
  writes : s.t.socketState = .SOCKET_SEND → ∀ n, 0 < n → n ≤ 2147483647 →
    ∃ u, m.step s (.writable (some n)) = some (.ok u) ∧ s.t.wire.length < u.t.wire.length

/-! ### The phases of an exchange -/

structure AtFraming (s : Exchange) : Prop where
  socketState : s.t.socketState = .SOCKET_RECV_FRAMING
  serverState : s.t.serverState = .SERVER_READ
  answered : s.responses.length = s.t.handed.length
  wire : s.t.wire = s.responses.flatMap reply

/-- Nothing is under way. -/
structure Idle (s : Exchange) : Prop extends AtFraming s where
  pos : s.t.readBufferPos = 0
  read : s.unread = []
  handed : s.t.handed = s.requests

/-- The length of the last request is read. -/
structure InHeader (host : Endian) (body : Bytes) (s : Exchange) : Prop extends AtFraming s where
  pos : s.t.readBufferPos < 4
  bytes : (s.t.parked host).take s.t.readBufferPos ++ s.unread = frame body
  bodyPos : 1 ≤ body.length
  bodyLe : body.length ≤ MAX_FRAME_SIZE_AP
  requests : s.requests = s.t.handed ++ [body]

/-- Its body is read. -/
structure InBody (body : Bytes) (s : Exchange) : Prop where
  socketState : s.t.socketState = .SOCKET_RECV
  appState : s.t.appState = .APP_READ_REQUEST
  serverState : s.t.serverState = .SERVER_READ
  answered : s.responses.length = s.t.handed.length
  wire : s.t.wire = s.responses.flatMap reply
  want : s.t.readWant = body.length
  pos : s.t.readBufferPos < s.t.readWant
  fits : s.t.readWant ≤ s.t.readBufferSize
  bodyLe : body.length ≤ MAX_FRAME_SIZE_AP
  bytes : (s.t.readBuffer.getD []).take s.t.readBufferPos ++ s.unread = body
  requests : s.requests = s.t.handed ++ [body]

/-- The processor has it. -/
structure Waiting (s : Exchange) : Prop where
  socketState : s.t.socketState = .SOCKET_RECV
  appState : s.t.appState = .APP_WAIT_TASK
  fits : s.t.readWant ≤ s.t.readBufferSize
  out : s.t.outMemBuffer.length = 4
  read : s.unread = []
  handed : s.t.handed = s.requests
  answered : s.t.handed.length = s.responses.length + 1
  wire : s.t.wire = s.responses.flatMap reply

/-- The response is written. -/
structure Sending (s : Exchange) : Prop where
  socketState : s.t.socketState = .SOCKET_SEND
  appState : s.t.appState = .APP_SEND_RESULT
  read : s.unread = []
  handed : s.t.handed = s.requests
  answered : s.responses.length = s.t.handed.length
  pos : s.t.writeBufferPos < s.t.writeBufferSize
  size : s.t.writeBufferSize < 2 ^ 32
  wire : ∃ block, s.t.writeBuffer = some block ∧ block.length = s.t.writeBufferSize ∧
    s.t.wire ++ block.drop s.t.writeBufferPos = s.responses.flatMap reply

inductive Phase (host : Endian) (s : Exchange) : Prop
  | idle (h : Idle s)
  | header (body : Bytes) (h : InHeader host body s)
  | body (body : Bytes) (h : InBody body s)
  | waiting (h : Waiting s)
  | sending (h : Sending s)

/-- The invariant: the phase, and what holds in every phase. -/
structure Inv (host : Endian) (sd : Nat) (s : Exchange) : Prop where
  phase : Phase host s
  framing : s.t.framing ≠ none
  socket : s.t.socket = sd ∨ (s.t.socket = INVALID_SOCKET ∧ s.t.appState = .APP_INIT)
  buffer : ∃ b, s.t.readBuffer = some b ∧ b.length = s.t.readBufferSize
  size : 4 ≤ s.t.readBufferSize
  notClosed : .SignalCloseSocket ∉ s.t.signals
  notClientClosed : .SignalClientCloseSocket ∉ s.t.signals
  fetched : s.t.fetched ≤ s.stream.length

variable {mem : Memory} {host : Endian} {sd : Nat} {s : Exchange}

/-- The invariant says what is to hold. -/
theorem Inv.right (h : s.Inv host sd) : s.Right reply := by
  have hframing : s.t.socketState = .SOCKET_RECV_FRAMING → ¬ s.t.socketState = .SOCKET_RECV := by
    intro hs
    rw [hs]
    exact nofun
  obtain ⟨hphase, -, -, -, -, hclosed, hclient, -⟩ := h
  cases hphase with
  | idle h =>
    exact {
      notClosed := hclosed
      notClientClosed := hclient
      bodyFits := fun hs => absurd hs (hframing h.socketState)
      inOrder := h.handed ▸ List.prefix_refl _
      all := fun _ => h.handed
      wirePart := h.wire ▸ List.prefix_refl _
      wireAll := fun _ => h.wire
      backInFraming := fun _ _ => h.socketState }
  | header body h =>
    refine {
      notClosed := hclosed
      notClientClosed := hclient
      bodyFits := fun hs => absurd hs (hframing h.socketState)
      inOrder := h.requests ▸ List.prefix_append _ _
      all := ?_
      wirePart := h.wire ▸ List.prefix_refl _
      wireAll := fun _ => h.wire
      backInFraming := fun _ _ => h.socketState }
    intro hread
    have hlen := congrArg List.length h.bytes
    have hpos := h.pos
    have hbody := h.bodyPos
    rw [hread, List.append_nil, List.length_take, frame, List.length_append, length_be32] at hlen
    omega
  | body body h =>
    refine {
      notClosed := hclosed
      notClientClosed := hclient
      bodyFits := fun _ => h.fits
      inOrder := h.requests ▸ List.prefix_append _ _
      all := ?_
      wirePart := h.wire ▸ List.prefix_refl _
      wireAll := fun _ => h.wire
      backInFraming := ?_ }
    · intro hread
      have hlen := congrArg List.length h.bytes
      have hpos := h.pos
      have hwant := h.want
      rw [hread, List.append_nil, List.length_take] at hlen
      omega
    · intro hover
      rw [h.answered, h.requests, List.length_append, List.length_singleton] at hover
      omega
  | waiting h =>
    refine {
      notClosed := hclosed
      notClientClosed := hclient
      bodyFits := fun _ => h.fits
      inOrder := h.handed ▸ List.prefix_refl _
      all := fun _ => h.handed
      wirePart := h.wire ▸ List.prefix_refl _
      wireAll := fun _ => h.wire
      backInFraming := ?_ }
    intro hover
    have hanswered := h.answered
    rw [h.handed] at hanswered
    omega
  | sending h =>
    obtain ⟨block, -, hlen, hwire⟩ := h.wire
    refine {
      notClosed := hclosed
      notClientClosed := hclient
      bodyFits := ?_
      inOrder := h.handed ▸ List.prefix_refl _
      all := fun _ => h.handed
      wirePart := ⟨_, hwire⟩
      wireAll := fun hs => absurd h.socketState hs
      backInFraming := ?_ }
    · intro hs
      rw [h.socketState] at hs
      cases hs
    · intro _ hall
      have hrest : block.drop s.t.writeBufferPos = [] := by
        rw [← hwire] at hall
        exact List.self_eq_append_right.mp hall
      have hpos := h.pos
      have hle := List.drop_eq_nil_iff.mp hrest
      omega

/-! ### What each event keeps -/

def next (s : Exchange) (t : FrameTransport) : Exchange := { s with t := t }

def connect (s : Exchange) (sd : Nat) : Exchange := s.next { s.t with socket := sd }

theorem Inv.connect (h : s.Inv host sd) : (s.connect sd).Inv host sd := by
  have hphase : Phase host (s.connect sd) := by
    cases h.phase with
    | idle h => exact .idle ⟨⟨h.socketState, h.serverState, h.answered, h.wire⟩, h.pos, h.read,
        h.handed⟩
    | header body h => exact .header body ⟨⟨h.socketState, h.serverState, h.answered, h.wire⟩,
        h.pos, h.bytes, h.bodyPos, h.bodyLe, h.requests⟩
    | body body h => exact .body body ⟨h.socketState, h.appState, h.serverState, h.answered,
        h.wire, h.want, h.pos, h.fits, h.bodyLe, h.bytes, h.requests⟩
    | waiting h => exact .waiting ⟨h.socketState, h.appState, h.fits, h.out, h.read, h.handed,
        h.answered, h.wire⟩
    | sending h => exact .sending ⟨h.socketState, h.appState, h.read, h.handed, h.answered,
        h.pos, h.size, h.wire⟩
  exact ⟨hphase, h.framing, .inl rfl, h.buffer, h.size, h.notClosed, h.notClientClosed, h.fetched⟩

theorem workSocket_eq (h : s.Inv host sd) (waiting : Option Bytes) (send : Send) :
    s.t.workSocket mem host sd waiting send =
      (s.connect sd).t.workState mem host waiting send := by
  unfold FrameTransport.workSocket
  by_cases hnew : s.t.socket = INVALID_SOCKET ∧ s.t.appState = .APP_INIT
  · rw [if_pos hnew]
    rfl
  · have hsame : s.t.socket = sd := h.socket.resolve_right hnew
    have heta : (s.connect sd).t = s.t := by
      rw [connect, next, ← hsame]
    rw [if_neg hnew, if_neg (not_not.mpr hsame), heta]

theorem received {block u whole : Bytes} {pos want k : Nat} (hpos : pos < want)
    (hfits : want ≤ block.length) (hbytes : block.take pos ++ u = whole) (hk : 0 < k)
    (hle : k ≤ u.length) :
    ∃ bytes rest, u = bytes ++ rest ∧ (u.take k).take (want - pos) = bytes ∧ bytes ≠ [] ∧
      pos + bytes.length ≤ want ∧ (put block pos bytes).length = block.length ∧
      (put block pos bytes).take (pos + bytes.length) ++ rest = whole := by
  have hlen : (u.take (min (want - pos) k)).length = min (want - pos) k := by
    rw [List.length_take]
    omega
  have hsplit := List.take_append_drop (min (want - pos) k) u
  refine ⟨u.take (min (want - pos) k), u.drop (min (want - pos) k), hsplit.symm,
    List.take_take, List.length_pos_iff.mp (by omega), by omega, length_put (by omega), ?_⟩
  rw [take_put _ (by omega), List.append_assoc, hsplit, hbytes]

theorem unread_next {t : FrameTransport} {bytes rest : Bytes} (hu : s.unread = bytes ++ rest)
    (ht : t.fetched = s.t.fetched + bytes.length) : (s.next t).unread = rest := by
  have hrest : (s.unread).drop bytes.length = rest := by rw [hu, List.drop_left]
  rw [← hrest, unread, unread, List.drop_drop, ← ht]
  rfl

theorem fetched_le (hs : s.t.fetched ≤ s.stream.length) {bytes rest : Bytes}
    (hu : s.unread = bytes ++ rest) : s.t.fetched + bytes.length ≤ s.stream.length := by
  have hlen := congrArg List.length hu
  rw [unread, List.length_drop, List.length_append] at hlen
  omega

theorem socket_ne_invalid {t : FrameTransport} (h : t.socket = sd) :
    t.socket ≠ INVALID_SOCKET := by
  rw [h, INVALID_SOCKET]
  omega

/-- More of the length is read; when all of it is there the body is next. -/
theorem InHeader.readable (hrealloc : ∀ a n, (mem.realloc a n).isSome) {body : Bytes}
    (h : InHeader host body s) (hinv : s.Inv host sd) (hsd : s.t.socket = sd) {k : Nat}
    (hk : 0 < k) (hle : k ≤ s.unread.length) :
    ∃ t, s.t.workState mem host (some (s.unread.take k)) .again = .ok t ∧
      (s.next t).Inv host sd ∧ s.t.fetched < t.fetched := by
  have hsocket := socket_ne_invalid hsd
  have hbodyLe : body.length ≤ 1048576 := h.bodyLe
  have hfour := s.t.length_parked host
  obtain ⟨bytes, rest, hu, htake, hsome, hpos, hput, hsplit⟩ :=
    received h.pos hfour.ge h.bytes hk hle
  have hfetched := fetched_le hinv.fetched hu
  have hgrows := Nat.lt_add_of_pos_right (n := s.t.fetched) (List.length_pos_iff.mpr hsome)
  have hwork : s.t.workState mem host (some (s.unread.take k)) .again =
      s.t.readFraming host (some (s.unread.take k)) >>= FrameTransport.andTransition mem host := by
    unfold FrameTransport.workState
    rw [h.socketState, h.serverState]
    rfl
  rw [hfour] at hput
  rw [hwork]
  by_cases hshort : s.t.readBufferPos + bytes.length < 4
  · rw [FrameTransport.readFraming_short hinv.framing hsocket h.pos htake hsome hshort, ok_bind]
    refine ⟨_, rfl, ?_, hgrows⟩
    refine ⟨.header body ⟨⟨h.socketState, h.serverState, h.answered, h.wire⟩, hshort, ?_,
      h.bodyPos, h.bodyLe, h.requests⟩, Option.some_ne_none _, .inl hsd, hinv.buffer, hinv.size,
      hinv.notClosed, hinv.notClientClosed, hfetched⟩
    rw [unread_next hu rfl]
    refine Eq.trans (congrArg (· ++ rest) ?_) hsplit
    exact congrArg (List.take _) (FrameTransport.parked_eq hput _ rfl)
  · have hfull : s.t.readBufferPos + bytes.length = 4 := by omega
    rw [hfull, List.take_of_length_le hput.le, frame] at hsplit
    obtain ⟨hheader, hbody⟩ := List.append_inj hsplit (by rw [hput, length_be32])
    have hwant : (host.htobe 4 (host.ofObjectBytes 4 (put (s.t.parked host) s.t.readBufferPos
        bytes))).toNat = body.length := by
      rw [hheader]
      exact htobe_be32 host (by omega)
    rw [FrameTransport.readFraming_full hinv.framing hsocket h.pos htake hsome hfull hwant
      h.bodyLe, ok_bind]
    obtain ⟨b, hb, hbl⟩ := hinv.buffer
    obtain ⟨c, hc, hc4, hcfits⟩ := FrameTransport.transition_frameSize host hrealloc
      (t := { s.t.afterFraming host bytes with
        readWant := body.length
        appState := .APP_READ_FRAME_SIZE }) rfl hb hbl hinv.size hfull h.bodyPos h.bodyLe
    refine ⟨_, hc, ?_, hgrows⟩
    exact ⟨.body body ⟨rfl, rfl, h.serverState, h.answered, h.wire, rfl, h.bodyPos, hcfits,
      h.bodyLe, (unread_next hu rfl).trans hbody, h.requests⟩, Option.some_ne_none _, .inl hsd,
      ⟨c, rfl, rfl⟩, hc4, hinv.notClosed, hinv.notClientClosed, hfetched⟩

/-- More of the body is read; when all of it is there it is handed over. -/
theorem InBody.readable {body : Bytes} (h : InBody body s) (hinv : s.Inv host sd)
    (hsd : s.t.socket = sd) {k : Nat} (hk : 0 < k) (hle : k ≤ s.unread.length) :
    ∃ t, s.t.workState mem host (some (s.unread.take k)) .again = .ok t ∧
      (s.next t).Inv host sd ∧ s.t.fetched < t.fetched := by
  have hsocket := socket_ne_invalid hsd
  have hwant := h.want
  have hbodyLe : body.length ≤ 1048576 := h.bodyLe
  obtain ⟨b, hb, hbl⟩ := hinv.buffer
  have hbytes := h.bytes
  rw [hb, Option.getD_some] at hbytes
  obtain ⟨bytes, rest, hu, htake, hsome, hpos, hput, hsplit⟩ :=
    received h.pos (by rw [hbl]; exact h.fits) hbytes hk hle
  have hfetched := fetched_le hinv.fetched hu
  have hgrows := Nat.lt_add_of_pos_right (n := s.t.fetched) (List.length_pos_iff.mpr hsome)
  have hwork : s.t.workState mem host (some (s.unread.take k)) .again =
      s.t.readData (some (s.unread.take k)) >>= FrameTransport.andTransition mem host := by
    unfold FrameTransport.workState
    rw [h.socketState, h.serverState]
    rfl
  rw [hbl] at hput
  rw [hwork, FrameTransport.readData_ok hsocket hb h.pos (by rw [hbl]; exact h.fits) (by omega)
    htake hsome, ok_bind]
  by_cases hall : s.t.readBufferPos + bytes.length = s.t.readWant
  · rw [decide_eq_true hall]
    rw [hall] at hsplit
    have hfront : ((put b s.t.readBufferPos bytes).take s.t.readWant).length = body.length := by
      rw [List.length_take, hput, hwant]
      exact Nat.min_eq_left (hwant ▸ h.fits)
    obtain ⟨hrequest, hlast⟩ := List.append_inj (hsplit.trans (List.append_nil body).symm) hfront
    refine ⟨_, FrameTransport.transition_request mem host
      (t := s.t.afterData b bytes) h.appState rfl (by rw [hput]; exact h.fits), ?_, hgrows⟩
    have hhanded : ∀ t : FrameTransport, t.handed = s.t.handed → (t.emit (.SignalReadSocketDone
        ((put b s.t.readBufferPos bytes).take s.t.readWant))).handed = s.t.handed ++ [body] := by
      intro t ht
      rw [FrameTransport.handed_emit, ht, hrequest]
      rfl
    refine ⟨.waiting ⟨h.socketState, rfl, h.fits, rfl, (unread_next hu rfl).trans hlast,
      (hhanded _ rfl).trans h.requests.symm, ?_, h.wire⟩, hinv.framing,
      .inl hsd, ⟨_, rfl, hput⟩, hinv.size,
      FrameTransport.not_mem_emit Signal.noConfusion hinv.notClosed,
      FrameTransport.not_mem_emit Signal.noConfusion hinv.notClientClosed, hfetched⟩
    refine (congrArg List.length (hhanded _ rfl)).trans ?_
    rw [List.length_append, ← h.answered]
    rfl
  · rw [decide_eq_false hall]
    refine ⟨_, rfl, ?_, hgrows⟩
    exact ⟨.body body ⟨h.socketState, h.appState, h.serverState, h.answered, h.wire, h.want,
      Nat.lt_of_le_of_ne hpos hall, h.fits, h.bodyLe,
      (congrArg (_ ++ ·) (unread_next hu rfl)).trans hsplit, h.requests⟩, hinv.framing, .inl hsd,
      ⟨_, rfl, hput⟩, hinv.size, hinv.notClosed, hinv.notClientClosed, hfetched⟩

/-- The response is put behind its length, or an empty one ends the exchange. -/
theorem Waiting.respond (h : Waiting s) (hinv : s.Inv host sd) (hsd : s.t.socket = sd)
    {response : Bytes} (hmax : response.length + 4 < 2 ^ 32) :
    ∃ t, (s.t.fill response).writeSocket mem host sd = .ok t ∧
      Exchange.Inv host sd { s.next t with responses := s.responses ++ [response] } := by
  have hcall : (s.t.fill response).writeSocket mem host sd =
      (s.t.fill response).transition mem host := if_neg (not_not.mpr hsd)
  have hlen : (s.responses ++ [response]).length = s.t.handed.length := by
    rw [List.length_append, h.answered]
    rfl
  have hframes : (s.responses ++ [response]).flatMap reply = s.t.wire ++ reply response := by
    rw [List.flatMap_append, List.flatMap_singleton, h.wire]
  rw [hcall]
  by_cases hempty : response = []
  · have hnone : reply response = [] := if_pos hempty
    have hout : (s.t.fill response).outMemBuffer.length = 4 := by
      rw [FrameTransport.fill, hempty, List.append_nil]
      exact h.out
    rw [hnone, List.append_nil] at hframes
    have hhanded : (s.t.fill response).appInit.handed = s.t.handed :=
      (FrameTransport.handed_emit _ _).trans (List.append_nil _)
    refine ⟨_, FrameTransport.transition_empty mem host h.appState hout, ?_⟩
    exact ⟨.idle ⟨⟨rfl, rfl, hlen.trans (congrArg List.length hhanded.symm), hframes.symm⟩, rfl,
      h.read, hhanded.trans h.handed⟩, hinv.framing, .inl hsd, hinv.buffer, hinv.size,
      FrameTransport.not_mem_emit Signal.noConfusion hinv.notClosed,
      FrameTransport.not_mem_emit Signal.noConfusion hinv.notClientClosed, hinv.fetched⟩
  · have hsome : reply response = frame response := if_neg hempty
    have hblock : (frame response).length = response.length + 4 := by
      rw [frame, List.length_append, length_be32, Nat.add_comm]
    rw [hsome] at hframes
    refine ⟨_, FrameTransport.transition_response mem host h.appState rfl h.out hempty hmax, ?_⟩
    have hhanded := fun t : FrameTransport => (t.handed_emit .SignalSetWriteState).trans
      (List.append_nil _)
    exact ⟨.sending ⟨rfl, rfl, h.read, (hhanded _).trans h.handed,
      hlen.trans (congrArg List.length (hhanded _).symm), Nat.zero_lt_succ _, hmax,
      ⟨_, rfl, hblock, hframes.symm⟩⟩, hinv.framing, .inl hsd, hinv.buffer, hinv.size,
      FrameTransport.not_mem_emit Signal.noConfusion hinv.notClosed,
      FrameTransport.not_mem_emit Signal.noConfusion hinv.notClientClosed, hinv.fetched⟩

/-- When the last byte of the response has been taken the transport reads the next frame. -/
theorem Sending.writable (h : Sending s) (hinv : s.Inv host sd) (hsd : s.t.socket = sd)
    {room : Option Nat} (hroom : ∀ n ∈ room, 0 < n ∧ n ≤ 2147483647) :
    ∃ t, s.t.workState mem host none (sendOf room) = .ok t ∧ (s.next t).Inv host sd ∧
      (room ≠ none → s.t.wire.length < t.wire.length) := by
  have hsocket := socket_ne_invalid hsd
  have hpos := h.pos
  obtain ⟨block, hblock, hlen, hwire⟩ := h.wire
  have hwork : s.t.workState mem host none (sendOf room) =
      s.t.writeData (sendOf room) >>= FrameTransport.andTransition mem host := by
    unfold FrameTransport.workState
    rw [h.socketState]
  rw [hwork]
  cases room with
  | none =>
    refine ⟨s.t, ?_, hinv, fun hne => absurd rfl hne⟩
    rw [sendOf, FrameTransport.writeData_again hsocket hblock h.pos h.size, ok_bind]
    rfl
  | some n =>
    obtain ⟨hn, hmax⟩ := hroom n rfl
    rw [sendOf, FrameTransport.writeData_room hsocket hblock h.pos h.size hlen hn hmax, ok_bind]
    have hsent : 0 < min n (s.t.writeBufferSize - s.t.writeBufferPos) := by omega
    have hle : s.t.writeBufferPos + min n (s.t.writeBufferSize - s.t.writeBufferPos) ≤
        s.t.writeBufferSize := by omega
    generalize min n (s.t.writeBufferSize - s.t.writeBufferPos) = sent at hsent hle
    have hsplit : s.t.wire ++ (block.drop s.t.writeBufferPos).take sent ++
        block.drop (s.t.writeBufferPos + sent) = s.responses.flatMap reply := by
      rw [List.append_assoc, ← List.drop_drop, List.take_append_drop, hwire]
    have hgrows : s.t.wire.length <
        (s.t.wire ++ (block.drop s.t.writeBufferPos).take sent).length := by
      rw [List.length_append, List.length_take, List.length_drop]
      omega
    by_cases hall : s.t.writeBufferPos + sent = s.t.writeBufferSize
    · rw [decide_eq_true hall]
      rw [hall, ← hlen, List.drop_length, List.append_nil] at hsplit
      have hdone := FrameTransport.transition_sent mem host
        (t := { s.t with
          writeBufferPos := s.t.writeBufferPos + sent
          wire := s.t.wire ++ (block.drop s.t.writeBufferPos).take sent }) h.appState
      have hhanded : ∀ t : FrameTransport, t.appInit.handed = t.handed := fun t =>
        (FrameTransport.handed_emit _ _).trans (List.append_nil _)
      refine ⟨_, hdone, ?_, fun _ => hgrows⟩
      exact ⟨.idle ⟨⟨rfl, rfl, h.answered.trans (congrArg List.length (hhanded _).symm), hsplit⟩,
        rfl, h.read, (hhanded _).trans h.handed⟩, hinv.framing, .inl hsd, hinv.buffer, hinv.size,
        FrameTransport.not_mem_emit Signal.noConfusion hinv.notClosed,
        FrameTransport.not_mem_emit Signal.noConfusion hinv.notClientClosed, hinv.fetched⟩
    · rw [decide_eq_false hall]
      refine ⟨_, rfl, ?_, fun _ => hgrows⟩
      exact ⟨.sending ⟨h.socketState, h.appState, h.read, h.handed, h.answered,
        Nat.lt_of_le_of_ne hle hall, h.size, ⟨block, hblock, hlen, hsplit⟩⟩, hinv.framing,
        .inl hsd, hinv.buffer, hinv.size, hinv.notClosed, hinv.notClientClosed, hinv.fetched⟩

/-- The next request is sent when nothing is under way. -/
theorem Inv.request (h : s.Inv host sd) (hover : s.Over) {body : Bytes} (hpos : 1 ≤ body.length)
    (hle : body.length ≤ MAX_FRAME_SIZE_AP) :
    Exchange.Inv host sd { s with
      stream := s.stream ++ frame body
      requests := s.requests ++ [body] } := by
  have hidle : Idle s := by
    obtain ⟨hlen, hwire⟩ := hover
    have hright := h.right
    cases h.phase with
    | idle h => exact h
    | header body h =>
      have hanswered := h.answered
      rw [hlen, h.requests, List.length_append, List.length_singleton] at hanswered
      omega
    | body body h =>
      have hanswered := h.answered
      rw [hlen, h.requests, List.length_append, List.length_singleton] at hanswered
      omega
    | waiting h =>
      have hanswered := h.answered
      rw [h.handed] at hanswered
      omega
    | sending h =>
      have hs := hright.backInFraming hlen hwire
      rw [h.socketState] at hs
      cases hs
  have hunread : (s.stream ++ frame body).drop s.t.fetched = frame body := by
    have hnone : s.stream.drop s.t.fetched = [] := hidle.read
    rw [List.drop_append_of_le_length h.fetched, hnone, List.nil_append]
  have hfetched : s.t.fetched ≤ (s.stream ++ frame body).length := by
    rw [List.length_append]
    exact Nat.le_add_right_of_le h.fetched
  refine ⟨.header body ⟨⟨hidle.socketState, hidle.serverState, hidle.answered, hidle.wire⟩, ?_, ?_,
    hpos, hle, ?_⟩, h.framing, h.socket, h.buffer, h.size, h.notClosed, h.notClientClosed, hfetched⟩
  · rw [hidle.pos]
    decide
  · rw [hidle.pos]
    exact hunread
  · rw [hidle.handed]

theorem Inv.readable (hrealloc : ∀ a n, (mem.realloc a n).isSome) (h : s.Inv host sd) {k : Nat}
    (hk : 0 < k) (hle : k ≤ s.unread.length) :
    ∃ t, s.t.workSocket mem host sd (some (s.unread.take k)) .again = .ok t ∧
      (s.next t).Inv host sd ∧ s.t.fetched < t.fetched := by
  have hread : ∀ {u : Exchange}, u.unread = s.unread → u.unread ≠ [] := by
    intro u hu hnil
    rw [← hu, hnil] at hle
    exact absurd hk hle.not_gt
  have hc := h.connect
  rw [workSocket_eq h]
  cases hc.phase with
  | idle hp => exact absurd hp.read (hread rfl)
  | header body hp => exact hp.readable hrealloc hc rfl hk hle
  | body body hp => exact hp.readable hc rfl hk hle
  | waiting hp => exact absurd hp.read (hread rfl)
  | sending hp => exact absurd hp.read (hread rfl)

theorem Inv.respond (h : s.Inv host sd) {response : Bytes}
    (hturn : s.t.handed.length = s.responses.length + 1) (hmax : response.length + 4 < 2 ^ 32) :
    ∃ t, (s.t.fill response).writeSocket mem host sd = .ok t ∧
      Exchange.Inv host sd { s.next t with responses := s.responses ++ [response] } := by
  cases h.phase with
  | idle hp =>
    have hanswered := hp.answered
    omega
  | header body hp =>
    have hanswered := hp.answered
    omega
  | body body hp =>
    have hanswered := hp.answered
    omega
  | waiting hp =>
    have hsd : s.t.socket = sd := by
      refine h.socket.resolve_right fun hnew => ?_
      rw [hp.appState] at hnew
      cases hnew.2
    exact hp.respond h hsd hmax
  | sending hp =>
    have hanswered := hp.answered
    omega

theorem Inv.writable (h : s.Inv host sd) {room : Option Nat}
    (hstate : s.t.socketState = .SOCKET_SEND) (hroom : ∀ n ∈ room, 0 < n ∧ n ≤ 2147483647) :
    ∃ t, s.t.workSocket mem host sd none (sendOf room) = .ok t ∧ (s.next t).Inv host sd ∧
      (room ≠ none → s.t.wire.length < t.wire.length) := by
  have hc := h.connect
  have hsend : (s.connect sd).t.socketState = .SOCKET_SEND := hstate
  rw [workSocket_eq h]
  cases hc.phase with
  | idle hp => exact absurd (hp.socketState.symm.trans hsend) nofun
  | header body hp => exact absurd (hp.socketState.symm.trans hsend) nofun
  | body body hp => exact absurd (hp.socketState.symm.trans hsend) nofun
  | waiting hp => exact absurd (hp.socketState.symm.trans hsend) nofun
  | sending hp => exact hp.writable hc rfl hroom

variable {t : FrameTransport}

/-- No event trips a fault, and each one keeps the invariant. -/
theorem Inv.step (hrealloc : ∀ a n, (mem.realloc a n).isSome) {e : Event}
    {x : Except TransportFault Exchange} (h : s.Inv host sd)
    (hstep : (exchanges mem host sd t).step s e = some x) : ∃ u, x = .ok u ∧ u.Inv host sd := by
  cases e with
  | request body =>
    simp only [exchanges] at hstep
    split at hstep
    next hg =>
      cases hstep
      exact ⟨_, rfl, h.request hg.1 hg.2.1 hg.2.2⟩
    · cases hstep
  | readable k =>
    simp only [exchanges] at hstep
    split at hstep
    next hg =>
      obtain ⟨u, hu, hinv, -⟩ := h.readable hrealloc hg.1 hg.2
      rw [hu] at hstep
      cases hstep
      exact ⟨_, rfl, hinv⟩
    · cases hstep
  | respond response =>
    simp only [exchanges] at hstep
    split at hstep
    next hg =>
      obtain ⟨u, hu, hinv⟩ := h.respond hg.1 hg.2
      rw [hu] at hstep
      cases hstep
      exact ⟨_, rfl, hinv⟩
    · cases hstep
  | writable room =>
    simp only [exchanges] at hstep
    split at hstep
    next hg =>
      obtain ⟨u, hu, hinv, -⟩ := h.writable hg.1 hg.2
      rw [hu] at hstep
      cases hstep
      exact ⟨_, rfl, hinv⟩
    · cases hstep

theorem Inv.proceeds (hrealloc : ∀ a n, (mem.realloc a n).isSome) (h : s.Inv host sd) :
    s.Proceeds (exchanges mem host sd t) := by
  constructor
  · intro k hk hle
    obtain ⟨u, hu, -, hlt⟩ := h.readable hrealloc hk hle
    refine ⟨s.next u, ?_, hlt⟩
    simp only [exchanges]
    rw [if_pos ⟨hk, hle⟩, hu]
    rfl
  · intro hstate n hn hmax
    have hroom : ∀ m ∈ some n, 0 < m ∧ m ≤ 2147483647 := by
      rintro m ⟨⟩
      exact ⟨hn, hmax⟩
    obtain ⟨u, hu, -, hlt⟩ := h.writable hstate hroom
    refine ⟨s.next u, ?_, hlt (Option.some_ne_none n)⟩
    simp only [exchanges]
    rw [if_pos ⟨hstate, hroom⟩, hu]
    rfl

theorem inv_init {readBufferSize writeBufferSize : Nat} (hsize : 4 ≤ readBufferSize)
    (hinit : (FrameTransport.create readBufferSize writeBufferSize).init mem = some t) :
    Exchange.Inv host sd ⟨t, [], [], []⟩ := by
  unfold FrameTransport.init FrameTransport.initBuffer at hinit
  cases hm : mem.malloc readBufferSize with
  | none =>
    simp only [FrameTransport.create, hm] at hinit
    cases hinit
  | some b =>
    have hlen := mem.malloc_length _ _ hm
    simp only [FrameTransport.create, hm] at hinit
    cases hinit
    exact ⟨.idle ⟨⟨rfl, rfl, rfl, rfl⟩, rfl, rfl, rfl⟩, Option.some_ne_none _, .inr ⟨rfl, rfl⟩,
      ⟨b, rfl, hlen⟩, hsize, List.not_mem_nil, List.not_mem_nil, Nat.le_refl _⟩

end Exchange

/-- In every run every request is handed over once, in order and byte for byte, and every
response that is not empty is written as a frame, whatever the pieces. -/
theorem exchanges_right {mem : Memory} (hrealloc : ∀ a n, (mem.realloc a n).isSome)
    (host : Endian) (sd : Nat) {readBufferSize writeBufferSize : Nat} {t : FrameTransport}
    (hsize : 4 ≤ readBufferSize)
    (hinit : (FrameTransport.create readBufferSize writeBufferSize).init mem = some t)
    {events : List Event} {x : Except TransportFault Exchange}
    (hrun : (exchanges mem host sd t).run (exchanges mem host sd t).init events = some x) :
    ∀ pre, pre <+: events → ∃ s, (exchanges mem host sd t).run
      (exchanges mem host sd t).init pre = some (.ok s) ∧ s.Right reply ∧
        s.Proceeds (exchanges mem host sd t) := by
  intro pre hpre
  obtain ⟨s, hs, hinv⟩ := Machine.run_always (G := fun _ _ => True) (P := Exchange.Inv host sd)
    (fun _ _ _ hp _ hst => hp.step hrealloc hst) (Exchange.inv_init hsize hinit)
    (Machine.along_of_forall _ _ _ fun _ _ _ => trivial) hrun pre hpre
  exact ⟨s, hs, hinv.right, hinv.proceeds hrealloc⟩

/- An allocator that grants every block, with zeros in it. -/
def plenty : Memory where
  malloc n := some (List.replicate n 0)
  realloc a n := some (a.take n ++ List.replicate (n - a.length) 0)
  malloc_length n b h := by
    cases h
    exact List.length_replicate
  realloc_length a n b h := by
    cases h
    rw [List.length_append, List.length_take, List.length_replicate]
    omega

def started : FrameTransport :=
  ((FrameTransport.create 4 4).init plenty).getD (.create 4 4)

/- A body of nine bytes, for which the buffer grows, and one of two, for which it shrinks. -/
def twoExchanges : List Event :=
  [.request [1, 2, 3, 4, 5, 6, 7, 8, 9], .readable 3, .readable 4, .readable 1, .readable 7,
    .readable 1, .respond [10], .writable (some 2), .writable none, .writable (some 9),
    .request [11, 12], .readable 4, .readable 1, .readable 1, .respond []]

theorem exchanges_right_twoExchanges :
    ∃ s, (exchanges plenty .little 7 started).run (exchanges plenty .little 7 started).init
        twoExchanges = some (.ok s) ∧ s.Right reply ∧
      s.t.handed = [[1, 2, 3, 4, 5, 6, 7, 8, 9], [11, 12]] ∧ s.t.wire = [0, 0, 0, 1, 10] := by
  have hends : (exchanges plenty .little 7 started).runsTo
      (exchanges plenty .little 7 started).init twoExchanges (fun s =>
        decide (s.t.handed = [[1, 2, 3, 4, 5, 6, 7, 8, 9], [11, 12]] ∧
          s.t.wire = [0, 0, 0, 1, 10])) = true := by decide +kernel
  obtain ⟨s, hs, hends⟩ := Machine.exists_of_runsTo hends
  obtain ⟨u, hu, hright, -⟩ := exchanges_right (fun _ _ => rfl) .little 7 (Nat.le_refl 4) rfl hs
    twoExchanges (List.prefix_refl _)
  cases hs.symm.trans hu
  exact ⟨s, hs, hright, of_decide_eq_true hends⟩

/-- For an empty response not even its length is written. -/
theorem exchanges_emptyResponse :
    ∃ s, (exchanges plenty .little 7 started).run (exchanges plenty .little 7 started).init
        [.request [1], .readable 5, .readable 1, .respond []] = some (.ok s) ∧
      s.responses = [[]] ∧ s.t.wire = [] ∧ ¬ s.Right frame := by
  have hends : (exchanges plenty .little 7 started).runsTo
      (exchanges plenty .little 7 started).init
      [.request [1], .readable 5, .readable 1, .respond []] (fun s =>
        decide (s.responses = [[]] ∧ s.t.wire = [] ∧
          s.t.socketState = .SOCKET_RECV_FRAMING)) = true := by decide +kernel
  obtain ⟨s, hs, hends⟩ := Machine.exists_of_runsTo hends
  obtain ⟨hresponses, hwire, hstate⟩ := of_decide_eq_true hends
  refine ⟨s, hs, hresponses, hwire, fun hright => ?_⟩
  have hall := hright.wireAll (by rw [hstate]; exact nofun)
  rw [hresponses, hwire] at hall
  cases hall

end TstMuduo.Transfer
