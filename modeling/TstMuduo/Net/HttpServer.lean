import Mathlib.Data.List.Forall2
import TstMuduo.Net.HttpContext

/-!
# The HTTP server (muduo/net/http/HttpServer.cc, HttpResponse.cc)

One connection of the server. `onMessage` parses what it finds in the input buffer and
serves the request when it has got all of it; the user's `httpCallback_` is a parameter.
-/

namespace TstMuduo.Net
open TstMuduo.Lib

/-! ### Responses -/

inductive HttpStatusCode where
  | kUnknown
  | k200Ok
  | k301MovedPermanently
  | k400BadRequest
  | k404NotFound
  deriving DecidableEq, Repr

def HttpStatusCode.toNat : HttpStatusCode → Nat
  | .kUnknown => 0
  | .k200Ok => 200
  | .k301MovedPermanently => 301
  | .k400BadRequest => 400
  | .k404NotFound => 404

/- `headers` lists the map in the order of its keys. -/
structure HttpResponse where
  headers : List (Bytes × Bytes)
  statusCode : HttpStatusCode
  statusMessage : Bytes
  closeConnection : Bool
  body : Bytes

def crlf : Bytes := [13, 10]

namespace HttpResponse

/- `HttpResponse(close)` (`HttpResponse.h:36`). -/
def new (close : Bool) : HttpResponse := ⟨[], .kUnknown, [], close, []⟩

/- `snprintf` into a buffer of 32 bytes: a text, a number and a text. -/
def snprintf (before : List Char) (n : Nat) (after : List Char) : Bytes :=
  (ascii (before ++ Nat.toDigits 10 n ++ after)).take 31

/- What `appendToBuffer` (`HttpResponse.cc:17`) appends, piece by piece. -/
def pieces (r : HttpResponse) : List Bytes :=
  [snprintf ['H', 'T', 'T', 'P', '/', '1', '.', '1', ' '] r.statusCode.toNat [' '],
    r.statusMessage, crlf] ++
  (if r.closeConnection then
    [ascii ['C', 'o', 'n', 'n', 'e', 'c', 't', 'i', 'o', 'n', ':', ' ', 'c', 'l', 'o', 's', 'e'] ++
      crlf]
  else
    [snprintf ['C', 'o', 'n', 't', 'e', 'n', 't', '-', 'L', 'e', 'n', 'g', 't', 'h', ':', ' ']
      r.body.length ['\r', '\n'],
      ascii ['C', 'o', 'n', 'n', 'e', 'c', 't', 'i', 'o', 'n', ':', ' ', 'K', 'e', 'e', 'p', '-',
        'A', 'l', 'i', 'v', 'e'] ++ crlf]) ++
  (r.headers.flatMap fun h => [h.1, ascii [':', ' '], h.2, crlf]) ++
  [crlf, r.body]

def appendToBuffer (r : HttpResponse) (output : Buffer) : Except Assertion Buffer :=
  r.pieces.foldlM (fun b piece => b.append piece) output

theorem foldlM_append (ps : List Bytes) (output : Buffer) :
    ∃ b, ps.foldlM (fun b piece => b.append piece) output = .ok b ∧
      b.contents = output.contents ++ ps.flatten := by
  induction ps generalizing output with
  | nil => exact ⟨output, rfl, (List.append_nil _).symm⟩
  | cons p ps ih =>
    obtain ⟨b, hb, hc⟩ := output.append_spec p
    obtain ⟨d, hd, hdc⟩ := ih b
    refine ⟨d, ?_, ?_⟩
    · rw [List.foldlM_cons, hb, ok_bind, hd]
    · rw [hdc, hc, List.flatten_cons, List.append_assoc]

end HttpResponse

/-! ### The connection -/

inductive HttpEvent where
  | request (r : HttpRequest)
  | send (data : Bytes)
  | shutdown

structure HttpConnection where
  context : HttpContext
  buffer : Buffer
  events : List HttpEvent

namespace HttpServer

variable (httpCallback : HttpRequest → HttpResponse → HttpResponse)

/- The `close` of `onRequest`. -/
def wantsClose (req : HttpRequest) : Bool :=
  let connection :=
    req.getHeader (ascii ['C', 'o', 'n', 'n', 'e', 'c', 't', 'i', 'o', 'n'])
  connection == ascii ['c', 'l', 'o', 's', 'e'] ||
    (req.version == .kHttp10 &&
      connection != ascii ['K', 'e', 'e', 'p', '-', 'A', 'l', 'i', 'v', 'e'])

/- `onRequest` (`HttpServer.cc:91`). -/
def onRequest (events : List HttpEvent) (req : HttpRequest) :
    Except Assertion (List HttpEvent) := do
  let response := httpCallback req (.new (wantsClose req))
  let buf ← response.appendToBuffer (Buffer.new kInitialSize)
  let events := events ++ [.request req, .send buf.contents]
  return if response.closeConnection then events ++ [.shutdown] else events

def badRequest : Bytes :=
  ascii ['H', 'T', 'T', 'P', '/', '1', '.', '1', ' ', '4', '0', '0', ' ', 'B', 'a', 'd', ' ', 'R',
    'e', 'q', 'u', 'e', 's', 't'] ++ crlf ++ crlf

/- `onMessage` (`HttpServer.cc:72`); `none` if the parser has not ended. -/
def onMessage (receiveTime : Int) (s : HttpConnection) :
    Except Assertion (Option HttpConnection) := do
  match ← ParseState.parseRequest receiveTime ⟨s.context, s.buffer⟩ with
  | none => return none
  | some (ok, t) =>
    let events := if ok then s.events else s.events ++ [.send badRequest, .shutdown]
    if t.context.gotAll then
      let served ← onRequest httpCallback events t.context.request
      return some ⟨.new, t.buffer, served⟩
    else return some ⟨t.context, t.buffer, events⟩

/- What ends the server: a failed assert, or a call of `onMessage` that does not return. -/
inductive Fault where
  | assertion (a : Assertion)
  | hangs
  deriving DecidableEq, Repr

/- A chunk comes at some time: it is appended to the input buffer, then `onMessage`. -/
def receive (s : HttpConnection) (chunk : Bytes × Int) : Except Fault HttpConnection :=
  match (do onMessage httpCallback chunk.2 { s with buffer := ← s.buffer.append chunk.1 }) with
  | .error a => .error (.assertion a)
  | .ok none => .error .hangs
  | .ok (some t) => .ok t

/- A connection after `onConnection` (`HttpServer.cc:64`), and the chunks it receives. -/
def machine : Machine HttpConnection (Bytes × Int) Fault where
  init := ⟨.new, Buffer.new kInitialSize, []⟩
  step s chunk := some (receive httpCallback s chunk)

end HttpServer

def HttpConnection.requests (s : HttpConnection) : List ParsedRequest :=
  s.events.filterMap fun
    | .request r => some r.toParsedRequest
    | _ => none

namespace HttpServer

variable (httpCallback : HttpRequest → HttpResponse → HttpResponse) {s : HttpConnection}

/-! ### One chunk -/

theorem onRequest_spec (events : List HttpEvent) (req : HttpRequest) :
    ∃ served, onRequest httpCallback events req = .ok served ∧
      ∀ context buffer, HttpConnection.requests ⟨context, buffer, served⟩ =
        HttpConnection.requests ⟨context, buffer, events⟩ ++ [req.toParsedRequest] := by
  obtain ⟨b, hb, _⟩ := HttpResponse.foldlM_append
    (httpCallback req (.new (wantsClose req))).pieces (Buffer.new kInitialSize)
  simp only [onRequest, HttpResponse.appendToBuffer, hb, ok_bind]
  refine ⟨_, rfl, ?_⟩
  intro context buffer
  simp only [HttpConnection.requests]
  split
  · simp
  · simp

/-- The three ways in which a chunk can end for a context that can go on. -/
inductive Received (s : HttpConnection) (p : HttpRequestParseState × ParsedRequest) :
    Bool → HttpConnection → Prop
  | waiting {t} : t.context.Ready → t.context.parsed = p → t.requests = s.requests →
    Received s p false t
  | served {t} : p.1 = .kGotAll → t.context = .new → t.requests = s.requests ++ [p.2] →
    Received s p true t
  | refused {t} : ParseState.Rejected ⟨t.context, t.buffer⟩ → t.context.parsed = p →
    t.requests = s.requests → Received s p true t

theorem receive_spec (hs : s.context.Ready) (chunk : Bytes × Int) {stopped : Bool}
    {p : HttpRequestParseState × ParsedRequest} {rest : Bytes}
    (h : requestScanner.Drains s.context.parsed (s.buffer.contents ++ chunk.1) stopped p rest) :
    ∃ t, receive httpCallback s chunk = .ok t ∧ t.buffer.contents = rest ∧
      Received s p stopped t := by
  obtain ⟨b, hb, hc⟩ := s.buffer.append_spec chunk.1
  rw [← hc] at h
  obtain ⟨ok, u, hu, hp, hrest, hended⟩ := ParseState.loop_spec chunk.2
    (s := ⟨s.context, b⟩) hs (Nat.lt_succ_self _) h
  have hparse : ParseState.parseRequest chunk.2 ⟨s.context, b⟩ = .ok (some (ok, u)) := hu
  unfold receive onMessage
  simp only [hb, ok_bind, hparse]
  cases hended with
  | waiting hready =>
    refine ⟨⟨u.context, u.buffer, s.events⟩, ?_, hrest, .waiting hready hp rfl⟩
    simp only [hready.not_gotAll]
    rfl
  | complete hst =>
    obtain ⟨served, hserved, hreq⟩ := onRequest_spec httpCallback s.events
      u.context.request
    refine ⟨⟨.new, u.buffer, served⟩, ?_, hrest, .served ?_ rfl ?_⟩
    · have hgot : u.context.gotAll = true := by simp [HttpContext.gotAll, hst]
      simp only [hgot, if_true, hserved, ok_bind]
      rfl
    · rw [← hp]
      exact hst
    · rw [hreq, ← hp]
      rfl
  | rejected hrej =>
    refine ⟨⟨u.context, u.buffer, s.events ++ [.send badRequest, .shutdown]⟩, ?_, hrest,
      .refused hrej hp ?_⟩
    · have hgot : u.context.gotAll = false := by simp [HttpContext.gotAll, hrej.1]
      simp only [hgot]
      rfl
    · simp [HttpConnection.requests]

/-! ### Whether the server survives -/

def Stale (s : HttpConnection) : Prop :=
  s.context.state = .kExpectRequestLine ∧ s.context.request.method ≠ .kInvalid

instance (s : HttpConnection) : Decidable (Stale s) := by
  unfold Stale
  infer_instance

/- Between two chunks: the parser can go on, or a rejected line waits in the buffer. -/
def Waiting (s : HttpConnection) : Prop :=
  s.context.Ready ∨ ParseState.Rejected ⟨s.context, s.buffer⟩

theorem receive_good (hs : Waiting s) (hfresh : ¬ Stale s) (chunk : Bytes × Int) :
    ∃ t, receive httpCallback s chunk = .ok t ∧ Waiting t := by
  have hready : s.context.Ready := by
    rcases hs with hready | hrej
    · exact hready
    · refine .inl ⟨hrej.1, ?_⟩
      by_contra hm
      exact hfresh ⟨hrej.1, hm⟩
  obtain ⟨stopped, p, rest, hd⟩ :=
    requestScanner.exists_drains s.context.parsed (s.buffer.contents ++ chunk.1)
  obtain ⟨t, ht, _, hrec⟩ := receive_spec httpCallback hready chunk hd
  refine ⟨t, ht, ?_⟩
  cases hrec with
  | waiting hr _ _ => exact .inl hr
  | served _ hc _ =>
    left
    rw [hc]
    exact HttpContext.new_ready
  | refused hr _ _ => exact .inr hr

theorem receive_stale (hs : Waiting s) (hstale : Stale s) (chunk : Bytes × Int) :
    receive httpCallback s chunk = .error (.assertion .httpSetMethod) := by
  obtain ⟨hst, hm⟩ := hstale
  have hrej : ParseState.Rejected ⟨s.context, s.buffer⟩ := by
    rcases hs with hready | hrej
    · rcases hready with ⟨_, hinv⟩ | hhead
      · exact absurd hinv hm
      · cases hst.symm.trans hhead
    · exact hrej
  obtain ⟨i, q, hcrlf, hspace⟩ := hrej.2 hm
  obtain ⟨b, hb, hc⟩ := s.buffer.append_spec chunk.1
  have hcrlf' : b.findCRLF = some i := by
    unfold Buffer.findCRLF
    rw [hc]
    exact searchCRLF_append _ hcrlf
  have hline : b.contents.take i = s.buffer.contents.take i := by
    rw [hc]
    exact take_append_of_searchCRLF _ hcrlf
  have hset : s.context.request.setMethod q.1 = .error .httpSetMethod := by
    simp only [ParsedRequest.setMethod, check, if_neg hm]
    rfl
  have hprocess : s.context.request.processRequestLine (b.contents.take i) =
      .error .httpSetMethod := by
    unfold ParsedRequest.processRequestLine
    rw [hline, hspace]
    simp only [hset]
    rfl
  have hturn : ParseState.turn chunk.2 ⟨s.context, b⟩ = .error .httpSetMethod := by
    unfold ParseState.turn
    simp only [hst, hcrlf', hprocess]
    rfl
  unfold receive onMessage ParseState.parseRequest ParseState.loop
  simp only [hb, ok_bind, hturn]
  rfl

/-- No assertion fails and every call returns, in exactly the runs in which no chunk comes
while a rejected request line has left its method in the context. -/
theorem survives_iff (chunks : List (Bytes × Int)) :
    (∃ t, (machine httpCallback).run (machine httpCallback).init chunks = some (.ok t)) ↔
      (machine httpCallback).Along (fun s _ => ¬ Stale s) (machine httpCallback).init chunks := by
  refine Machine.run_ok_iff (P := Waiting) ?_ ?_ (.inl HttpContext.new_ready) chunks
  · intro s chunk hs hfresh
    obtain ⟨t, ht, hw⟩ := receive_good httpCallback hs hfresh chunk
    exact ⟨t, congrArg some ht, hw⟩
  · intro s chunk t hs ht hstale
    have herr := receive_stale httpCallback hs hstale chunk
    cases herr.symm.trans (Option.some.inj ht)

/- `detail::defaultHttpCallback` (`HttpServer.cc:29`). -/
def defaultHttpCallback (_ : HttpRequest) (resp : HttpResponse) : HttpResponse :=
  { resp with
    statusCode := .k404NotFound
    statusMessage := ascii ['N', 'o', 't', ' ', 'F', 'o', 'u', 'n', 'd']
    closeConnection := true }

def testBadLine : Bytes := ascii ['G', 'E', 'T', ' ', '/', '\r', '\n']

/-- A byte that comes after the reply to a bad request line makes `setMethod` abort. -/
theorem late_chunk_aborts :
    (machine defaultHttpCallback).run (machine defaultHttpCallback).init
        [(testBadLine, 1), ([71], 2)] = some (.error (.assertion .httpSetMethod)) :=
  Machine.run_of_failsWith (by decide +kernel)

/-! ### Pipelined requests -/

/- A request that the parser takes as a whole when it comes alone. -/
def WellFormed (bytes : Bytes) : Prop :=
  ∃ time b t, b.contents = bytes ∧
    ParseState.parseRequest time ⟨.new, b⟩ = .ok (some (true, t)) ∧
    t.context.gotAll = true ∧ t.buffer.contents = []

def Reads (bytes : Bytes) (r : ParsedRequest) : Prop :=
  requestScanner.Drains HttpContext.new.parsed bytes true (.kGotAll, r) []

theorem reads_of_wellFormed {bytes : Bytes} (h : WellFormed bytes) : ∃ r, Reads bytes r := by
  obtain ⟨time, b, t, rfl, hparse, hgot, hempty⟩ := h
  obtain ⟨stopped, p, rest, hd⟩ := requestScanner.exists_drains HttpContext.new.parsed b.contents
  obtain ⟨ok, u, hu, hp, hrest, hended⟩ := ParseState.loop_spec time (s := ⟨.new, b⟩)
    HttpContext.new_ready (Nat.lt_succ_self _) hd
  cases hparse.symm.trans hu
  have hst : t.context.state = .kGotAll := of_decide_eq_true hgot
  refine ⟨t.context.request.toParsedRequest, ?_⟩
  cases hended with
  | waiting hready =>
    rcases hready with ⟨h, _⟩ | h
    · cases hst.symm.trans h
    · cases hst.symm.trans h
  | complete _ =>
    have hpair : p = (.kGotAll, t.context.request.toParsedRequest) := by
      rw [← hp, HttpContext.parsed, hst]
    rw [← hrest, hempty, hpair] at hd
    exact hd

/- The requests, of those that wait, that a sequence of chunks completes in time: one call
of `onMessage` serves at most one. `pending` counts the bytes that have come of them. -/
def served : Nat → List Bytes → List (Bytes × Int) → Nat
  | _, _, [] => 0
  | _, [], _ :: _ => 0
  | pending, r :: rest, c :: chunks =>
    if r.length ≤ pending + c.1.length then
      served (pending + c.1.length - r.length) rest chunks + 1
    else served (pending + c.1.length) (r :: rest) chunks

/- The connection has received `pending` of the requests that are not served yet. -/
def Holds (s : HttpConnection) (pending : Bytes) : Prop :=
  s.context.Ready ∧
    ((s.context = .new ∧ s.buffer.contents = pending) ∨
      requestScanner.Drains HttpContext.new.parsed pending false s.context.parsed
        s.buffer.contents)

theorem Holds.drains {pending zs rest : Bytes} {stopped : Bool}
    {p : HttpRequestParseState × ParsedRequest} (h : Holds s pending)
    (hd : requestScanner.Drains s.context.parsed (s.buffer.contents ++ zs) stopped p rest) :
    requestScanner.Drains HttpContext.new.parsed (pending ++ zs) stopped p rest := by
  rcases h.2 with ⟨hnew, hc⟩ | hold
  · rw [← hc, ← hnew]
    exact hd
  · exact hold.append hd

theorem append_eq_of_le {xs ys us vs : Bytes} (h : xs ++ ys = us ++ vs)
    (hle : us.length ≤ xs.length) : ∃ zs, xs = us ++ zs ∧ zs ++ ys = vs := by
  refine ⟨xs.drop us.length, ?_, ?_⟩
  · have htake : xs.take us.length = us := by
      have := congrArg (List.take us.length) h
      rw [List.take_append_of_le_length hle, List.take_left] at this
      exact this
    nth_rewrite 1 [← htake]
    exact (List.take_append_drop _ _).symm
  · have := congrArg (List.drop us.length) h
    rw [List.drop_append_of_le_length hle, List.drop_left] at this
    exact this

theorem run_served {rs : List Bytes} {qs : List ParsedRequest} (hrq : List.Forall₂ Reads rs qs)
    {pending : Bytes} (hs : Holds s pending) (chunks : List (Bytes × Int))
    (hcut : pending ++ streamOf chunks = rs.flatten) :
    ∃ t, (machine httpCallback).run s chunks = some (.ok t) ∧
      t.requests = s.requests ++ qs.take (served pending.length rs chunks) := by
  induction chunks generalizing s pending rs qs with
  | nil => exact ⟨s, rfl, by simp [served]⟩
  | cons c chunks ih =>
    rw [streamOf_cons, ← List.append_assoc] at hcut
    obtain ⟨stopped, p, left, hd⟩ :=
      requestScanner.exists_drains s.context.parsed (s.buffer.contents ++ c.1)
    have hwhole := hs.drains hd
    obtain ⟨t, ht, hleft, hrec⟩ := receive_spec httpCallback hs.1 c hd
    have hrun : (machine httpCallback).run s (c :: chunks) =
        (machine httpCallback).run t chunks := by
      simp only [Machine.run, machine, ht]
    rw [hrun]
    cases hrq with
    | nil =>
      -- nothing is left to come
      have hnone : pending ++ c.1 = [] := (List.append_eq_nil_iff.mp hcut).1
      rw [hnone] at hwhole
      obtain ⟨rfl, rfl, rfl⟩ := HttpContext.drains_nil.unique hwhole
      cases hrec with
      | waiting hr hp hreq =>
        have hheld : Holds t [] := ⟨hr, .inr (by rw [hp, hleft]; exact HttpContext.drains_nil)⟩
        have hcut' : [] ++ streamOf chunks = ([] : List Bytes).flatten := by
          rw [hnone] at hcut
          exact hcut
        obtain ⟨u, hu, hreq'⟩ := ih .nil hheld hcut'
        refine ⟨u, hu, ?_⟩
        rw [hreq', hreq]
        simp
    | cons hread hrest =>
      rename_i r q rs qs
      by_cases hle : r.length ≤ (pending ++ c.1).length
      · -- the first of the requests is complete
        obtain ⟨next, hpend, hnext⟩ := append_eq_of_le hcut hle
        rw [hpend] at hwhole
        obtain ⟨rfl, rfl, rfl⟩ := (hread.append_of_over next).unique hwhole
        cases hrec with
        | served _ hnew hreq =>
          have hheld : Holds t next :=
            ⟨by rw [hnew]; exact HttpContext.new_ready, .inl ⟨hnew, hleft⟩⟩
          obtain ⟨u, hu, hreq'⟩ := ih hrest hheld hnext
          have hlen : pending.length + c.1.length - r.length = next.length := by
            rw [← List.length_append, hpend, List.length_append]
            omega
          refine ⟨u, hu, ?_⟩
          rw [List.length_append] at hle
          rw [hreq', hreq, served, if_pos hle, hlen, List.take_succ_cons, List.append_assoc,
            List.singleton_append]
        | refused hrej hp _ =>
          have hst : t.context.state = .kGotAll := congrArg Prod.fst hp
          cases hst.symm.trans hrej.1
      · -- only a part of it has come, and it is not over
        obtain ⟨zs, hr, hnext⟩ := append_eq_of_le hcut.symm (by omega)
        have hover : stopped = false := by
          cases stopped with
          | false => rfl
          | true =>
            have hpart := hwhole.append_of_over zs
            rw [← hr] at hpart
            obtain ⟨_, _, hnil⟩ := hread.unique hpart
            have hzs := (List.append_eq_nil_iff.mp hnil.symm).2
            rw [hr, hzs, List.append_nil] at hle
            exact absurd (Nat.le_refl _) hle
        subst hover
        cases hrec with
        | waiting hready hp hreq =>
          have hheld : Holds t (pending ++ c.1) :=
            ⟨hready, .inr (by rw [hp, hleft]; exact hwhole)⟩
          obtain ⟨u, hu, hreq'⟩ := ih (.cons hread hrest) hheld hcut
          refine ⟨u, hu, ?_⟩
          rw [List.length_append] at hle hreq'
          rw [hreq', hreq, served, if_neg hle]

def completed : List Bytes → Nat → Nat
  | [], _ => 0
  | r :: rest, n => if r.length ≤ n then completed rest (n - r.length) + 1 else 0

theorem served_le (pending : Nat) (rs : List Bytes) (chunks : List (Bytes × Int)) :
    served pending rs chunks ≤ rs.length := by
  induction chunks generalizing pending rs with
  | nil => exact Nat.zero_le _
  | cons c chunks ih =>
    cases rs with
    | nil => exact Nat.zero_le _
    | cons r rs =>
      rw [served]
      split
      · exact Nat.succ_le_succ (ih _ _)
      · exact ih _ _

theorem served_all_iff (pending : Nat) (rs : List Bytes) (chunks : List (Bytes × Int)) :
    served pending rs chunks = rs.length ↔
      rs.length ≤ chunks.length ∧ ∀ m < chunks.length,
        rs.length ≤ completed rs (pending + (streamOf (chunks.take (m + 1))).length) +
          (chunks.length - (m + 1)) := by
  induction chunks generalizing pending rs with
  | nil =>
    simp only [served, List.length_nil, Nat.not_lt_zero, false_implies, implies_true, and_true]
    omega
  | cons c chunks ih =>
    have hsum : ∀ m, pending + (streamOf ((c :: chunks).take (m + 1))).length =
        pending + c.1.length + (streamOf (chunks.take m)).length := by
      intro m
      rw [List.take_succ_cons, streamOf_cons, List.length_append, Nat.add_assoc]
    simp only [hsum, List.length_cons]
    have hzero : (streamOf (chunks.take 0)).length = 0 := rfl
    cases rs with
    | nil => simp [served]
    | cons r rs =>
      rw [served]
      by_cases hle : r.length ≤ pending + c.1.length
      · rw [if_pos hle, List.length_cons, Nat.add_right_cancel_iff, ih]
        have hdone : ∀ k, completed (r :: rs) (pending + c.1.length + k) =
            completed rs (pending + c.1.length - r.length + k) + 1 := by
          intro k
          rw [completed, if_pos (by omega), Nat.sub_add_comm hle]
        simp only [hdone]
        constructor
        · intro h
          refine ⟨by omega, ?_⟩
          intro m hm
          cases m with
          | zero => omega
          | succ m =>
            have := h.2 m (by omega)
            omega
        · intro h
          refine ⟨by omega, ?_⟩
          intro m hm
          have := h.2 (m + 1) (by omega)
          omega
      · rw [if_neg hle, ih]
        have hnone : completed (r :: rs) (pending + c.1.length) = 0 := by
          rw [completed, if_neg hle]
        constructor
        · intro h
          refine ⟨by omega, ?_⟩
          intro m hm
          cases m with
          | zero =>
            rw [hzero, Nat.add_zero, hnone]
            omega
          | succ m =>
            have := h.2 m (by omega)
            omega
        · intro h
          have hfirst := h.2 0 (by omega)
          rw [hzero, Nat.add_zero, hnone] at hfirst
          refine ⟨by omega, ?_⟩
          intro m hm
          have := h.2 (m + 1) (by omega)
          omega

theorem served_own (rs : List Bytes) (chunks : List (Bytes × Int))
    (h : chunks.map (fun c => c.1) = rs) : served 0 rs chunks = rs.length := by
  induction chunks generalizing rs with
  | nil =>
    subst h
    rfl
  | cons c chunks ih =>
    subst h
    rw [List.map_cons, served, if_pos (by omega), Nat.zero_add, Nat.sub_self, ih _ rfl]
    rfl

theorem exists_reads {rs : List Bytes} (h : ∀ r ∈ rs, WellFormed r) :
    ∃ qs, List.Forall₂ Reads rs qs := by
  induction rs with
  | nil => exact ⟨[], .nil⟩
  | cons r rs ih =>
    obtain ⟨q, hq⟩ := reads_of_wellFormed (h r List.mem_cons_self)
    obtain ⟨qs, hqs⟩ := ih fun r' hr' => h r' (List.mem_cons_of_mem _ hr')
    exact ⟨q :: qs, .cons hq hqs⟩

/-- The requests of a stream are served as when each comes in a chunk of its own exactly if,
after any number of chunks, the requests completed by then and the chunks that are still to
come are together as many as the requests. -/
theorem pipelined_iff (rs : List Bytes) (hrs : ∀ r ∈ rs, WellFormed r)
    (chunks own : List (Bytes × Int)) (hcut : streamOf chunks = rs.flatten)
    (hown : own.map (fun c => c.1) = rs) :
    ∃ s t, (machine httpCallback).run (machine httpCallback).init chunks = some (.ok s) ∧
      (machine httpCallback).run (machine httpCallback).init own = some (.ok t) ∧
      t.requests.length = rs.length ∧
      (s.requests = t.requests ↔ ∀ m ≤ chunks.length,
        rs.length ≤ completed rs (streamOf (chunks.take m)).length + (chunks.length - m)) := by
  obtain ⟨qs, hqs⟩ := exists_reads hrs
  have hlen := hqs.length_eq
  have hstart : Holds (machine httpCallback).init [] :=
    ⟨HttpContext.new_ready, .inl ⟨rfl, Buffer.contents_new _⟩⟩
  obtain ⟨s, hs, hsr⟩ := run_served httpCallback hqs hstart chunks hcut
  obtain ⟨t, ht, htr⟩ := run_served httpCallback hqs hstart own
    (by rw [List.nil_append, streamOf, hown])
  have hinit : (machine httpCallback).init.requests = [] := rfl
  rw [hinit, List.nil_append, List.length_nil] at hsr htr
  rw [served_own rs own hown, hlen, List.take_length] at htr
  refine ⟨s, t, hs, ht, by rw [htr, hlen], ?_⟩
  have hzero : completed rs 0 = 0 := by
    cases hqs with
    | nil => rfl
    | cons hread _ =>
      -- no request is empty
      rename_i r q rs qs
      refine if_neg ?_
      intro hr
      cases List.length_eq_zero_iff.mp (Nat.le_zero.mp hr)
      cases (hread.unique HttpContext.drains_nil).1
  have hall : s.requests = t.requests ↔ served 0 rs chunks = rs.length := by
    have hle := served_le 0 rs chunks
    rw [hsr, htr]
    constructor
    · intro h
      have := congrArg List.length h
      rw [List.length_take] at this
      omega
    · intro h
      rw [h, hlen, List.take_length]
  rw [hall, served_all_iff]
  constructor
  · intro h m hm
    cases m with
    | zero =>
      rw [List.take_zero]
      exact Nat.le_trans h.1 (Nat.le_add_left _ _)
    | succ m =>
      have := h.2 m hm
      rwa [Nat.zero_add] at this
  · intro h
    refine ⟨?_, ?_⟩
    · have := h 0 (Nat.zero_le _)
      rw [List.take_zero] at this
      rw [show (streamOf []).length = 0 from rfl, hzero] at this
      omega
    · intro m hm
      rw [Nat.zero_add]
      exact h (m + 1) hm

theorem wellFormed_testRequest : WellFormed testRequest := by
  obtain ⟨b, hb, hc⟩ := (Buffer.new kInitialSize).append_spec testRequest
  rw [Buffer.contents_new, List.nil_append] at hc
  obtain ⟨stopped, p, rest, hd⟩ := requestScanner.exists_drains HttpContext.new.parsed testRequest
  rw [← hc] at hd
  obtain ⟨ok, t, ht, hp, hrest, hended⟩ := ParseState.loop_spec 0 (s := ⟨.new, b⟩)
    HttpContext.new_ready (Nat.lt_succ_self _) hd
  have htest : ((Buffer.new kInitialSize).append testRequest >>= fun b =>
      ParseState.parseRequest 0 ⟨.new, b⟩).toOption.join.map (fun x =>
        (x.1, x.2.context.gotAll, x.2.buffer.contents)) = some (true, true, []) := by
    decide +kernel
  have hparse : ParseState.parseRequest 0 ⟨.new, b⟩ = .ok (some (ok, t)) := ht
  rw [hb, ok_bind, hparse] at htest
  simp only [Except.toOption, Option.join_some, Option.map_some, Option.some.injEq,
    Prod.mk.injEq] at htest
  obtain ⟨rfl, hgot, hempty⟩ := htest
  exact ⟨0, b, t, hc, hparse, hgot, hempty⟩

def testCallback (_ : HttpRequest) (resp : HttpResponse) : HttpResponse :=
  { resp with statusCode := .k200Ok }

/- Two requests in three chunks, with a cut inside the first one. -/
def testCut : List (Bytes × Int) :=
  [(testRequest.take 17, 1), (testRequest.drop 17, 2), (testRequest, 3)]

theorem pipelined_iff_cut :
    ∃ s t, (machine testCallback).run (machine testCallback).init testCut =
        some (.ok s) ∧
      (machine testCallback).run (machine testCallback).init
        [(testRequest, 1), (testRequest, 2)] = some (.ok t) ∧
      t.requests.length = 2 ∧ s.requests = t.requests := by
  have hrs : ∀ r ∈ [testRequest, testRequest], WellFormed r := by
    intro r hr
    have : r = testRequest := by simpa using hr
    rw [this]
    exact wellFormed_testRequest
  obtain ⟨s, t, hs, ht, hlen, hiff⟩ := pipelined_iff testCallback
    [testRequest, testRequest] hrs testCut [(testRequest, 1), (testRequest, 2)] (by decide) rfl
  exact ⟨s, t, hs, ht, hlen, hiff.mpr (by decide)⟩

/-- Of two requests in one chunk only the first is served. -/
theorem coalesced_not_served :
    WellFormed testRequest ∧
      ∃ s t, (machine testCallback).run (machine testCallback).init
          [(testRequest ++ testRequest, 1)] = some (.ok s) ∧
        (machine testCallback).run (machine testCallback).init
          [(testRequest, 1), (testRequest, 2)] = some (.ok t) ∧
        s.requests.length = 1 ∧ t.requests.length = 2 := by
  obtain ⟨s, hs, hone⟩ : ∃ s, (machine testCallback).run
      (machine testCallback).init [(testRequest ++ testRequest, 1)] = some (.ok s) ∧
        decide (s.requests.length = 1) = true :=
    Machine.exists_of_runsTo (by decide +kernel)
  obtain ⟨t, ht, htwo⟩ : ∃ t, (machine testCallback).run
      (machine testCallback).init [(testRequest, 1), (testRequest, 2)] = some (.ok t) ∧
        decide (t.requests.length = 2) = true :=
    Machine.exists_of_runsTo (by decide +kernel)
  exact ⟨wellFormed_testRequest, s, t, hs, ht, of_decide_eq_true hone, of_decide_eq_true htwo⟩

end HttpServer

end TstMuduo.Net
