import TstMuduo.Lib.Incremental
import TstMuduo.Net.BufferQueue

/-!
# The HTTP request parser (muduo/net/http/HttpRequest.h, HttpContext.h, HttpContext.cc)

`parseRequest` is a loop over the lines of the input buffer. What it has read of the
request is kept in the context between its calls, what it has not read stays in the
buffer.
-/

namespace TstMuduo.Net
open TstMuduo.Lib

def ascii (chars : List Char) : Bytes := chars.map fun c => .ofNat c.toNat

/- `std::find`: what stands before the byte and what stands behind it. -/
def find (c : Byte) : Bytes → Option (Bytes × Bytes)
  | [] => none
  | b :: rest => if b = c then some ([], rest) else (find c rest).map fun p => (b :: p.1, p.2)

/- `std::search` for `kCRLF`: the offset of the first one. -/
def searchCRLF : Bytes → Option Nat
  | [] => none
  | b :: rest =>
    if b = 13 ∧ rest.head? = some 10 then some 0 else (searchCRLF rest).map (· + 1)

/- `isspace` in the C locale. -/
def isspace (b : Byte) : Bool := b == 32 || (9 ≤ b && b ≤ 13)

/- `findCRLF` (`Buffer.h:104`), as the distance from `peek()`. -/
def Buffer.findCRLF (b : Buffer) : Option Nat := searchCRLF b.contents

/-! ### Requests -/

inductive HttpMethod where
  | kInvalid
  | kGet
  | kPost
  | kHead
  | kPut
  | kDelete
  deriving DecidableEq, Repr

inductive HttpVersion where
  | kUnknown
  | kHttp10
  | kHttp11
  deriving DecidableEq, Repr

/-- The part of a request that its bytes decide. -/
structure ParsedRequest where
  method : HttpMethod
  version : HttpVersion
  path : Bytes
  query : Bytes
  headers : Bytes → Option Bytes

structure HttpRequest extends ParsedRequest where
  receiveTime : Int

namespace ParsedRequest

/- `HttpRequest()` (`HttpRequest.h:36`). -/
def new : ParsedRequest := ⟨.kInvalid, .kUnknown, [], [], fun _ => none⟩

/- The method of the name `m` in `setMethod`. -/
def methodOf (m : Bytes) : HttpMethod :=
  if m = ascii ['G', 'E', 'T'] then .kGet
  else if m = ascii ['P', 'O', 'S', 'T'] then .kPost
  else if m = ascii ['H', 'E', 'A', 'D'] then .kHead
  else if m = ascii ['P', 'U', 'T'] then .kPut
  else if m = ascii ['D', 'E', 'L', 'E', 'T', 'E'] then .kDelete
  else .kInvalid

/- `setMethod` (`HttpRequest.h:53`). -/
def setMethod (r : ParsedRequest) (m : Bytes) : Except Assertion (Bool × ParsedRequest) := do
  check (r.method = .kInvalid) .httpSetMethod
  return (decide (methodOf m ≠ .kInvalid), { r with method := methodOf m })

def setTarget (r : ParsedRequest) (target : Bytes) : ParsedRequest :=
  match find 63 target with
  | some (path, query) => { r with path := path, query := 63 :: query }
  | none => { r with path := target }

/- The rest of the request line: it has to be `HTTP/1.1` or `HTTP/1.0`. -/
def setVersion (r : ParsedRequest) (version : Bytes) : Bool × ParsedRequest :=
  if version.length = 8 ∧ version.take 7 = ascii ['H', 'T', 'T', 'P', '/', '1', '.'] then
    if version.drop 7 = ascii ['1'] then (true, { r with version := .kHttp11 })
    else if version.drop 7 = ascii ['0'] then (true, { r with version := .kHttp10 })
    else (false, r)
  else (false, r)

/- `processRequestLine` (`HttpContext.cc:16`). -/
def processRequestLine (r : ParsedRequest) (line : Bytes) :
    Except Assertion (Bool × ParsedRequest) :=
  match find 32 line with
  | none => .ok (false, r)
  | some (m, rest) => do
    let (known, r) ← r.setMethod m
    if known then
      match find 32 rest with
      | none => return (false, r)
      | some (target, version) => return (r.setTarget target).setVersion version
    else return (false, r)

/- `addHeader` (`HttpRequest.h:130`): the value loses the space around it. -/
def addHeader (r : ParsedRequest) (field value : Bytes) : ParsedRequest :=
  let value := value.dropWhile isspace
  let value := (value.reverse.dropWhile isspace).reverse
  { r with headers := Function.update r.headers field (some value) }

/- `getHeader` (`HttpRequest.h:151`). -/
def getHeader (r : ParsedRequest) (field : Bytes) : Bytes := (r.headers field).getD []

end ParsedRequest

/-! ### The context -/

inductive HttpRequestParseState where
  | kExpectRequestLine
  | kExpectHeaders
  | kExpectBody
  | kGotAll
  deriving DecidableEq, Repr

structure HttpContext where
  state : HttpRequestParseState
  request : HttpRequest

namespace HttpContext

/- `HttpContext()` (`HttpContext.h:35`), and what `reset` makes of a context. -/
def new : HttpContext := ⟨.kExpectRequestLine, ⟨.new, 0⟩⟩

def gotAll (c : HttpContext) : Bool := decide (c.state = .kGotAll)

end HttpContext

/- What `parseRequest` works on. -/
structure ParseState where
  context : HttpContext
  buffer : Buffer

/- How a turn of the loop ends: the values of `hasMore` and `ok`, and what it leaves. -/
structure ParseTurn where
  hasMore : Bool
  ok : Bool
  next : ParseState

namespace ParseState

/- One turn of the loop of `parseRequest` (`HttpContext.cc:64`). In the last two states it
does nothing and has no end. -/
def turn (receiveTime : Int) (s : ParseState) : Except Assertion ParseTurn :=
  match s.context.state with
  | .kExpectRequestLine =>
    match s.buffer.findCRLF with
    | some crlf => do
      let (ok, r) ← s.context.request.processRequestLine (s.buffer.contents.take crlf)
      if ok then
        let b ← s.buffer.retrieveUntil (crlf + 2)
        return ⟨true, true, ⟨⟨.kExpectHeaders, ⟨r, receiveTime⟩⟩, b⟩⟩
      else
        let context := ⟨.kExpectRequestLine, ⟨r, s.context.request.receiveTime⟩⟩
        return ⟨false, false, ⟨context, s.buffer⟩⟩
    | none => .ok ⟨false, true, s⟩
  | .kExpectHeaders =>
    match s.buffer.findCRLF with
    | some crlf => do
      let b ← s.buffer.retrieveUntil (crlf + 2)
      match find 58 (s.buffer.contents.take crlf) with
      | some (field, value) =>
        let r := s.context.request.addHeader field value
        return ⟨true, true, ⟨⟨.kExpectHeaders, ⟨r, s.context.request.receiveTime⟩⟩, b⟩⟩
      | none => return ⟨false, true, ⟨⟨.kGotAll, s.context.request⟩, b⟩⟩
    | none => .ok ⟨false, true, s⟩
  | .kExpectBody => .ok ⟨true, true, s⟩
  | .kGotAll => .ok ⟨true, true, s⟩

/- The loop, for at most `fuel` turns; `none` if it has not ended by then. -/
def loop (receiveTime : Int) : Nat → ParseState → Except Assertion (Option (Bool × ParseState))
  | 0, _ => .ok none
  | fuel + 1, s => do
    let t ← s.turn receiveTime
    if t.hasMore then loop receiveTime fuel t.next else return some (t.ok, t.next)

/- `parseRequest` (`HttpContext.cc:60`); the turns that end are fewer than the bytes. -/
def parseRequest (receiveTime : Int) (s : ParseState) :
    Except Assertion (Option (Bool × ParseState)) :=
  s.loop receiveTime (s.buffer.readableBytes + 1)

end ParseState

/-! ### Lines -/

theorem searchCRLF_le {xs : Bytes} {i : Nat} (h : searchCRLF xs = some i) : i + 2 ≤ xs.length := by
  induction xs generalizing i with
  | nil => cases h
  | cons b rest ih =>
    simp only [searchCRLF] at h
    split at h
    next hc =>
      cases h
      cases rest with
      | nil => cases hc.2
      | cons c rest => simp
    · obtain ⟨j, hj, rfl⟩ := Option.map_eq_some_iff.mp h
      have hle := ih hj
      rw [List.length_cons]
      omega

theorem searchCRLF_append {xs : Bytes} {i : Nat} (zs : Bytes) (h : searchCRLF xs = some i) :
    searchCRLF (xs ++ zs) = some i := by
  induction xs generalizing i with
  | nil => cases h
  | cons b rest ih =>
    simp only [List.cons_append, searchCRLF] at h ⊢
    split at h
    next hc =>
      cases h
      have hhead : (rest ++ zs).head? = some 10 := by
        rw [List.head?_append, hc.2]
        rfl
      rw [if_pos ⟨hc.1, hhead⟩]
    next hc =>
      obtain ⟨j, hj, rfl⟩ := Option.map_eq_some_iff.mp h
      have hne : ¬ (b = 13 ∧ (rest ++ zs).head? = some 10) := by
        intro hcr
        cases rest with
        | nil => cases hj
        | cons c rest => exact hc hcr
      rw [if_neg hne, ih hj]
      rfl

theorem take_append_of_searchCRLF {xs : Bytes} {i : Nat} (zs : Bytes)
    (h : searchCRLF xs = some i) : (xs ++ zs).take i = xs.take i := by
  have hle := searchCRLF_le h
  exact List.take_append_of_le_length (by omega)

/-! ### The parser as a scanner -/

/- What the state and the request of a context become of a whole line of the input,
which is `n` bytes long with its end. -/
def scanLine (p : HttpRequestParseState × ParsedRequest) (line : Bytes) (n : Nat) :
    Scan (HttpRequestParseState × ParsedRequest) :=
  match p.1 with
  | .kExpectRequestLine =>
    match p.2.processRequestLine line with
    | .ok (true, r) => .take n (.kExpectHeaders, r)
    | .ok (false, r) => .halt (.kExpectRequestLine, r)
    | .error _ => .halt p
  | .kExpectHeaders =>
    match find 58 line with
    | some (field, value) => .take n (.kExpectHeaders, p.2.addHeader field value)
    | none => .take n (.kGotAll, p.2)
  | .kExpectBody => .halt p
  | .kGotAll => .halt p

def scanRequest (p : HttpRequestParseState × ParsedRequest) (input : Bytes) :
    Scan (HttpRequestParseState × ParsedRequest) :=
  if p.1 = .kGotAll ∨ p.1 = .kExpectBody then .halt p
  else
    match searchCRLF input with
    | none => .more
    | some crlf => scanLine p (input.take crlf) (crlf + 2)

theorem scanLine_take {p q : HttpRequestParseState × ParsedRequest} {line : Bytes} {n k : Nat}
    (h : scanLine p line n = .take k q) : k = n := by
  unfold scanLine at h
  split at h
  · split at h
    · cases h; rfl
    · cases h
    · cases h
  · split at h
    · cases h; rfl
    · cases h; rfl
  · cases h
  · cases h

theorem scanRequest_take {p q : HttpRequestParseState × ParsedRequest} {xs : Bytes} {n : Nat}
    (h : scanRequest p xs = .take n q) : 0 < n ∧ n ≤ xs.length := by
  unfold scanRequest at h
  split at h
  · cases h
  · split at h
    · cases h
    next crlf hc =>
      have hle := searchCRLF_le hc
      cases scanLine_take h
      omega

theorem scanRequest_append {p : HttpRequestParseState × ParsedRequest} {xs : Bytes} (zs : Bytes)
    (h : scanRequest p xs ≠ .more) : scanRequest p (xs ++ zs) = scanRequest p xs := by
  unfold scanRequest at h ⊢
  split
  · rfl
  next hp =>
    rw [if_neg hp] at h
    cases hc : searchCRLF xs with
    | none =>
      rw [hc] at h
      exact absurd rfl h
    | some crlf =>
      rw [searchCRLF_append zs hc]
      simp only [take_append_of_searchCRLF zs hc]

def requestScanner : Scanner (HttpRequestParseState × ParsedRequest) Byte where
  scan := scanRequest
  take_pos h := (scanRequest_take h).1
  take_le h := (scanRequest_take h).2
  take_append zs h := by rw [scanRequest_append zs (by simp [h]), h]
  halt_append zs h := by rw [scanRequest_append zs (by simp [h]), h]

/-! ### The loop -/

theorem ParsedRequest.processRequestLine_ok {r : ParsedRequest} (hr : r.method = .kInvalid)
    (line : Bytes) : ∃ x, r.processRequestLine line = .ok x := by
  unfold processRequestLine
  split
  · exact ⟨_, rfl⟩
  next m rest _ =>
    simp only [setMethod, check_ok hr, ok_bind]
    by_cases hm : methodOf m = .kInvalid
    · exact ⟨(false, { r with method := methodOf m }), by simp [hm, ok_bind, pure, Except.pure]⟩
    · simp only [hm, ne_eq, not_false_eq_true, decide_true, pure, Except.pure, ok_bind, if_true]
      split
      · exact ⟨_, rfl⟩
      · exact ⟨_, rfl⟩

namespace HttpContext

def parsed (c : HttpContext) : HttpRequestParseState × ParsedRequest :=
  (c.state, c.request.toParsedRequest)

def Ready (c : HttpContext) : Prop :=
  (c.state = .kExpectRequestLine ∧ c.request.method = .kInvalid) ∨ c.state = .kExpectHeaders

theorem new_ready : new.Ready := .inl ⟨rfl, rfl⟩

theorem Ready.not_gotAll {c : HttpContext} (h : c.Ready) : c.gotAll = false := by
  rcases h with ⟨hst, _⟩ | hst
  · simp [gotAll, hst]
  · simp [gotAll, hst]

theorem drains_nil : requestScanner.Drains new.parsed [] false new.parsed [] := .more rfl

end HttpContext

theorem ParsedRequest.find_of_known {r r' : ParsedRequest} {line : Bytes} {ok : Bool}
    (hr : r.method = .kInvalid) (h : r.processRequestLine line = .ok (ok, r'))
    (hm : r'.method ≠ .kInvalid) : ∃ p, find 32 line = some p := by
  unfold processRequestLine at h
  split at h
  · cases h
    exact absurd hr hm
  next m rest hf => exact ⟨_, hf⟩

namespace ParseState

/- After a rejected request line: it is still in the buffer, and if the method has been
set there is a space behind it. -/
def Rejected (s : ParseState) : Prop :=
  s.context.state = .kExpectRequestLine ∧
    (s.context.request.method ≠ .kInvalid →
      ∃ crlf p, s.buffer.findCRLF = some crlf ∧ find 32 (s.buffer.contents.take crlf) = some p)

/-- A turn of the loop goes by what the scanner says. -/
theorem turn_spec (time : Int) {s : ParseState} (hs : s.context.Ready) :
    (scanRequest s.context.parsed s.buffer.contents = .more →
      s.turn time = .ok ⟨false, true, s⟩) ∧
    (∀ p, scanRequest s.context.parsed s.buffer.contents = .halt p →
      ∃ t, s.turn time = .ok ⟨false, false, t⟩ ∧ t.context.parsed = p ∧ t.buffer = s.buffer ∧
        t.Rejected) ∧
    ∀ n p, scanRequest s.context.parsed s.buffer.contents = .take n p →
      ∃ t, s.turn time = .ok ⟨decide (p.1 ≠ .kGotAll), true, t⟩ ∧ t.context.parsed = p ∧
        t.buffer.contents = s.buffer.contents.drop n ∧
        (p.1 = .kExpectHeaders ∨ p.1 = .kGotAll) := by
  obtain ⟨⟨state, request⟩, buffer⟩ := s
  rcases hs with ⟨hst, hm⟩ | hst
  · cases hst
    unfold turn scanRequest
    simp only [HttpContext.parsed, Buffer.findCRLF, reduceCtorEq, or_self, if_false]
    cases hc : searchCRLF buffer.contents with
    | none => simp
    | some crlf =>
      obtain ⟨⟨ok, r⟩, hx⟩ :=
        ParsedRequest.processRequestLine_ok hm (buffer.contents.take crlf)
      have hle := searchCRLF_le hc
      rw [Buffer.length_contents] at hle
      obtain ⟨b, hb, hbc⟩ := buffer.retrieveUntil_spec _ hle
      simp only [scanLine, hx, ok_bind]
      cases ok with
      | false =>
        refine ⟨by simp, ?_, by simp⟩
        intro p hp
        cases hp
        refine ⟨_, rfl, rfl, rfl, rfl, ?_⟩
        intro hknown
        obtain ⟨q, hq⟩ := ParsedRequest.find_of_known hm hx hknown
        exact ⟨crlf, q, hc, hq⟩
      | true =>
        refine ⟨by simp, by simp, ?_⟩
        intro n p hp
        cases hp
        refine ⟨⟨⟨.kExpectHeaders, ⟨r, time⟩⟩, b⟩, ?_, rfl, hbc, .inl rfl⟩
        simp only [if_true, hb, ok_bind]
        rfl
  · cases hst
    unfold turn scanRequest
    simp only [HttpContext.parsed, Buffer.findCRLF, reduceCtorEq, or_self, if_false]
    cases hc : searchCRLF buffer.contents with
    | none => simp
    | some crlf =>
      have hle := searchCRLF_le hc
      rw [Buffer.length_contents] at hle
      obtain ⟨b, hb, hbc⟩ := buffer.retrieveUntil_spec _ hle
      simp only [scanLine, hb, ok_bind]
      cases find 58 (buffer.contents.take crlf) with
      | none =>
        refine ⟨by simp, by simp, ?_⟩
        intro n p hp
        cases hp
        exact ⟨⟨⟨.kGotAll, request⟩, b⟩, rfl, rfl, hbc, .inr rfl⟩
      | some fv =>
        refine ⟨by simp, by simp, ?_⟩
        intro n p hp
        cases hp
        exact ⟨⟨⟨.kExpectHeaders, ⟨request.addHeader fv.1 fv.2, request.receiveTime⟩⟩, b⟩, rfl, rfl,
          hbc, .inl rfl⟩

/- How a call of `parseRequest` ends, where the scan of the input is over or waits. -/
inductive Ended : Bool → Bool → ParseState → Prop
  | waiting {s} : s.context.Ready → Ended false true s
  | complete {s} : s.context.state = .kGotAll → Ended true true s
  | rejected {s} : s.Rejected → Ended true false s

/-- The loop ends, with what the scan of its input says. -/
theorem loop_spec (time : Int) {fuel : Nat} {s : ParseState} {stopped : Bool}
    {p : HttpRequestParseState × ParsedRequest} {rest : Bytes} (hs : s.context.Ready)
    (hfuel : s.buffer.readableBytes < fuel)
    (h : requestScanner.Drains s.context.parsed s.buffer.contents stopped p rest) :
    ∃ ok t, s.loop time fuel = .ok (some (ok, t)) ∧ t.context.parsed = p ∧
      t.buffer.contents = rest ∧ Ended stopped ok t := by
  induction fuel generalizing s with
  | zero => omega
  | succ fuel ih =>
    obtain ⟨hmore, hhalt, htake⟩ := turn_spec time hs
    simp only [loop]
    cases h with
    | more hsc =>
      refine ⟨true, s, ?_, rfl, rfl, .waiting hs⟩
      rw [hmore hsc]
      rfl
    | halt hsc =>
      obtain ⟨t, ht, hp, hb, hrej⟩ := hhalt _ hsc
      refine ⟨false, t, ?_, hp, by rw [hb], .rejected hrej⟩
      rw [ht]
      rfl
    | take hsc hd =>
      obtain ⟨t, ht, hp, hb, hst⟩ := htake _ _ hsc
      rw [ht, ok_bind]
      have hle := scanRequest_take hsc
      rw [← hp, ← hb] at hd
      rcases hst with hst | hst
      · have hready : t.context.Ready := .inr (by rw [← hst, ← hp]; rfl)
        have hlt : t.buffer.readableBytes < fuel := by
          rw [← Buffer.length_contents] at hfuel ⊢
          rw [hb, List.length_drop]
          omega
        rw [hst]
        exact ih hready hlt hd
      · -- the scan is over with the empty line
        have hgot : t.context.state = .kGotAll := by
          rw [← hst, ← hp]
          rfl
        have hover : requestScanner.Drains t.context.parsed t.buffer.contents true
            t.context.parsed t.buffer.contents := by
          refine .halt ?_
          exact if_pos (.inl hgot)
        obtain ⟨rfl, rfl, rfl⟩ := hover.unique hd
        refine ⟨true, t, ?_, rfl, rfl, .complete hgot⟩
        rw [hst]
        rfl

end ParseState

/-! ### Chunks -/

inductive ParseOutcome where
  | error
  | complete
  | incomplete
  deriving DecidableEq, Repr

/- Where the feeding of chunks has stopped: what the last `parseRequest` returned, what it
left, and how many bytes had been appended to the buffer. -/
structure Fed where
  ok : Bool
  state : ParseState
  appended : Nat

namespace Fed

def outcome (f : Fed) : ParseOutcome :=
  if f.ok then if f.state.context.gotAll then .complete else .incomplete else .error

def consumed (f : Fed) : Nat := f.appended - f.state.buffer.readableBytes

end Fed

/- Chunks with their times of receipt are appended to the buffer, with `parseRequest`
after each one, until it returns false or has got all of a request. -/
def ParseState.feed (s : ParseState) (appended : Nat) :
    List (Bytes × Int) → Except Assertion (Option Fed)
  | [] => .ok (some ⟨true, s, appended⟩)
  | (chunk, time) :: chunks => do
    let b ← s.buffer.append chunk
    match ← { s with buffer := b }.parseRequest time with
    | none => return none
    | some (ok, t) =>
      if ok && !t.context.gotAll then t.feed (appended + chunk.length) chunks
      else return some ⟨ok, t, appended + chunk.length⟩

def streamOf (chunks : List (Bytes × Int)) : Bytes := (chunks.map fun c => c.1).flatten

theorem streamOf_cons (c : Bytes × Int) (chunks : List (Bytes × Int)) :
    streamOf (c :: chunks) = c.1 ++ streamOf chunks := rfl

/-- The feeding stops, in the state that the scan of the whole stream ends in. -/
theorem ParseState.feed_spec {s : ParseState} {seen : Bytes} (hs : s.context.Ready)
    (h : requestScanner.Drains HttpContext.new.parsed seen false s.context.parsed s.buffer.contents)
    (chunks : List (Bytes × Int)) :
    ∃ f stopped rest, s.feed seen.length chunks = .ok (some f) ∧
      requestScanner.Drains HttpContext.new.parsed (seen ++ streamOf chunks) stopped
        f.state.context.parsed rest ∧
      ParseState.Ended stopped f.ok f.state ∧
      f.consumed + rest.length = (seen ++ streamOf chunks).length := by
  induction chunks generalizing s seen with
  | nil =>
    refine ⟨⟨true, s, seen.length⟩, false, s.buffer.contents, rfl, ?_, .waiting hs, ?_⟩
    · rw [streamOf, List.map_nil, List.flatten_nil, List.append_nil]
      exact h
    · have hle := h.suffix.length_le
      rw [Buffer.length_contents] at hle ⊢
      rw [streamOf, List.map_nil, List.flatten_nil, List.append_nil]
      exact Nat.sub_add_cancel hle
  | cons c chunks ih =>
    obtain ⟨b, hb, hc⟩ := s.buffer.append_spec c.1
    obtain ⟨stopped, p, rest, hd⟩ :=
      requestScanner.exists_drains s.context.parsed (s.buffer.contents ++ c.1)
    have hwhole := h.append hd
    rw [← hc] at hd
    obtain ⟨ok, t, ht, rfl, rfl, hended⟩ := ParseState.loop_spec c.2
      (s := { s with buffer := b }) hs (Nat.lt_succ_self _) hd
    have hparse : ({ s with buffer := b } : ParseState).parseRequest c.2 = .ok (some (ok, t)) := ht
    rw [streamOf_cons, ← List.append_assoc]
    simp only [ParseState.feed, hb, ok_bind, hparse, ← List.length_append]
    by_cases hgo : stopped = false
    · subst hgo
      cases hended with
      | waiting hready =>
        simp only [hready.not_gotAll, Bool.not_false, Bool.and_self, if_true]
        exact ih hready hwhole
    · have hstop : (ok && !t.context.gotAll) = false := by
        cases hended with
        | waiting _ => exact absurd rfl hgo
        | complete hst => simp [HttpContext.gotAll, hst]
        | rejected _ => rfl
      have hover : stopped = true := by simpa using hgo
      subst hover
      refine ⟨⟨ok, t, (seen ++ c.1).length⟩, true, t.buffer.contents ++ streamOf chunks, ?_,
        hwhole.append_of_over _, hended, ?_⟩
      · simp only [hstop, Bool.false_eq_true, if_false]
        rfl
      · have hle := hwhole.suffix.length_le
        rw [Buffer.length_contents] at hle
        simp only [Fed.consumed, List.length_append, Buffer.length_contents] at hle ⊢
        omega

theorem ParseState.Ended.outcome_eq {stopped : Bool} {f g : Fed}
    (hf : Ended stopped f.ok f.state) (hg : Ended stopped g.ok g.state)
    (hp : f.state.context.parsed = g.state.context.parsed) : f.outcome = g.outcome := by
  have hst : f.state.context.state = g.state.context.state := congrArg Prod.fst hp
  have hok : f.ok = g.ok := by
    generalize f.ok = x at hf
    generalize g.ok = y at hg
    cases hf with
    | waiting _ => cases hg with
      | waiting _ => rfl
    | complete hc => cases hg with
      | complete _ => rfl
      | rejected hr => rw [hc, hr.1] at hst; cases hst
    | rejected hr => cases hg with
      | complete hc => rw [hc, hr.1] at hst; cases hst
      | rejected _ => rfl
  unfold Fed.outcome HttpContext.gotAll
  rw [hst, hok]

/-- However a byte string is cut, feeding it to a new context ends, with the outcome, the
request and the position that it gives in one chunk. -/
theorem chunking_independent (chunks : List (Bytes × Int)) (time : Int) (b b' : Buffer)
    (hb : b.contents = []) (hb' : b'.contents = []) :
    ∃ f g, ParseState.feed ⟨.new, b⟩ 0 chunks = .ok (some f) ∧
      ParseState.feed ⟨.new, b'⟩ 0 [(streamOf chunks, time)] = .ok (some g) ∧
      f.outcome = g.outcome ∧ f.state.context.parsed = g.state.context.parsed ∧
      f.consumed = g.consumed := by
  have hstart : ∀ a : Buffer, a.contents = [] →
      requestScanner.Drains HttpContext.new.parsed [] false HttpContext.new.parsed a.contents := by
    intro a ha
    rw [ha]
    exact HttpContext.drains_nil
  obtain ⟨f, stopped, rest, hf, hd, hended, hcons⟩ :=
    ParseState.feed_spec (s := ⟨.new, b⟩) HttpContext.new_ready (hstart b hb) chunks
  obtain ⟨g, stopped', rest', hg, hd', hended', hcons'⟩ :=
    ParseState.feed_spec (s := ⟨.new, b'⟩) HttpContext.new_ready (hstart b' hb')
      [(streamOf chunks, time)]
  have hone : streamOf [(streamOf chunks, time)] = streamOf chunks := by
    rw [streamOf_cons]
    exact List.append_nil _
  rw [hone] at hd' hcons'
  obtain ⟨rfl, hp, rfl⟩ := hd.unique hd'
  refine ⟨f, g, hf, hg, hended.outcome_eq hended' hp, hp, ?_⟩
  omega

def testLine : Bytes :=
  ascii ['G', 'E', 'T', ' ', '/', '?', 'a', ' ', 'H', 'T', 'T', 'P', '/', '1', '.', '1', '\r', '\n']
def testHeader : Bytes := ascii ['H', 'o', 's', 't', ':', ' ', 'm', '\r', '\n']
def testRequest : Bytes := testLine ++ testHeader ++ [13, 10]

/- As in `testParseRequestInTwoPieces`, with a cut inside the end of the request line. -/
theorem chunking_independent_two_pieces :
    ∃ f g, ParseState.feed ⟨.new, Buffer.new kInitialSize⟩ 0
        [(testRequest.take 17, 1), (testRequest.drop 17 ++ [71], 2)] = .ok (some f) ∧
      ParseState.feed ⟨.new, Buffer.new kInitialSize⟩ 0 [(testRequest ++ [71], 3)] =
        .ok (some g) ∧
      f.outcome = .complete ∧ g.outcome = .complete ∧ f.consumed = g.consumed := by
  obtain ⟨f, g, hf, hg, ho, _, hc⟩ :=
    chunking_independent [(testRequest.take 17, 1), (testRequest.drop 17 ++ [71], 2)] 3
      (Buffer.new kInitialSize) (Buffer.new kInitialSize) (Buffer.contents_new _)
      (Buffer.contents_new _)
  have hone : streamOf [(testRequest.take 17, 1), (testRequest.drop 17 ++ [71], 2)] =
      testRequest ++ [71] := by decide
  rw [hone] at hg
  have hcomplete : f.outcome = .complete := by
    have htest : (ParseState.feed ⟨.new, Buffer.new kInitialSize⟩ 0
        [(testRequest.take 17, 1), (testRequest.drop 17 ++ [71], 2)]).toOption.join.map
          Fed.outcome = some .complete := by decide +kernel
    rw [hf] at htest
    exact Option.some.inj htest
  exact ⟨f, g, hf, hg, hcomplete, ho ▸ hcomplete, hc⟩

end TstMuduo.Net
