import TstMuduo.Cthrift.Frames
import TstMuduo.Cthrift.Responses

/-!
# The frame loop of the client (cthrift/cthrift_client_worker.cc)

`OnMsg` takes frames out of the connection's buffer and gives each of them to
`HandleThriftMsg`. Nothing between that function and the event loop catches what it throws.
-/

namespace TstMuduo.Cthrift
open TstMuduo.Lib TstMuduo.Net

structure ConnContext4Worker where
  enum_state : State
  i32_want_size : BitVec 32
  b_highwater : Bool
  b_occupied : Bool
  deriving DecidableEq, Repr

def ConnContext4Worker.new : ConnContext4Worker where
  enum_state := .kExpectFrameSize
  i32_want_size := 0
  b_highwater := false
  b_occupied := false

/- The `boost::any` of a connection: empty, something of another type, or ours. -/
inductive Context where
  | empty
  | other
  | worker (c : ConnContext4Worker)
  deriving DecidableEq, Repr

/- What ends `OnMsg` other than a return. -/
inductive Fault where
  | assertion (a : Assertion)
  | throws (e : TException)
  deriving DecidableEq, Repr

/-- The connection as `OnMsg` finds it, the frames that were given to `HandleThriftMsg`, and how
often the connection was shut down. -/
structure ClientConn where
  worker : ClientWorker
  context : Context
  buffer : Buffer
  handled : List Bytes
  shutdowns : Nat

namespace ClientConn

def asserts {α : Type} (x : Except Assertion α) : Except Fault α := x.mapError .assertion

theorem asserts_ok {α : Type} (a : α) : asserts (.ok a) = .ok a := rfl

/- `HandleMsg` (`cthrift_client_worker.cc:816`). -/
def handleMsg (p : CthriftTBinaryProtocol) (s : ClientConn) (c : ConnContext4Worker) :
    Except Fault (ClientConn × ConnContext4Worker) := do
  let body := s.buffer.contents.take (sizeT c.i32_want_size)
  let (worker, shutdown) ← (s.worker.handleThriftMsg p body).mapError .throws
  let buffer ← asserts (s.buffer.retrieve (sizeT c.i32_want_size))
  return ({ s with
      worker := worker
      buffer := buffer
      handled := s.handled ++ [body]
      shutdowns := s.shutdowns + if shutdown then 1 else 0 },
    { c with
      enum_state := .kExpectFrameSize
      b_occupied := if buffer.readableBytes = 0 then false else c.b_occupied })

/- The loop of `OnMsg` (`cthrift_client_worker.cc:858`), for at most `fuel` turns; `none` if it
has not ended by then. -/
def loop (p : CthriftTBinaryProtocol) :
    Nat → ClientConn → ConnContext4Worker → Except Fault (Option ClientConn)
  | 0, _, _ => .ok none
  | fuel + 1, s, c =>
    match c.enum_state with
    | .kExpectFrameSize =>
      if 4 ≤ s.buffer.readableBytes then do
        let (want, buffer) ← asserts (readInt32 s.buffer)
        loop p fuel { s with buffer := buffer }
          { c with i32_want_size := want, enum_state := .kExpectFrame }
      else .ok (some { s with context := .worker c })
    | .kExpectFrame =>
      if sizeT c.i32_want_size ≤ s.buffer.readableBytes then do
        let (t, d) ← s.handleMsg p c
        loop p fuel t d
      else .ok (some { s with context := .worker c })

/- `OnMsg` (`cthrift_client_worker.cc:835`). -/
def onMsg (p : CthriftTBinaryProtocol) (s : ClientConn) : Except Fault (Option ClientConn) :=
  match s.context with
  | .empty => .ok (some { s with shutdowns := s.shutdowns + 1 })
  | .other => .ok (some s)
  | .worker c => loop p (s.buffer.readableBytes + 2) s c

/- Chunks that are appended to the buffer, with `OnMsg` after each one. -/
def receive (p : CthriftTBinaryProtocol) :
    ClientConn → List Bytes → Except Fault (Option ClientConn)
  | s, [] => .ok (some s)
  | s, chunk :: chunks => do
    let buffer ← asserts (s.buffer.append chunk)
    match ← onMsg p { s with buffer := buffer } with
    | none => return none
    | some t => receive p t chunks

/-! ### What the loop amounts to -/

/-- `HandleThriftMsg` for one frame after the other, counting the shutdowns. -/
def handleAll (p : CthriftTBinaryProtocol) :
    ClientWorker × Nat → List Bytes → Except TException (ClientWorker × Nat)
  | s, [] => .ok s
  | s, body :: bodies => do
    let (worker, shutdown) ← s.1.handleThriftMsg p body
    handleAll p (worker, s.2 + if shutdown then 1 else 0) bodies

/-- The connection holds exactly `xs`: as the contents of the buffer if no length is
complete, else as the length and the contents behind it. -/
def Remains (s : ClientConn) (xs : Bytes) : Prop :=
  ∃ c, s.context = .worker c ∧ pending c.enum_state c.i32_want_size s.buffer.contents = xs ∧
    (c.enum_state = .kExpectFrameSize ↔ xs.length < 4)

variable {p : CthriftTBinaryProtocol}

theorem handleAll_append (s : ClientWorker × Nat) (xs ys : List Bytes) :
    handleAll p s (xs ++ ys) = handleAll p s xs >>= fun t => handleAll p t ys := by
  induction xs generalizing s with
  | nil => rfl
  | cons x xs ih =>
    rw [List.cons_append, handleAll, handleAll]
    cases s.1.handleThriftMsg p x with
    | error e => rfl
    | ok r =>
      simp only [ok_bind]
      exact ih _

/- What `loop` makes of the frames in front of it. -/
def After (s : ClientConn) (xs : Bytes) (r : Except TException (ClientWorker × Nat))
    (x : Except Fault (Option ClientConn)) : Prop :=
  match r with
  | .error e => x = .error (.throws e)
  | .ok (worker, n) => ∃ t, x = .ok (some t) ∧ t.worker = worker ∧ t.shutdowns = n ∧
      t.handled = s.handled ++ framing.frames xs ∧ t.Remains (framing.rest xs)

theorem After.of_done {s t : ClientConn} {xs ys : Bytes} {done : List Bytes}
    {r : Except TException (ClientWorker × Nat)} {x : Except Fault (Option ClientConn)}
    (hhandled : t.handled = s.handled ++ done)
    (hframes : framing.frames xs = done ++ framing.frames ys)
    (hrest : framing.rest xs = framing.rest ys) (h : After t ys r x) : After s xs r x := by
  cases r with
  | error e => exact h
  | ok r =>
    obtain ⟨u, hu, hworker, hshutdowns, huhandled, hremains⟩ := h
    rw [hhandled, List.append_assoc, ← hframes] at huhandled
    rw [← hrest] at hremains
    exact ⟨u, hu, hworker, hshutdowns, huhandled, hremains⟩

theorem after_of_front_none (s : ClientConn) (context : Context) {xs : Bytes}
    (hnone : framing.front xs = none) (hremains : { s with context := context }.Remains xs) :
    After s xs (handleAll p (s.worker, s.shutdowns) (framing.frames xs))
      (.ok (some { s with context := context })) := by
  rw [Framing.frames_of_none hnone]
  refine ⟨_, rfl, rfl, rfl, ?_, ?_⟩
  · rw [Framing.frames_of_none hnone, List.append_nil]
  · rw [Framing.rest_of_none hnone]
    exact hremains

theorem handleMsg_spec (s : ClientConn) (c : ConnContext4Worker)
    (h : sizeT c.i32_want_size ≤ s.buffer.readableBytes) :
    (∀ e, s.worker.handleThriftMsg p (s.buffer.contents.take (sizeT c.i32_want_size)) = .error e →
      s.handleMsg p c = .error (.throws e)) ∧
    ∀ worker shutdown,
      s.worker.handleThriftMsg p (s.buffer.contents.take (sizeT c.i32_want_size)) =
        .ok (worker, shutdown) →
      ∃ t d, s.handleMsg p c = .ok (t, d) ∧ t.worker = worker ∧
        t.shutdowns = s.shutdowns + (if shutdown then 1 else 0) ∧
        t.handled = s.handled ++ [s.buffer.contents.take (sizeT c.i32_want_size)] ∧
        t.buffer.contents = s.buffer.contents.drop (sizeT c.i32_want_size) ∧
        d.enum_state = .kExpectFrameSize := by
  constructor
  · intro e he
    simp only [handleMsg, he]
    rfl
  · intro worker shutdown hw
    obtain ⟨r, hr, hc⟩ := s.buffer.retrieve_spec _ h
    simp only [handleMsg, hw, asserts, hr]
    exact ⟨_, _, rfl, rfl, rfl, rfl, hc, rfl⟩

/-- The loop gives the complete frames to `HandleThriftMsg` in order and keeps the rest,
whatever state it starts in. -/
theorem loop_spec (fuel : Nat) (s : ClientConn) (c : ConnContext4Worker)
    (hfuel : s.buffer.readableBytes +
      (match c.enum_state with | .kExpectFrameSize => 1 | .kExpectFrame => 2) ≤ fuel) :
    After s (pending c.enum_state c.i32_want_size s.buffer.contents)
      (handleAll p (s.worker, s.shutdowns)
        (framing.frames (pending c.enum_state c.i32_want_size s.buffer.contents)))
      (loop p fuel s c) := by
  induction fuel generalizing s c with
  | zero =>
    cases hst : c.enum_state <;> simp only [hst] at hfuel <;> omega
  | succ fuel ih =>
    have hlen := s.buffer.length_contents
    cases hst : c.enum_state with
    | kExpectFrameSize =>
      rw [hst] at hfuel
      simp only at hfuel
      by_cases h4 : 4 ≤ s.buffer.readableBytes
      · obtain ⟨r, hr, hrc⟩ := readInt32_spec s.buffer h4
        have hrlen := r.length_contents
        rw [hrc, List.length_drop, hlen] at hrlen
        have hnext := ih { s with buffer := r }
          { c with i32_want_size := networkToHost32 (s.buffer.contents.take 4)
                   enum_state := .kExpectFrame } (by simp only; omega)
        simp only [hrc] at hnext
        rw [pending_taken _ (by omega)] at hnext
        simp only [loop, hst, if_pos h4, asserts, hr]
        exact hnext
      · simp only [loop, hst, if_neg h4]
        apply after_of_front_none s (.worker c)
        · exact front_short s.buffer.contents (by omega)
        · refine ⟨c, rfl, ?_, iff_of_true hst ?_⟩
          · rw [hst]
          · exact hlen.trans_lt (Nat.lt_of_not_le h4)
    | kExpectFrame =>
      rw [hst] at hfuel
      simp only at hfuel
      by_cases hfull : sizeT c.i32_want_size ≤ s.buffer.readableBytes
      · obtain ⟨hframes, hrest⟩ := split_taken c.i32_want_size s.buffer.contents (by omega)
        obtain ⟨hthrow, hok⟩ := handleMsg_spec (p := p) s c hfull
        simp only [loop, hst, if_pos hfull, pending]
        cases hm : s.worker.handleThriftMsg p
            (s.buffer.contents.take (sizeT c.i32_want_size)) with
        | error e =>
          rw [hframes, handleAll, hm, hthrow e hm]
          rfl
        | ok r =>
          obtain ⟨t, d, ht, hw, hn, hh, hc, hd⟩ := hok r.1 r.2 hm
          have htlen := t.buffer.length_contents
          rw [hc, List.length_drop, hlen] at htlen
          have hnext := ih t d (by rw [hd]; simp only; omega)
          rw [hd, hw, hn] at hnext
          simp only [pending, hc] at hnext
          rw [ht]
          have hall : handleAll p (s.worker, s.shutdowns)
              (framing.frames (hostToNetwork32 c.i32_want_size ++ s.buffer.contents)) =
              handleAll p (r.1, s.shutdowns + if r.2 then 1 else 0)
                (framing.frames (s.buffer.contents.drop (sizeT c.i32_want_size))) := by
            rw [hframes, handleAll, hm]
            rfl
          rw [hall]
          exact hnext.of_done hh hframes hrest
      · simp only [loop, hst, if_neg hfull, pending]
        apply after_of_front_none s (.worker c)
        · exact front_waiting c.i32_want_size s.buffer.contents (by omega)
        · refine ⟨c, rfl, ?_, iff_of_false (by rw [hst]; simp) ?_⟩
          · rw [hst]
            rfl
          · rw [List.length_append, length_hostToNetwork32]
            omega

theorem onMsg_spec (s : ClientConn) (c : ConnContext4Worker) (h : s.context = .worker c) :
    After s (pending c.enum_state c.i32_want_size s.buffer.contents)
      (handleAll p (s.worker, s.shutdowns)
        (framing.frames (pending c.enum_state c.i32_want_size s.buffer.contents)))
      (onMsg p s) := by
  rw [onMsg, h]
  apply loop_spec
  split
  · omega
  · omega

theorem receive_spec (chunks : List Bytes) (s : ClientConn) (xs : Bytes) (hs : s.Remains xs)
    (hxs : framing.front xs = none) :
    After s (xs ++ chunks.flatten)
      (handleAll p (s.worker, s.shutdowns) (framing.frames (xs ++ chunks.flatten)))
      (receive p s chunks) := by
  induction chunks generalizing s xs with
  | nil =>
    rw [List.flatten_nil, List.append_nil]
    exact after_of_front_none s s.context hxs hs
  | cons chunk chunks ih =>
    obtain ⟨c, hc, hpend, -⟩ := hs
    obtain ⟨b, hb, hbc⟩ := s.buffer.append_spec chunk
    have hpend' : pending c.enum_state c.i32_want_size b.contents = xs ++ chunk := by
      rw [hbc, pending_append, hpend]
    have hcall := onMsg_spec (p := p) { s with buffer := b } c hc
    rw [hpend'] at hcall
    obtain ⟨hframes, hrest⟩ := framing.split_append (xs ++ chunk) chunks.flatten
    rw [List.flatten_cons, ← List.append_assoc, hframes, handleAll_append]
    simp only [receive, hb, asserts_ok, ok_bind]
    revert hcall
    cases handleAll p (s.worker, s.shutdowns) (framing.frames (xs ++ chunk)) with
    | error e =>
      intro hcall
      have hthrow : onMsg p { s with buffer := b } = .error (.throws e) := hcall
      rw [hthrow]
      rfl
    | ok r =>
      intro hcall
      obtain ⟨t, ht, htw, htn, hth, htr⟩ := hcall
      have hnext := ih t _ htr (framing.front_rest _)
      rw [htw, htn] at hnext
      rw [ht]
      exact hnext.of_done hth hframes hrest

/-! ### A connection from its start -/

def start (w : ClientWorker) : ClientConn where
  worker := w
  context := .worker .new
  buffer := Buffer.new kInitialSize
  handled := []
  shutdowns := 0

theorem remains_start (w : ClientWorker) : (start w).Remains [] :=
  ⟨.new, rfl, (Buffer.contents_eq_nil _).mpr rfl, iff_of_true rfl (by decide)⟩

theorem handleThriftMsg_returns_iff (w : ClientWorker) (body : Bytes) :
    (∃ r, w.handleThriftMsg p body = .ok r) ↔ p.Readable body := by
  rw [← p.getSeqID_returns_iff]
  constructor
  · rintro ⟨⟨v, shutdown⟩, hr⟩
    obtain ⟨id, hid, -⟩ := ClientWorker.handleThriftMsg_cases hr
    exact ⟨id, hid⟩
  · rintro ⟨id, hid⟩
    simp only [ClientWorker.handleThriftMsg, TMemoryBuffer.resetBuffer, hid, ok_bind]
    split
    · exact ⟨_, rfl⟩
    · split
      · exact ⟨_, rfl⟩
      · exact ⟨_, rfl⟩

theorem handleAll_returns_iff (s : ClientWorker × Nat) (bodies : List Bytes) :
    (∃ r, handleAll p s bodies = .ok r) ↔ ∀ body ∈ bodies, p.Readable body := by
  induction bodies generalizing s with
  | nil => exact iff_of_true ⟨s, rfl⟩ (fun body hb => by cases hb)
  | cons body bodies ih =>
    rw [List.forall_mem_cons, ← handleThriftMsg_returns_iff s.1]
    constructor
    · rintro ⟨r, hr⟩
      obtain ⟨q, hq, hrest⟩ := bind_eq_ok hr
      exact ⟨⟨q, hq⟩, (ih _).mp ⟨r, hrest⟩⟩
    · rintro ⟨⟨q, hq⟩, hall⟩
      obtain ⟨r, hr⟩ := (ih (q.1, s.2 + if q.2 then 1 else 0)).mpr hall
      refine ⟨r, ?_⟩
      rw [handleAll, hq]
      exact hr

/-- Whatever a server sends in whatever chunks, no exception escapes from `OnMsg` exactly if
the header of every complete frame can be read. -/
theorem onMsg_never_throws_iff (w : ClientWorker) (chunks : List Bytes) :
    (∃ t, receive .new (start w) chunks = .ok (some t)) ↔
      ∀ body ∈ framing.frames chunks.flatten, CthriftTBinaryProtocol.new.Readable body := by
  have hspec := receive_spec (p := .new) chunks (start w) [] (remains_start w) rfl
  rw [List.nil_append] at hspec
  rw [← handleAll_returns_iff ((start w).worker, (start w).shutdowns)]
  revert hspec
  cases handleAll .new ((start w).worker, (start w).shutdowns)
      (framing.frames chunks.flatten) with
  | error e =>
    intro hspec
    have hthrow : receive .new (start w) chunks = .error (.throws e) := hspec
    rw [hthrow]
    apply iff_of_false
    · rintro ⟨t, ht⟩
      cases ht
    · rintro ⟨r, hr⟩
      cases hr
  | ok r =>
    rintro ⟨t, ht, -⟩
    exact iff_of_true ⟨t, ht⟩ ⟨r, rfl⟩

/-- A frame without a body makes the client throw. -/
theorem onMsg_throws_on_empty_frame :
    receive .new (start .new) [[0, 0, 0, 0]] = .error (.throws .transport_END_OF_FILE) := by
  have hspec := receive_spec (p := .new) [[0, 0, 0, 0]] (start .new) [] (remains_start .new) rfl
  have hall : handleAll .new ((start .new).worker, (start .new).shutdowns)
      (framing.frames ([] ++ [[0, 0, 0, 0]].flatten)) = .error .transport_END_OF_FILE := rfl
  rw [hall] at hspec
  exact hspec

/-! ### Streams of messages -/

/-- The body begins with a message header of either format; the name has the length that the
reader allows. -/
def HasHeader (body : Bytes) : Prop :=
  ∃ (w : CthriftTBinaryProtocol) (name : Bytes) (messageType : Byte) (seqid : BitVec 32)
    (payload : Bytes), (name.length : Int) ≤ g_string_limit ∧
      body = (w.writeMessageBegin name messageType seqid).flatten ++ payload

theorem HasHeader.readable {body : Bytes} (h : HasHeader body) :
    CthriftTBinaryProtocol.new.Readable body := by
  obtain ⟨w, name, messageType, seqid, payload, hlim, rfl⟩ := h
  rw [← CthriftTBinaryProtocol.getSeqID_returns_iff]
  refine ⟨seqid, CthriftTBinaryProtocol.getSeqID_writeMessageBegin w name messageType seqid payload
    rfl ?_ fun _ => hlim⟩
  unfold g_string_limit at hlim
  omega

/-- However a stream of messages is cut, every call returns, the frames that were given to
`HandleThriftMsg` are those that have arrived completely, in their order, as if all had come
at once, and the connection holds exactly what has arrived of the next one. -/
theorem onMsg_chunking (w : ClientWorker) (fs : List Frame) (hfs : ∀ f ∈ fs, HasHeader f.body)
    (chunks : List Bytes) (hchunks : chunks.flatten <+: stream fs) :
    ∃ t u done todo rest, receive .new (start w) chunks = .ok (some t) ∧
      receive .new (start w) [chunks.flatten] = .ok (some u) ∧
      t.handled = u.handled ∧ t.worker = u.worker ∧
      fs = done ++ todo ∧ t.handled = done.map Frame.body ∧
      chunks.flatten = stream done ++ rest ∧ t.Remains rest ∧ u.Remains rest ∧
      (todo = [] ∧ rest = [] ∨ ∃ f later, todo = f :: later ∧ rest <+: f.wire ∧
        rest.length < f.wire.length) := by
  obtain ⟨done, todo, hsplit, hframes, hrest, hnext⟩ := split_stream fs hchunks
  have hread : ∀ body ∈ framing.frames chunks.flatten,
      CthriftTBinaryProtocol.new.Readable body := by
    intro body hb
    rw [hframes] at hb
    obtain ⟨f, hf, rfl⟩ := List.mem_map.mp hb
    exact (hfs f (by rw [hsplit]; exact List.mem_append_left _ hf)).readable
  obtain ⟨r, hr⟩ := (handleAll_returns_iff ((start w).worker, (start w).shutdowns) _).mpr hread
  have hcut := receive_spec (p := .new) chunks (start w) [] (remains_start w) rfl
  have hwhole := receive_spec (p := .new) [chunks.flatten] (start w) [] (remains_start w) rfl
  rw [List.flatten_singleton] at hwhole
  rw [List.nil_append, hr] at hcut hwhole
  obtain ⟨t, ht, htw, -, hth, htr⟩ := hcut
  obtain ⟨u, hu, huw, -, huh, hur⟩ := hwhole
  refine ⟨t, u, done, todo, _, ht, hu, hth.trans huh.symm, htw.trans huw.symm, hsplit, ?_, hrest,
    htr, hur, hnext⟩
  rw [hth, hframes]
  rfl

def sampleFrame : Frame where
  body := (CthriftTBinaryProtocol.new.writeMessageBegin [101, 99, 104, 111] 2 7).flatten
  fits := by decide

def sampleChunks : List Bytes :=
  [sampleFrame.wire.take 2, (sampleFrame.wire.drop 2).take 10,
    sampleFrame.wire.drop 12 ++ sampleFrame.wire.take 3]

theorem onMsg_chunking_sample :
    ∃ t rest, receive .new (start .new) sampleChunks = .ok (some t) ∧ t.Remains rest ∧
      rest.length < sampleFrame.wire.length := by
  have hheader : HasHeader sampleFrame.body :=
    ⟨.new, [101, 99, 104, 111], 2, 7, [], by decide, rfl⟩
  obtain ⟨t, -, done, todo, rest, ht, -, -, -, hfs, -, -, hr, -, hnext⟩ :=
    onMsg_chunking .new [sampleFrame, sampleFrame]
      (fun f hf => by rcases List.mem_pair.mp hf with rfl | rfl <;> exact hheader)
      sampleChunks (by decide +kernel)
  refine ⟨t, rest, ht, hr, ?_⟩
  rcases hnext with ⟨-, rfl⟩ | ⟨f, later, htodo, -, hlt⟩
  · decide
  · have hf : f ∈ [sampleFrame, sampleFrame] := by
      rw [hfs, htodo]
      exact List.mem_append_right _ List.mem_cons_self
    rcases List.mem_pair.mp hf with rfl | rfl
    · exact hlt
    · exact hlt

end ClientConn

end TstMuduo.Cthrift
