import TstMuduo.Net.TcpConnection

/-!
# The output stream of a connection

What the kernel has accepted, followed by `outputBuffer_`, is what the user
sent. The invariant behind it ties the interest in `POLLOUT` to the buffer: the
channel is writing exactly while bytes wait in `outputBuffer_`.
-/

namespace TstMuduo.Net
open TstMuduo.Lib

/- The bytes that the kernel accepted in a list of effects. -/
def written : List Effect → Bytes
  | [] => []
  | .write bs :: es => bs ++ written es
  | _ :: es => written es

@[simp]
theorem written_append (es fs : List Effect) : written (es ++ fs) = written es ++ written fs := by
  induction es with
  | nil => rfl
  | cons e es ih => cases e <;> simp [written, ih]

/- The functors handed to the loop in a list of effects. -/
def queuedBy : List Effect → List Functor
  | [] => []
  | .queueInLoop f :: es => f :: queuedBy es
  | _ :: es => queuedBy es

theorem mem_queuedBy {es : List Effect} {f : Functor} (h : f ∈ queuedBy es) :
    .queueInLoop f ∈ es := by
  induction es with
  | nil => cases h
  | cons e es ih =>
    cases e with
    | write bs => exact List.mem_cons_of_mem _ (ih h)
    | shutdownWrite => exact List.mem_cons_of_mem _ (ih h)
    | queueInLoop g =>
      rcases List.mem_cons.mp h with rfl | h
      · exact List.mem_cons_self
      · exact List.mem_cons_of_mem _ (ih h)

def Functor.isCallback : Functor → Bool
  | .writeComplete => true
  | .highWaterMark _ => true
  | _ => false

namespace Conn

def Tracked (c : Conn) : Prop := c.channel.isWriting = true ↔ c.outputBuffer.contents ≠ []

theorem Tracked.idle {c : Conn} (h : c.Tracked) :
    c.channel.isWriting = false ↔ c.outputBuffer.contents = [] := by
  unfold Tracked at h
  cases hw : c.channel.isWriting <;> simp_all

theorem written_highWater (c : Conn) (oldLen remaining : Nat) :
    written (c.highWater oldLen remaining) = [] := by
  unfold highWater
  split <;> rfl

theorem shutdownWrite_not_mem_highWater (c : Conn) (oldLen remaining : Nat) :
    Effect.shutdownWrite ∉ c.highWater oldLen remaining := by
  unfold highWater
  split <;> simp

theorem directWrite_spec (c : Conn) (data : Bytes) (w : WriteResult)
    (hw : w.Unbroken data.length) :
    ∃ n es, c.directWrite data w = (n, data.length - n, false, es) ∧ n ≤ data.length ∧
      written es = data.take n ∧ Effect.shutdownWrite ∉ es ∧
      (0 < n → c.channel.isWriting = false ∧ c.outputBuffer.contents = []) := by
  unfold directWrite
  split
  · rename_i hi
    cases w with
    | wrote n =>
      refine ⟨n, _, rfl, hw, ?_, ?_, fun _ => ⟨hi.1, (Buffer.contents_eq_nil _).mpr hi.2⟩⟩
      · split <;> simp [written]
      · split <;> simp
    | failed e =>
      refine ⟨0, [], ?_, Nat.zero_le _, rfl, by simp, fun h => absurd h (by omega)⟩
      have he : e.isReset = false := hw
      simp only [he, Nat.sub_zero]
  · exact ⟨0, [], rfl, Nat.zero_le _, rfl, by simp, fun h => absurd h (by omega)⟩

theorem sendInLoop_spec (c : Conn) (data : Bytes) (w : WriteResult)
    (hs : c.state ≠ .kDisconnected) (hc : c.Tracked) (hw : w.Unbroken data.length) :
    ∃ d es, c.sendInLoop data w = .ok (d, es) ∧
      written es ++ d.outputBuffer.contents = c.outputBuffer.contents ++ data ∧
      d.Tracked ∧ d.state = c.state ∧ Effect.shutdownWrite ∉ es := by
  obtain ⟨n, es, he, hn, hwr, hsd, hidle⟩ := directWrite_spec c data w hw
  have hck : (check (data.length - n ≤ data.length) Assertion.sendRemaining) = .ok () :=
    check_ok (Nat.sub_le _ _)
  -- whatever the kernel took came first, so the buffer was empty
  have hfront :
      data.take n ++ c.outputBuffer.contents = c.outputBuffer.contents ++ data.take n := by
    by_cases h0 : 0 < n
    · rw [(hidle h0).2]; simp
    · have : n = 0 := by omega
      simp [this]
  by_cases hr : 0 < data.length - n
  · obtain ⟨out, ho, hco⟩ :=
      Buffer.append_spec c.outputBuffer ((data.drop n).take (data.length - n))
    have htail : (data.drop n).take (data.length - n) = data.drop n :=
      List.take_of_length_le (by simp)
    rw [htail] at ho hco
    refine ⟨{ c with
        outputBuffer := out
        channel := if c.channel.isWriting = false then c.channel.enableWriting else c.channel },
      es ++ c.highWater c.outputBuffer.readableBytes (data.length - n), ?_, ?_, ?_, rfl, ?_⟩
    · simp only [sendInLoop, if_neg hs, he, hck, htail, ho, hr, and_self, if_true]
      rfl
    · simp only [written_append, written_highWater, List.append_nil, hwr, hco]
      rw [← List.append_assoc, hfront, List.append_assoc, List.take_append_drop]
    · have hne : data.drop n ≠ [] := by
        intro h
        have := congrArg List.length h
        simp only [List.length_drop, List.length_nil] at this
        omega
      constructor
      · intro _ h
        rw [show out.contents = [] from h] at hco
        exact hne (List.append_eq_nil_iff.mp hco.symm).2
      · intro _
        cases hwri : c.channel.isWriting with
        | true => simp [hwri]
        | false => simp
    · simp only [List.mem_append, not_or]
      exact ⟨hsd, shutdownWrite_not_mem_highWater _ _ _⟩
  · have hall : data.take n = data := List.take_of_length_le (by omega)
    refine ⟨c, es, ?_, ?_, hc, rfl, hsd⟩
    · simp only [sendInLoop, if_neg hs, he, hck, hr, and_false, if_false]
      rfl
    · rw [hwr, hfront, hall]

def Drains (c : Conn) (w : WriteResult) : Prop :=
  c.channel.isWriting = true ∧ 0 < c.outputBuffer.readableBytes ∧
    w = .wrote c.outputBuffer.readableBytes

instance (c : Conn) (w : WriteResult) : Decidable (c.Drains w) := by
  unfold Drains
  infer_instance

/-- What one `handleWrite` does, apart from the half-close it may end with. -/
structure Written (c : Conn) (w : WriteResult) (d : Conn) (es : List Effect) : Prop where
  stream : written es ++ d.outputBuffer.contents = c.outputBuffer.contents
  tracked : c.Tracked → d.Tracked
  state : d.state = c.state
  quiet : Effect.shutdownWrite ∉ es
  drained : c.Drains w → d.outputBuffer.contents = []

def halfClose (c : Conn) (w : WriteResult) : List Effect :=
  if c.Drains w ∧ c.state = .kDisconnecting then [.shutdownWrite] else []

theorem halfClose_nil (c : Conn) (w : WriteResult) (h : ¬ c.Drains w) : c.halfClose w = [] :=
  if_neg (fun hd => h hd.1)

theorem afterWrite_spec (c : Conn) (n : Nat) (out : Buffer) (hwr : c.channel.isWriting = true)
    (hn : 0 < n) (hle : n ≤ c.outputBuffer.readableBytes)
    (hco : out.contents = c.outputBuffer.contents.drop n) :
    ∃ d es, c.afterWrite n out = (d, es ++ c.halfClose (.wrote n)) ∧ c.Written (.wrote n) d es := by
  have hlen : out.readableBytes = c.outputBuffer.readableBytes - n := by
    rw [← Buffer.length_contents, hco, List.length_drop, Buffer.length_contents]
  have hjoin : c.outputBuffer.contents.take n ++ out.contents = c.outputBuffer.contents := by
    rw [hco, List.take_append_drop]
  by_cases hz : out.readableBytes = 0
  · have hd : c.Drains (.wrote n) := ⟨hwr, by omega, by congr 1; omega⟩
    have hnil : out.contents = [] := (Buffer.contents_eq_nil _).mpr hz
    refine ⟨{ c with outputBuffer := out, channel := c.channel.disableWriting },
      .write (c.outputBuffer.contents.take n) ::
        (if c.writeCompleteCallback = true then [.queueInLoop .writeComplete] else []), ?_, ?_⟩
    · simp only [afterWrite, hz, if_true, halfClose, hd, true_and, shutdownInLoop,
        Channel.isWriting_disableWriting]
    · refine ⟨?_, ?_, rfl, ?_, fun _ => hnil⟩
      · have hq : ∀ b : Prop, ∀ [Decidable b],
            written (if b then [Effect.queueInLoop .writeComplete] else []) = [] := by
          intro b _
          split <;> rfl
        simp only [written, hq, List.append_nil]
        exact hjoin
      · intro _
        simp [Tracked, hnil]
      · split <;> simp
  · have hd : ¬ c.Drains (.wrote n) := by
      intro hx
      obtain ⟨_, _, h⟩ := hx
      cases h
      omega
    refine ⟨{ c with outputBuffer := out }, [.write (c.outputBuffer.contents.take n)], ?_, ?_⟩
    · simp only [afterWrite, hz, if_false, halfClose_nil c _ hd, List.append_nil]
    · refine ⟨by simp [written, hjoin], ?_, rfl, by simp, fun h => absurd h hd⟩
      intro _
      have hne : out.contents ≠ [] := fun h => hz ((Buffer.contents_eq_nil _).mp h)
      simp only [Tracked, hwr, true_iff]
      exact hne

theorem handleWrite_spec (c : Conn) (w : WriteResult)
    (hw : w.Fits c.outputBuffer.readableBytes) :
    ∃ d es, c.handleWrite w = .ok (d, es ++ c.halfClose w) ∧ c.Written w d es := by
  have stay (hd : ¬ c.Drains w) (he : c.handleWrite w = .ok (c, [])) :
      ∃ d es, c.handleWrite w = .ok (d, es ++ c.halfClose w) ∧ c.Written w d es :=
    ⟨c, [], by rw [he, halfClose_nil c w hd]; rfl, rfl, id, rfl, by simp, fun h => absurd h hd⟩
  by_cases hwr : c.channel.isWriting = true
  · cases w with
    | failed e =>
      exact stay (by rintro ⟨_, _, h⟩; cases h) (by simp only [handleWrite, hwr, if_true])
    | wrote n =>
      by_cases hn : 0 < n
      · obtain ⟨out, ho, hco⟩ := Buffer.retrieve_spec c.outputBuffer n hw
        obtain ⟨d, es, he, hs⟩ := afterWrite_spec c n out hwr hn hw hco
        refine ⟨d, es, ?_, hs⟩
        simp only [handleWrite, hwr, hn, if_true, ho]
        exact congrArg Except.ok he
      · refine stay ?_ (by simp only [handleWrite, hwr, if_true, hn, if_false])
        intro hx
        obtain ⟨_, hp, h⟩ := hx
        cases h
        omega
  · exact stay (fun h => hwr h.1) (by simp only [handleWrite, hwr]; rfl)

theorem sendInLoop_callbacks {c d : Conn} {m : Bytes} {w : WriteResult} {es : List Effect}
    (h : c.sendInLoop m w = .ok (d, es)) {f : Functor} (hf : .queueInLoop f ∈ es) :
    f.isCallback = true := by
  have hdirect : .queueInLoop f ∈ (c.directWrite m w).2.2.2 → f.isCallback = true := by
    intro hm
    unfold directWrite at hm
    split at hm
    · cases w with
      | wrote n =>
        dsimp only at hm
        split at hm
        · simp only [List.mem_cons, reduceCtorEq, Effect.queueInLoop.injEq, List.not_mem_nil,
            or_false, false_or] at hm
          rw [hm]
          rfl
        · simp at hm
      | failed e => cases hm
    · cases hm
  have hhigh : ∀ a b, .queueInLoop f ∈ c.highWater a b → f.isCallback = true := by
    intro a b hm
    unfold highWater at hm
    split at hm
    · simp only [List.mem_singleton, Effect.queueInLoop.injEq] at hm
      rw [hm]
      rfl
    · cases hm
  unfold sendInLoop at h
  split at h
  · cases h
    cases hf
  · generalize c.directWrite m w = r at h hdirect
    obtain ⟨nwrote, remaining, faultError, effects⟩ := r
    obtain ⟨u, _, h⟩ := bind_eq_ok h
    split at h
    · obtain ⟨out, _, h⟩ := bind_eq_ok h
      cases h
      rcases List.mem_append.mp hf with hf | hf
      · exact hdirect hf
      · exact hhigh _ _ hf
    · cases h
      exact hdirect hf

theorem handleWrite_callbacks {c d : Conn} {w : WriteResult} {es : List Effect}
    (h : c.handleWrite w = .ok (d, es)) {f : Functor} (hf : .queueInLoop f ∈ es) :
    f.isCallback = true := by
  have hshut : ∀ e : Conn, .queueInLoop f ∉ e.shutdownInLoop := by
    intro e hm
    unfold shutdownInLoop at hm
    split at hm
    · simp at hm
    · cases hm
  unfold handleWrite at h
  split at h
  · split at h
    · split at h
      · obtain ⟨out, _, h⟩ := bind_eq_ok h
        unfold afterWrite at h
        split at h
        · cases h
          simp only [List.cons_append, List.mem_cons, reduceCtorEq, false_or, List.mem_append] at hf
          rcases hf with hf | hf
          · split at hf
            · simp only [List.mem_singleton, Effect.queueInLoop.injEq] at hf
              rw [hf]
              rfl
            · cases hf
          · split at hf
            · exact absurd hf (hshut _)
            · cases hf
        · cases h
          simp at hf
      · cases h
        cases hf
    · cases h
      cases hf
  · cases h
    cases hf

theorem startReadInLoop_state (c : Conn) : c.startReadInLoop.state = c.state := by
  unfold startReadInLoop
  split <;> rfl

theorem tracked_startReadInLoop (c : Conn) (h : c.Tracked) : c.startReadInLoop.Tracked := by
  unfold startReadInLoop
  split
  · simpa only [Tracked, Channel.isWriting_enableReading] using h
  · exact h

theorem stopReadInLoop_state (c : Conn) : c.stopReadInLoop.state = c.state := by
  unfold stopReadInLoop
  split <;> rfl

theorem tracked_stopReadInLoop (c : Conn) (h : c.Tracked) : c.stopReadInLoop.Tracked := by
  unfold stopReadInLoop
  split
  · simpa only [Tracked, Channel.isWriting_disableReading] using h
  · exact h

def established (highWaterMark : Nat) (writeComplete highWater : Bool) : Conn :=
  { new highWaterMark writeComplete highWater with
    state := .kConnected
    channel := Channel.new.tie.enableReading }

theorem connectEstablished_new (hwm : Nat) (wc hw : Bool) :
    (new hwm wc hw).connectEstablished = .ok (established hwm wc hw) := rfl

theorem established_output (hwm : Nat) (wc hw : Bool) :
    (established hwm wc hw).outputBuffer.contents = [] := by
  rw [Buffer.contents_eq_nil]
  rfl

theorem established_tracked (hwm : Nat) (wc hw : Bool) : (established hwm wc hw).Tracked := by
  simp only [Tracked, established_output, ne_eq, not_true, iff_false]
  simp [established, Channel.isWriting, Channel.new, Channel.tie, Channel.enableReading,
    PollMask.meets, PollMask.union, kWriteEvent, kReadEvent, kNoneEvent]

end Conn

/-! ### Runs -/

/-- A connection with the functors it waits for, the bytes the kernel has taken
and the messages that `sendInLoop` has accepted. -/
structure Stream where
  conn : Conn
  queue : List Functor
  kernel : Bytes
  accepted : List Bytes

namespace Stream

def apply (s : Stream) (r : Conn × List Effect) : Stream :=
  { s with conn := r.1, queue := s.queue ++ queuedBy r.2, kernel := s.kernel ++ written r.2 }

def accept (s : Stream) (message : Bytes) (b : Prop) [Decidable b] : Stream :=
  if b then { s with accepted := s.accepted ++ [message] } else s

/-- Calls of the user in the loop thread or outside it, functors that the loop
runs, and poll results. -/
inductive Act where
  | send (inLoop : Bool) (message : Bytes) (w : WriteResult)
  | sendInLoop (message : Bytes) (w : WriteResult)
  | runFunctor (w : WriteResult)
  | pollOut (w : WriteResult)
  | shutdown (inLoop : Bool)
  | forceClose
  | startRead (inLoop : Bool)
  | stopRead (inLoop : Bool)
  | peerClose

def sendInLoop (s : Stream) (message : Bytes) (w : WriteResult) :
    Option (Except Assertion Stream) :=
  if w.Unbroken message.length then
    some (do
      let r ← s.conn.sendInLoop message w
      return (s.apply r).accept message (s.conn.state ≠ .kDisconnected))
  else none

def close (s : Stream) : Option (Except Assertion Stream) :=
  if s.conn.state = .kConnected ∨ s.conn.state = .kDisconnecting then
    some (do
      let c ← s.conn.handleClose
      return { s with conn := c })
  else some (.ok s)

def runFunctor (s : Stream) (w : WriteResult) : Functor → Option (Except Assertion Stream)
  | .sendInLoop m => s.sendInLoop m w
  | .shutdownInLoop => some (.ok (s.apply (s.conn, s.conn.shutdownInLoop)))
  | .forceCloseInLoop => s.close
  | .startReadInLoop => some (.ok { s with conn := s.conn.startReadInLoop })
  | .stopReadInLoop => some (.ok { s with conn := s.conn.stopReadInLoop })
  | .writeComplete => some (.ok s)
  | .highWaterMark _ => some (.ok s)
  | .connectEstablished => none
  | .connectDestroyed => none

def step (s : Stream) : Act → Option (Except Assertion Stream)
  | .send inLoop m w =>
    if w.Unbroken m.length then
      some (do
        let r ← s.conn.send inLoop m w
        return (s.apply r).accept m (inLoop = true ∧ s.conn.state = .kConnected))
    else none
  | .sendInLoop m w => s.sendInLoop m w
  | .runFunctor w =>
    match s.queue with
    | [] => none
    | f :: rest => { s with queue := rest }.runFunctor w f
  | .pollOut w =>
    if w.Fits s.conn.outputBuffer.readableBytes then
      some (do
        let r ← s.conn.handleWrite w
        return s.apply r)
    else none
  | .shutdown inLoop => some (.ok (s.apply (s.conn.shutdown inLoop)))
  | .forceClose => some (.ok (s.apply s.conn.forceClose))
  | .startRead inLoop =>
    if inLoop = true then some (.ok { s with conn := s.conn.startReadInLoop })
    else some (.ok { s with queue := s.queue ++ [.startReadInLoop] })
  | .stopRead inLoop =>
    if inLoop = true then some (.ok { s with conn := s.conn.stopReadInLoop })
    else some (.ok { s with queue := s.queue ++ [.stopReadInLoop] })
  | .peerClose => s.close

def machine (highWaterMark : Nat) (writeComplete highWater : Bool) :
    Machine Stream Act Assertion where
  init := ⟨Conn.established highWaterMark writeComplete highWater, [], [], []⟩
  step := step

structure Inv (s : Stream) : Prop where
  stream : s.kernel ++ s.conn.outputBuffer.contents = s.accepted.flatten
  tracked : s.conn.state ≠ .kDisconnected → s.conn.Tracked

theorem init_inv (hwm : Nat) (wc hw : Bool) : Inv (machine hwm wc hw).init :=
  ⟨by simp [machine, Conn.established_output], fun _ => Conn.established_tracked hwm wc hw⟩

theorem accept_conn (s : Stream) (m : Bytes) (b : Prop) [Decidable b] :
    (s.accept m b).conn = s.conn := by
  unfold accept
  split <;> rfl

theorem Inv.sent {s : Stream} (hi : s.Inv) (m : Bytes) (w : WriteResult)
    (hs : s.conn.state ≠ .kDisconnected) (hw : w.Unbroken m.length) :
    ∃ r, s.conn.sendInLoop m w = .ok r ∧ ∀ b : Prop, ∀ [Decidable b], b →
      ((s.apply r).accept m b).Inv := by
  obtain ⟨d, es, he, hst, htr, _, _⟩ := Conn.sendInLoop_spec s.conn m w hs (hi.tracked hs) hw
  refine ⟨(d, es), he, fun b _ hb => ?_⟩
  constructor
  · simp only [accept, hb, if_true, apply, List.flatten_append, List.flatten_cons,
      List.flatten_nil, List.append_nil]
    rw [List.append_assoc, hst, ← List.append_assoc, hi.stream]
  · intro _
    rw [accept_conn]
    exact htr

theorem Inv.sendInLoop {s : Stream} (hi : s.Inv) {m : Bytes} {w : WriteResult}
    {x : Except Assertion Stream} (h : s.sendInLoop m w = some x) : ∃ t, x = .ok t ∧ t.Inv := by
  unfold Stream.sendInLoop at h
  split at h
  · rename_i hw
    cases h
    by_cases hs : s.conn.state = .kDisconnected
    · refine ⟨s.apply (s.conn, []), ?_, ?_⟩
      · simp only [Conn.sendInLoop, hs, if_true, accept, ne_eq, not_true, if_false]
        rfl
      · exact ⟨by simpa [apply, written] using hi.stream, hi.tracked⟩
    · obtain ⟨r, hr, hk⟩ := hi.sent m w hs hw
      exact ⟨_, by rw [hr]; rfl, hk _ hs⟩
  · cases h

theorem Inv.close {s : Stream} (hi : s.Inv) {x : Except Assertion Stream}
    (h : s.close = some x) : ∃ t, x = .ok t ∧ t.Inv := by
  unfold Stream.close at h
  split at h
  · rename_i hs
    cases h
    refine ⟨_, by rw [Conn.handleClose, check_ok hs]; rfl, ?_⟩
    exact ⟨hi.stream, fun hn => absurd rfl hn⟩
  · cases h
    exact ⟨s, rfl, hi⟩

theorem Inv.effects {s : Stream} (hi : s.Inv) {c : Conn} {es : List Effect}
    (hb : c.outputBuffer = s.conn.outputBuffer) (he : written es = [])
    (ht : c.state ≠ .kDisconnected → c.Tracked) : (s.apply (c, es)).Inv :=
  ⟨by simpa [apply, hb, he] using hi.stream, ht⟩

theorem written_shutdownInLoop (c : Conn) : written c.shutdownInLoop = [] := by
  unfold Conn.shutdownInLoop
  split <;> rfl

theorem Inv.startReadInLoop {s : Stream} (hi : s.Inv) :
    { s with conn := s.conn.startReadInLoop }.Inv := by
  constructor
  · simp only [Conn.startReadInLoop]
    split <;> exact hi.stream
  · intro hs
    apply Conn.tracked_startReadInLoop
    apply hi.tracked
    rw [← Conn.startReadInLoop_state]
    exact hs

theorem Inv.stopReadInLoop {s : Stream} (hi : s.Inv) :
    { s with conn := s.conn.stopReadInLoop }.Inv := by
  constructor
  · simp only [Conn.stopReadInLoop]
    split <;> exact hi.stream
  · intro hs
    apply Conn.tracked_stopReadInLoop
    apply hi.tracked
    rw [← Conn.stopReadInLoop_state]
    exact hs

theorem Inv.runFunctor {s : Stream} (hi : s.Inv) {w : WriteResult} {f : Functor}
    {x : Except Assertion Stream} (h : s.runFunctor w f = some x) : ∃ t, x = .ok t ∧ t.Inv := by
  cases f with
  | sendInLoop m => exact hi.sendInLoop h
  | shutdownInLoop =>
    cases h
    exact ⟨_, rfl, hi.effects rfl (written_shutdownInLoop _) hi.tracked⟩
  | forceCloseInLoop => exact hi.close h
  | startReadInLoop =>
    cases h
    exact ⟨_, rfl, hi.startReadInLoop⟩
  | stopReadInLoop =>
    cases h
    exact ⟨_, rfl, hi.stopReadInLoop⟩
  | writeComplete => cases h; exact ⟨s, rfl, hi⟩
  | highWaterMark n => cases h; exact ⟨s, rfl, hi⟩
  | connectEstablished => cases h
  | connectDestroyed => cases h

theorem step_inv (s : Stream) (a : Act) (x : Except Assertion Stream) (hi : s.Inv)
    (h : s.step a = some x) : ∃ t, x = .ok t ∧ t.Inv := by
  cases a with
  | send inLoop m w =>
    simp only [step] at h
    split at h
    · rename_i hw
      cases h
      by_cases hs : s.conn.state = .kConnected
      · cases inLoop with
        | true =>
          obtain ⟨r, hr, hk⟩ := hi.sent m w (by rw [hs]; simp) hw
          refine ⟨_, ?_, hk (true = true ∧ s.conn.state = .kConnected) ⟨rfl, hs⟩⟩
          simp only [Conn.send, hs, if_true, hr]
          rfl
        | false =>
          refine ⟨s.apply (s.conn, [.queueInLoop (.sendInLoop m)]), ?_,
            hi.effects rfl rfl hi.tracked⟩
          simp only [Conn.send, hs, if_true, accept]
          rfl
      · refine ⟨s.apply (s.conn, []), ?_, hi.effects rfl rfl hi.tracked⟩
        simp only [Conn.send, hs, if_false, accept, and_false]
        rfl
    · cases h
  | sendInLoop m w => exact hi.sendInLoop h
  | runFunctor w =>
    simp only [step] at h
    split at h
    · cases h
    next f rest hq =>
      have hr : { s with queue := rest }.Inv := ⟨hi.stream, hi.tracked⟩
      exact hr.runFunctor h
  | pollOut w =>
    simp only [step] at h
    split at h
    · rename_i hw
      cases h
      obtain ⟨d, es, he, hd⟩ := Conn.handleWrite_spec s.conn w hw
      refine ⟨_, by rw [he]; rfl, ?_, ?_⟩
      · have hc : written (s.conn.halfClose w) = [] := by
          unfold Conn.halfClose
          split <;> rfl
        simp only [apply, written_append, hc, List.append_nil]
        rw [List.append_assoc, hd.stream, hi.stream]
      · intro hs
        apply hd.tracked
        apply hi.tracked
        simpa only [apply, hd.state] using hs
    · cases h
  | shutdown inLoop =>
    cases h
    refine ⟨_, rfl, ?_⟩
    unfold Conn.shutdown
    split
    · rename_i hs
      refine hi.effects rfl ?_ (fun _ => hi.tracked (by rw [hs]; simp))
      cases inLoop with
      | true => exact written_shutdownInLoop _
      | false => rfl
    · exact hi.effects rfl rfl hi.tracked
  | forceClose =>
    cases h
    refine ⟨_, rfl, ?_⟩
    unfold Conn.forceClose
    split
    · rename_i hs
      refine hi.effects rfl rfl (fun _ => hi.tracked ?_)
      rcases hs with hs | hs <;> rw [hs] <;> simp
    · exact hi.effects rfl rfl hi.tracked
  | startRead inLoop =>
    cases inLoop with
    | true =>
      cases h
      exact ⟨_, rfl, hi.startReadInLoop⟩
    | false =>
      cases h
      exact ⟨_, rfl, hi.stream, hi.tracked⟩
  | stopRead inLoop =>
    cases inLoop with
    | true =>
      cases h
      exact ⟨_, rfl, hi.stopReadInLoop⟩
    | false =>
      cases h
      exact ⟨_, rfl, hi.stream, hi.tracked⟩
  | peerClose => exact hi.close h

/- A partial direct write, a message from another thread queued behind it, a
half-close and the two writes that drain the buffer. -/
def sampleActs : List Act :=
  [.send true [1, 2, 3] (.wrote 1), .send false [4, 5] (.wrote 0), .runFunctor (.wrote 0),
    .shutdown true, .pollOut (.wrote 3), .pollOut (.failed .EWOULDBLOCK), .pollOut (.wrote 1)]

end Stream
end TstMuduo.Net
