import Mathlib.Data.List.Count
import TstMuduo.Net.TcpServer

/-!
# The lifecycle of a connection

A connection is connecting, up, down or dead. It goes down once, in `handleClose` or
in `connectDestroyed`, and it dies after its channel has been removed. What makes the
removal happen is one of: the entry of the server's map together with one pending
request to remove it, or one pending `connectDestroyed`.
-/

namespace TstMuduo.Net
open TstMuduo.Lib

namespace Channel

theorem update_index (c : Channel) : c.update.index ≠ .kNew := by
  unfold update updateChannel
  split
  · simp
  · simp
  next h =>
    split
    · simp
    · rw [h]
      simp

theorem update_eventHandling (c : Channel) : c.update.eventHandling = c.eventHandling := by
  unfold update updateChannel
  split
  · rfl
  · rfl
  · split <;> rfl

theorem disableReading_quiet (c : Channel) (h : c.events = kNoneEvent) :
    c.disableReading.events = kNoneEvent := by
  simp only [disableReading, update_events, h]
  rfl

theorem isWriting_quiet (c : Channel) (h : c.events = kNoneEvent) : c.isWriting = false := by
  simp only [isWriting, h]
  rfl

theorem isReading_quiet (c : Channel) (h : c.events = kNoneEvent) : c.isReading = false := by
  simp only [isReading, h]
  rfl

/-- One update or several: a channel that is registered stays so, and its handler goes on. -/
structure Follows (c d : Channel) : Prop where
  index : c.index ≠ .kNew → d.index ≠ .kNew
  eventHandling : d.eventHandling = c.eventHandling

theorem Follows.refl (c : Channel) : c.Follows c := ⟨id, rfl⟩

theorem follows_update (c : Channel) (events : PollMask) :
    c.Follows { c with events := events }.update :=
  ⟨fun _ => update_index _, update_eventHandling _⟩

/-- Neither the loop nor the poller knows the channel. -/
structure Removed (c : Channel) : Prop where
  notAdded : c.addedToLoop = false
  index : c.index = .kNew

theorem remove_spec {c : Channel} (hq : c.events = kNoneEvent) (hi : c.index ≠ .kNew) :
    ∃ d, c.remove true = .ok d ∧ d.Removed ∧ d.events = c.events ∧
      d.eventHandling = c.eventHandling := by
  have hn : c.isNoneEvent = true := decide_eq_true hq
  refine ⟨{ c with addedToLoop := false, index := .kNew }, ?_, ⟨rfl, rfl⟩, rfl, rfl⟩
  simp only [remove, check_ok hn, ok_bind, check_ok hi]
  rfl

theorem Removed.destroy {c : Channel} (hr : c.Removed) (hh : c.eventHandling = false)
    (inLoop : Bool) : c.destroy true inLoop = .ok () := by
  simp only [Channel.destroy, check_ok hh, check_ok hr.notAdded, ok_bind]
  exact check_ok fun _ => hr.index

end Channel

def Plain (fs : List Functor) : Prop :=
  ∀ f ∈ fs, f ≠ .connectEstablished ∧ f ≠ .connectDestroyed

def Stage.functor : Stage → Functor
  | .store f => f
  | .push f => f

namespace Plain

variable {fs q : List Functor}

theorem nil : Plain [] := by
  intro f hf
  cases hf

theorem singleton {f : Functor} (he : f ≠ .connectEstablished) (hd : f ≠ .connectDestroyed) :
    Plain [f] := by
  intro g hg
  rw [List.mem_singleton.mp hg]
  exact ⟨he, hd⟩

theorem count_eq_zero (h : Plain fs) : fs.count .connectDestroyed = 0 :=
  List.count_eq_zero.mpr fun hm => (h _ hm).2 rfl

theorem count_append (h : Plain fs) :
    (q ++ fs).count .connectDestroyed = q.count .connectDestroyed := by
  rw [List.count_append, h.count_eq_zero, Nat.add_zero]

theorem fresh_append (h : Plain fs) (hq : .connectEstablished ∉ q) :
    .connectEstablished ∉ q ++ fs := by
  intro hm
  rcases List.mem_append.mp hm with hm | hm
  · exact hq hm
  · exact (h _ hm).1 rfl

theorem append (hq : Plain q) (h : Plain fs) : Plain (q ++ fs) := by
  intro f hf
  rcases List.mem_append.mp hf with hf | hf
  · exact hq f hf
  · exact h f hf

theorem queuedBy {es : List Effect} (h : ∀ f, .queueInLoop f ∈ es → f.isCallback = true) :
    Plain (queuedBy es) := by
  intro f hf
  have hc := h f (mem_queuedBy hf)
  constructor
  · intro he
    rw [he] at hc
    cases hc
  · intro he
    rw [he] at hc
    cases hc

end Plain

namespace Conn

theorem stopReadInLoop_quiet (c : Conn) (h : c.channel.events = kNoneEvent) :
    c.stopReadInLoop.channel.events = kNoneEvent := by
  unfold stopReadInLoop
  split
  · exact Channel.disableReading_quiet _ h
  · exact h

theorem sendInLoop_keeps (c : Conn) (m : Bytes) (w : WriteResult) :
    ∃ d es, c.sendInLoop m w = .ok (d, es) ∧ d.state = c.state ∧
      c.channel.Follows d.channel ∧ (c.state = .kDisconnected → d = c ∧ es = []) := by
  have hle : (c.directWrite m w).2.1 ≤ m.length := by
    unfold directWrite
    split
    · cases w with
      | wrote n => exact Nat.sub_le _ _
      | failed e => exact Nat.le_refl _
    · exact Nat.le_refl _
  by_cases hs : c.state = .kDisconnected
  · refine ⟨c, [], ?_, rfl, .refl _, fun _ => ⟨rfl, rfl⟩⟩
    rw [sendInLoop, if_pos hs]
  · unfold sendInLoop
    rw [if_neg hs]
    generalize c.directWrite m w = r at hle
    obtain ⟨nwrote, remaining, faultError, effects⟩ := r
    have hck : check (remaining ≤ m.length) Assertion.sendRemaining = .ok () := check_ok hle
    simp only [hck, ok_bind]
    split
    · obtain ⟨out, ho, _⟩ :=
        Buffer.append_spec c.outputBuffer ((m.drop nwrote).take remaining)
      simp only [ho, ok_bind]
      refine ⟨_, _, rfl, rfl, ?_, fun h => absurd h hs⟩
      dsimp only
      split
      · exact Channel.follows_update _ _
      · exact .refl _
    · exact ⟨_, _, rfl, rfl, .refl _, fun h => absurd h hs⟩

theorem handleWrite_keeps {c d : Conn} {w : WriteResult} {es : List Effect}
    (h : c.handleWrite w = .ok (d, es)) :
    c.channel.Follows d.channel ∧ (c.channel.isWriting = false → d = c ∧ es = []) := by
  unfold handleWrite at h
  split at h
  next hw =>
    refine ⟨?_, fun hn => by rw [hw] at hn; cases hn⟩
    split at h
    · split at h
      · obtain ⟨out, _, h⟩ := bind_eq_ok h
        unfold afterWrite at h
        split at h
        · cases h
          exact Channel.follows_update _ _
        · cases h
          exact .refl _
      · cases h
        exact .refl _
    · cases h
      exact .refl _
  · cases h
    exact ⟨.refl _, fun _ => ⟨rfl, rfl⟩⟩

/-- What every call but the ones that set up, close and remove a connection does to it. -/
structure Keeps (c d : Conn) (es : List Effect) : Prop where
  state : d.state = c.state ∨
    (c.state = .kConnected ∨ c.state = .kDisconnecting) ∧ d.state = .kDisconnecting
  follows : c.channel.Follows d.channel
  quiet : c.state = .kDisconnected → c.channel.events = kNoneEvent →
    d.channel.events = kNoneEvent ∧ (c.channel.Removed → d.channel.Removed)
  plain : Plain (queuedBy es)

theorem Keeps.of_channel {c d : Conn} {es : List Effect}
    (hs : d.state = c.state ∨
      (c.state = .kConnected ∨ c.state = .kDisconnecting) ∧ d.state = .kDisconnecting)
    (hc : d.channel = c.channel) (hp : Plain (queuedBy es)) : c.Keeps d es := by
  refine ⟨hs, ?_, ?_, hp⟩
  · rw [hc]
    exact .refl _
  · intro _ hq
    rw [hc]
    exact ⟨hq, id⟩

theorem keeps_shutdownInLoop (c : Conn) : c.Keeps c c.shutdownInLoop := by
  refine .of_channel (.inl rfl) rfl ?_
  unfold shutdownInLoop
  split
  · exact Plain.nil
  · exact Plain.nil

theorem keeps_startReadInLoop (c : Conn) (h : c.state ≠ .kDisconnected) :
    c.Keeps c.startReadInLoop [] where
  state := .inl c.startReadInLoop_state
  follows := by
    unfold startReadInLoop
    split
    · exact Channel.follows_update _ _
    · exact .refl _
  quiet := fun hd => absurd hd h
  plain := Plain.nil

/- `stopRead` registers a channel again that has been removed, unless the connection had
stopped to read before. -/
def Reregisters (c : Conn) : Prop :=
  c.state = .kDisconnected ∧ c.channel.index = .kNew ∧ c.reading = true

theorem keeps_stopReadInLoop (c : Conn) (h : ¬ c.Reregisters) : c.Keeps c.stopReadInLoop [] where
  state := .inl c.stopReadInLoop_state
  follows := by
    unfold stopReadInLoop
    split
    · exact Channel.follows_update _ _
    · exact .refl _
  quiet := by
    intro hs hq
    refine ⟨c.stopReadInLoop_quiet hq, fun hr => ?_⟩
    have hn : c.reading = false := Bool.not_eq_true _ ▸ fun hn => h ⟨hs, hr.index, hn⟩
    have hk : c.stopReadInLoop = c := by
      simp only [stopReadInLoop, hn, Channel.isReading_quiet _ hq, Bool.false_eq_true, or_self,
        if_false]
    rw [hk]
    exact hr
  plain := Plain.nil

theorem keeps_sendInLoop (c : Conn) (m : Bytes) (w : WriteResult) :
    ∃ d es, c.sendInLoop m w = .ok (d, es) ∧ c.Keeps d es := by
  obtain ⟨d, es, h, hs, hf, hd⟩ := c.sendInLoop_keeps m w
  refine ⟨d, es, h, .inl hs, hf, ?_, Plain.queuedBy fun _ => sendInLoop_callbacks h⟩
  intro hk hq
  rw [(hd hk).1]
  exact ⟨hq, id⟩

theorem keeps_send (c : Conn) (m : Bytes) (w : WriteResult) :
    ∃ d es, c.send true m w = .ok (d, es) ∧ c.Keeps d es := by
  unfold send
  split
  · exact c.keeps_sendInLoop m w
  · exact ⟨c, [], rfl, .of_channel (.inl rfl) rfl Plain.nil⟩

theorem keeps_handleWrite (c : Conn) (w : WriteResult)
    (hw : w.Fits c.outputBuffer.readableBytes) :
    ∃ d es, c.handleWrite w = .ok (d, es) ∧ c.Keeps d es := by
  obtain ⟨d, es, h, hs⟩ := c.handleWrite_spec w hw
  obtain ⟨hf, hn⟩ := handleWrite_keeps h
  refine ⟨d, _, h, .inl hs.state, hf, ?_, Plain.queuedBy fun _ => handleWrite_callbacks h⟩
  intro _ hq
  rw [(hn (Channel.isWriting_quiet _ hq)).1]
  exact ⟨hq, id⟩

theorem keeps_shutdown (c : Conn) : c.Keeps (c.shutdown true).1 (c.shutdown true).2 := by
  unfold shutdown
  split
  next hs =>
    refine .of_channel (.inr ⟨.inl hs, rfl⟩) rfl ?_
    exact (keeps_shutdownInLoop { c with state := .kDisconnecting }).plain
  · exact .of_channel (.inl rfl) rfl Plain.nil

theorem keeps_forceClose (c : Conn) : c.Keeps c.forceClose.1 c.forceClose.2 := by
  unfold forceClose
  split
  next hs =>
    exact .of_channel (.inr ⟨hs, rfl⟩) rfl (Plain.singleton (by decide) (by decide))
  · exact .of_channel (.inl rfl) rfl Plain.nil

end Conn

namespace TcpServer

/-! ### Steps that reach a defect -/

/-- The steps after which the code may break its own assertions or use an object that
is gone:

- the poller reports a hang-up or a reason to read after the close, of a channel
  without interest that `Channel::update` has registered again, or it reports both at
  once;
- `handleClose` calls back into a server that is gone, or the server's loop still runs
  a request to remove the connection;
- `connectDestroyed` finds the connection in `kDisconnecting`, or `~TcpServer` runs it while
  the loop handles another channel and this one is in `activeChannels_`, handled or not;
- `startRead` takes effect on a disconnected connection, or `stopRead` after its channel was
  removed;
- a functor bound to a raw `this` outlives the connection;
- another thread stores `kDisconnecting` over `kDisconnected`, or queues a functor in a
  loop that has ended;
- the loop ends before `connectDestroyed` has run, or the connection outlives it. -/
def Hazard (s : TcpServer) : Act → Prop
  | .pollReturn none => False
  | .pollReturn (some r) =>
      s.conn.state = .kDisconnected ∧ (.hup ∈ branches r ∨ .read ∈ branches r) ∨
      .hup ∈ branches r ∧ .read ∈ branches r
  | .advance _ _ => s.stack.head? = some .closeCallback ∧ s.server = false
  | .runTask _ =>
      s.ioQueue.head? = some .connectDestroyed ∧ s.conn.state = .kDisconnecting ∨
      s.ioQueue.head? = some .startReadInLoop ∧ s.conn.state = .kDisconnected ∨
      s.ioQueue.head? = some .stopReadInLoop ∧ s.conn.Reregisters ∨
      s.ioQueue.head?.any isRaw = true ∧ s.alive = false
  | .userCall c _ =>
      c = .startRead ∧ s.conn.state = .kDisconnected ∨ c = .stopRead ∧ s.conn.Reregisters
  | .proceed (.store _) => s.conn.state = .kDisconnected
  | .proceed (.push _) => s.ioLooping = false
  | .destroyServer => s.sameLoop = true ∧ s.inMap = true ∧
      (s.conn.state = .kDisconnecting ∨ s.removable = false)
  | .runBase => s.server = false
  | .exitLoop => s.conn.state ≠ .kDisconnected ∨ s.conn.channel.index ≠ .kNew
  | .destroy _ => s.ioLooping = false
  | _ => False

/-! ### The phases of a connection -/

def destroyers (s : TcpServer) : Nat :=
  s.ioQueue.count .connectDestroyed + s.stack.count .remove

def closers (s : TcpServer) : Nat := s.stack.count .closeCallback + s.baseQueue

/-- The loop's events: outside of them no channel is to be handled, the handler that runs is
that of the current channel, and while the channel waits, nothing of the connection runs. -/
structure Turn (eventHandling : Bool) (active : ActiveEntry) (handling : Bool) (stack : List Frame) :
    Prop where
  between : eventHandling = false → active = .absent ∨ active = .behind
  handling : handling = true → active = .current
  ahead : ∀ r, active = .ahead r → stack = []

structure Connecting (s : TcpServer) : Prop where
  state : s.conn.state = .kConnecting
  index : s.conn.channel.index = .kNew
  handling : s.conn.channel.eventHandling = false
  log : s.log = []
  alive : s.alive = true
  looping : s.ioLooping = true
  refs : s.userRefs = false
  calls : s.calls = []
  active : s.active = .absent
  base : s.baseQueue = 0
  pending : s.sameLoop = true ∧ s.stack = [.established] ∧ s.ioQueue = [] ∧
      s.inMap = true ∧ s.server = true ∨
    s.sameLoop = false ∧ s.stack = [] ∧
      (s.ioQueue = [.connectEstablished] ∧ s.inMap = true ∧ s.server = true ∨
        s.ioQueue = [.connectEstablished, .connectDestroyed] ∧ s.inMap = false ∧ s.server = false)

structure Up (s : TcpServer) : Prop where
  state : s.conn.state = .kConnected ∨ s.conn.state = .kDisconnecting
  registered : s.conn.channel.index ≠ .kNew
  log : s.log = [.kConnected]
  alive : s.alive = true
  looping : s.ioLooping = true
  calls : Plain (s.calls.map Stage.functor)
  base : s.baseQueue = 0
  fresh : .connectEstablished ∉ s.ioQueue
  frames : ∀ f ∈ s.stack, f ≠ .closeCallback ∧ f ≠ .remove ∧ f ≠ .established
  top : .hup ∉ s.stack.tail ∧ .read ∉ s.stack.tail
  turn : Turn s.eventHandling s.active s.conn.channel.eventHandling s.stack
  reports : ∀ r, s.active = .ahead r → ¬ (.hup ∈ branches r ∧ .read ∈ branches r)
  owner : s.inMap = true ∧ s.server = true ∧ s.ioQueue.count .connectDestroyed = 0 ∨
    s.inMap = false ∧ s.server = false ∧ s.ioQueue.count .connectDestroyed = 1

/-- The channel of a connection that is down is removed once: either that is still to come, and
then it is asked for in one place, or it has been done. -/
structure Down (s : TcpServer) : Prop where
  state : s.conn.state = .kDisconnected
  quiet : s.conn.channel.events = kNoneEvent
  log : s.log = [.kConnected, .kDisconnected]
  alive : s.alive = true
  calls : Plain (s.calls.map Stage.functor)
  fresh : .connectEstablished ∉ s.ioQueue
  frames : ∀ f ∈ s.stack, f ≠ .hup ∧ f ≠ .read ∧ f ≠ .established
  turn : Turn s.eventHandling s.active s.conn.channel.eventHandling s.stack
  reports : ∀ r, s.active = .ahead r →
    (.hup ∉ branches r ∧ .read ∉ branches r) ∧ s.conn.channel.index ≠ .kNew
  removing : .remove ∈ s.stack → s.removable = true
  pending : s.inMap = true ∧ s.server = true ∧ s.closers = 1 ∧ s.destroyers = 0 ∧
      s.conn.channel.index ≠ .kNew ∨
    s.inMap = false ∧ (s.server = true → s.closers = 0) ∧
      (s.destroyers = 1 ∧ s.conn.channel.index ≠ .kNew ∨
        s.destroyers = 0 ∧ s.conn.channel.Removed)

structure Dead (s : TcpServer) : Prop where
  log : s.log = [.kConnected, .kDisconnected]
  alive : s.alive = false
  passed : s.active = .absent ∨ s.active = .behind
  refs : s.userRefs = false
  calls : s.calls = []
  stack : s.stack = []
  base : s.baseQueue = 0
  inMap : s.inMap = false
  state : s.conn.state = .kDisconnected
  raw : ∀ f ∈ s.ioQueue, isRaw f = true

def Inv (s : TcpServer) : Prop := Connecting s ∨ Up s ∨ Down s ∨ Dead s

/-! ### Moves of the stack and the queue -/

variable {s : TcpServer}

theorem idle_iff :
    s.idle = true ↔ s.ioLooping = true ∧ s.stack = [] ∧ s.eventHandling = false := by
  simp only [idle, Bool.and_eq_true, List.isEmpty_iff, Bool.not_eq_true', and_assoc]

theorem removable_between (he : s.eventHandling = false) : s.removable = true := by
  simp only [removable, he, Bool.not_false, Bool.true_or]

theorem isReferenced_of_mem {f : Functor} (hm : f ∈ s.ioQueue) (hr : isRaw f = false) :
    s.isReferenced = true := by
  have hany : (s.ioQueue.any fun g => !isRaw g) = true := by
    rw [List.any_eq_true]
    exact ⟨f, hm, by rw [hr]; rfl⟩
  simp only [isReferenced, hany, Bool.or_true]

theorem fresh_append_connectDestroyed {q : List Functor} (h : .connectEstablished ∉ q) :
    .connectEstablished ∉ q ++ [.connectDestroyed] := by
  intro hm
  rcases List.mem_append.mp hm with hm | hm
  · exact h hm
  · cases List.mem_singleton.mp hm

theorem mem_branches {r : PollMask} {f : Frame} (h : f ∈ branches r) :
    f = .hup ∨ f = .read ∨ f = .write := by
  unfold branches at h
  simp only [List.mem_append] at h
  rcases h with (h | h) | h
  · split at h
    · exact .inl (List.mem_singleton.mp h)
    · cases h
  · split at h
    · exact .inr (.inl (List.mem_singleton.mp h))
    · cases h
  · split at h
    · exact .inr (.inr (List.mem_singleton.mp h))
    · cases h

theorem tail_branches {r : PollMask} (h : ¬ (.hup ∈ branches r ∧ .read ∈ branches r)) :
    .hup ∉ (branches r).tail ∧ .read ∉ (branches r).tail := by
  revert h
  unfold branches
  split <;> split <;> split <;> simp

namespace Turn

variable {e h : Bool} {active : ActiveEntry} {st : List Frame}

theorem not_ahead (ht : Turn e active h st) {f : Frame} {fs : List Frame} (he : st = f :: fs)
    (r : PollMask) : active ≠ .ahead r := by
  intro ha
  have hn := ht.ahead r ha
  rw [he] at hn
  cases hn

theorem not_ahead_between (ht : Turn e active h st) (he : e = false) (r : PollMask) :
    active ≠ .ahead r := by
  intro ha
  rcases ht.between he with hb | hb
  · cases ha.symm.trans hb
  · cases ha.symm.trans hb

theorem push (ht : Turn e active h st) (ha : ∀ r, active ≠ .ahead r) (fs : List Frame) :
    Turn e active h fs :=
  ⟨ht.between, ht.handling, fun r hr => absurd hr (ha r)⟩

theorem pop (ht : Turn e active h st) {f : Frame} {fs : List Frame} (he : st = f :: fs) :
    Turn e active h fs :=
  ht.push (ht.not_ahead he) fs

theorem idle (ht : Turn e active h st) (he : e = false) : h = false := by
  refine Bool.not_eq_true _ ▸ fun hh => ?_
  rcases ht.between he with hb | hb
  · cases (ht.handling hh).symm.trans hb
  · cases (ht.handling hh).symm.trans hb

theorem handled (e : Bool) (st : List Frame) : Turn e .behind false st :=
  ⟨fun _ => .inr rfl, nofun, nofun⟩

theorem endEvents (ht : Turn e active h st) (ha : active = .absent ∨ active = .behind) :
    Turn false active h st :=
  ⟨fun _ => ha, ht.handling, ht.ahead⟩

end Turn

theorem not_ahead_of_removable
    (ht : Turn s.eventHandling s.active s.conn.channel.eventHandling s.stack)
    (hr : s.removable = true) (r : PollMask) : s.active ≠ .ahead r := by
  intro ha
  have he : s.eventHandling = false := by
    simpa only [removable, ha, reduceCtorEq, decide_false, Bool.or_false, Bool.not_eq_true']
      using hr
  exact ht.not_ahead_between he r ha

theorem poll_spec (ht : Turn s.eventHandling s.active s.conn.channel.eventHandling s.stack)
    (hi : s.idle = true) (revents : Option PollMask) :
    ∃ a, s.poll revents = { s with eventHandling := true, active := a } ∧
      Turn true a s.conn.channel.eventHandling s.stack ∧ ∀ r, a = .ahead r → revents = some r := by
  obtain ⟨_, hst, he⟩ := idle_iff.mp hi
  have hh := ht.idle he
  cases revents with
  | none => exact ⟨.absent, rfl, ⟨nofun, fun h => absurd (hh.symm.trans h) nofun, nofun⟩, nofun⟩
  | some r =>
    refine ⟨.ahead r, rfl, ⟨nofun, fun h => absurd (hh.symm.trans h) nofun, fun _ _ => hst⟩, ?_⟩
    intro r' h
    cases h
    rfl

namespace Up

theorem pop (hu : Up s) {f : Frame} {fs : List Frame} (h : s.stack = f :: fs) :
    Up { s with stack := fs } := by
  have ht := hu.top
  rw [h] at ht
  refine { hu with
    frames := ?_, top := ?_, turn := hu.turn.pop h }
  · intro g hg
    exact hu.frames g (h ▸ List.mem_cons_of_mem _ hg)
  · exact ⟨fun hm => ht.1 (List.mem_of_mem_tail hm), fun hm => ht.2 (List.mem_of_mem_tail hm)⟩

theorem callUser (hu : Up s) (ha : ∀ r, s.active ≠ .ahead r) (hh : .hup ∉ s.stack)
    (hr : .read ∉ s.stack) : Up { s with stack := .user :: s.stack } := by
  refine { hu with
    frames := ?_, top := ⟨hh, hr⟩, turn := hu.turn.push ha _ }
  intro f hf
  rcases List.mem_cons.mp hf with rfl | hf
  · decide
  · exact hu.frames f hf

theorem dequeue (hu : Up s) {f : Functor} {fs : List Functor} (h : s.ioQueue = f :: fs)
    (hf : f ≠ .connectDestroyed) : Up { s with ioQueue := fs } := by
  have hc : s.ioQueue.count .connectDestroyed = fs.count .connectDestroyed := by
    rw [h, List.count_cons_of_ne hf]
  refine { hu with fresh := ?_, owner := ?_ }
  · intro hm
    exact hu.fresh (h ▸ List.mem_cons_of_mem _ hm)
  · rw [← hc]
    exact hu.owner

theorem enqueue (hu : Up s) {fs : List Functor} (hp : Plain fs) :
    Up { s with ioQueue := s.ioQueue ++ fs } := by
  refine { hu with
    fresh := hp.fresh_append hu.fresh, owner := ?_ }
  rw [hp.count_append]
  exact hu.owner

theorem apply (hu : Up s) {d : Conn} {es : List Effect} (hk : s.conn.Keeps d es) :
    Up (s.apply (d, es)) := by
  refine { hu.enqueue hk.plain with
    state := ?_
    registered := hk.follows.index hu.registered
    turn := hk.follows.eventHandling.symm ▸ hu.turn }
  rcases hk.state with h | h
  · show d.state = _ ∨ d.state = _
    rw [h]
    exact hu.state
  · exact .inr h.2

theorem count_frames (hu : Up s) :
    s.stack.count .closeCallback = 0 ∧ s.stack.count .remove = 0 :=
  ⟨List.count_eq_zero.mpr fun h => (hu.frames _ h).1 rfl,
    List.count_eq_zero.mpr fun h => (hu.frames _ h).2.1 rfl⟩

/-- The user's connectionCallback is called with `kDisconnected`; `f` is what the thread
does next, and who is left to remove the channel is for the caller to say. -/
theorem disconnect (hu : Up s) (ha : ∀ r, s.active ≠ .ahead r) (hh : .hup ∉ s.stack)
    (hr : .read ∉ s.stack) {q : List Functor} (hq : .connectEstablished ∉ q) {f : Frame}
    (hf : f = .closeCallback ∨ f = .remove ∧ s.removable = true) {v i : Bool} {t : TcpServer}
    (ht : t = { s with
      conn := { s.conn with state := .kDisconnected, channel := s.conn.channel.disableAll }
      server := v
      inMap := i
      stack := f :: s.stack
      ioQueue := q }.connectionCallback)
    (hp : t.inMap = true ∧ t.server = true ∧ t.closers = 1 ∧ t.destroyers = 0 ∨
      t.inMap = false ∧ t.destroyers = 1 ∧ (t.server = true → t.closers = 0)) : Down t := by
  have hx : t.conn.channel.index ≠ .kNew := by
    rw [ht]
    exact Channel.update_index _
  have hn : ∀ r, t.active ≠ .ahead r := by
    rw [ht]
    exact ha
  constructor
  case state => rw [ht]; rfl
  case quiet => rw [ht]; exact Channel.disableAll_events _
  case log => simp only [ht, connectionCallback, hu.log]; rfl
  case alive => rw [ht]; exact hu.alive
  case calls => rw [ht]; exact hu.calls
  case fresh => rw [ht]; exact hq
  case frames =>
    intro g hg
    simp only [ht, connectionCallback, List.mem_cons] at hg
    rcases hg with rfl | rfl | hg
    · decide
    · rcases hf with rfl | ⟨rfl, _⟩
      · decide
      · decide
    · exact ⟨fun h => hh (h ▸ hg), fun h => hr (h ▸ hg), (hu.frames g hg).2.2⟩
  case turn =>
    subst ht
    have hh := Channel.update_eventHandling { s.conn.channel with events := kNoneEvent }
    exact hh.symm ▸ hu.turn.push ha _
  case reports => exact fun r h => absurd h (hn r)
  case removing =>
    intro hm
    simp only [ht, connectionCallback, List.mem_cons] at hm
    rw [ht]
    rcases hm with h | h | h
    · cases h
    · rcases hf with hf | hf
      · cases hf.symm.trans h.symm
      · exact hf.2
    · exact absurd rfl (hu.frames _ h).2.1
  case pending =>
    rcases hp with ⟨hi, hv, hc, hd⟩ | ⟨hi, hd, hc⟩
    · exact .inl ⟨hi, hv, hc, hd, hx⟩
    · exact .inr ⟨hi, hc, .inl ⟨hd, hx⟩⟩

theorem handleClose (hu : Up s) (ha : ∀ r, s.active ≠ .ahead r) (hh : .hup ∉ s.stack)
    (hr : .read ∉ s.stack) : ∃ t, s.handleClose = .ok t ∧ Down t := by
  obtain ⟨hc, hm⟩ := hu.count_frames
  have hs : s.conn.handleClose =
      .ok { s.conn with state := .kDisconnected, channel := s.conn.channel.disableAll } := by
    simp only [Conn.handleClose, check_ok hu.state, ok_bind]
    rfl
  refine ⟨_, by simp only [TcpServer.handleClose, hs, ok_bind]; rfl, ?_⟩
  refine hu.disconnect ha hh hr hu.fresh (.inl rfl) rfl ?_
  simp only [closers, destroyers, connectionCallback, hu.base, List.count_cons, hc, hm]
  rcases hu.owner with ⟨hi, hv, hq⟩ | ⟨hi, hv, hq⟩
  · exact .inl ⟨hi, hv, rfl, by rw [hq]; rfl⟩
  · exact .inr ⟨hi, by rw [hq]; rfl, fun h => by rw [hv] at h; cases h⟩

theorem connectDestroyed (hu : Up s) (hs : s.conn.state = .kConnected)
    (ha : ∀ r, s.active ≠ .ahead r) (hrm : s.removable = true) (hh : .hup ∉ s.stack)
    (hr : .read ∉ s.stack) {q : List Functor} (hfr : .connectEstablished ∉ q)
    (hq : q.count .connectDestroyed = 0) {v i : Bool} (hv : v = false) (hi : i = false) :
    Down { s with server := v, inMap := i, ioQueue := q }.connectDestroyed := by
  obtain ⟨_, hm⟩ := hu.count_frames
  simp only [TcpServer.connectDestroyed, hs, if_true]
  refine hu.disconnect ha hh hr hfr (.inr ⟨rfl, hrm⟩) rfl (.inr ⟨hi, ?_, ?_⟩)
  · simp only [destroyers, connectionCallback, List.count_cons, hm, hq]
    rfl
  · intro h
    cases hv.symm.trans h

end Up

namespace Down

theorem pop (hd : Down s) {f : Frame} {fs : List Frame} (h : s.stack = f :: fs)
    (hc : f ≠ .closeCallback) (hr : f ≠ .remove) : Down { s with stack := fs } := by
  have hcl : { s with stack := fs }.closers = s.closers := by
    simp only [closers, h, List.count_cons_of_ne hc]
  have hde : { s with stack := fs }.destroyers = s.destroyers := by
    simp only [destroyers, h, List.count_cons_of_ne hr]
  refine { hd with
    frames := ?_
    turn := hd.turn.pop h
    removing := ?_
    pending := ?_ }
  · intro g hg
    exact hd.frames g (h ▸ List.mem_cons_of_mem _ hg)
  · intro hm
    exact hd.removing (h ▸ List.mem_cons_of_mem _ hm)
  · rw [hcl, hde]
    exact hd.pending

theorem callUser (hd : Down s) (ha : ∀ r, s.active ≠ .ahead r) :
    Down { s with stack := .user :: s.stack } := by
  refine { hd with
    frames := ?_, turn := hd.turn.push ha _, removing := ?_ }
  · intro f hf
    rcases List.mem_cons.mp hf with rfl | hf
    · decide
    · exact hd.frames f hf
  · intro hm
    rcases List.mem_cons.mp hm with hm | hm
    · cases hm
    · exact hd.removing hm

theorem dequeue (hd : Down s) {f : Functor} {fs : List Functor} (h : s.ioQueue = f :: fs)
    (hf : f ≠ .connectDestroyed) : Down { s with ioQueue := fs } := by
  have hde : { s with ioQueue := fs }.destroyers = s.destroyers := by
    simp only [destroyers, h, List.count_cons_of_ne hf]
  refine { hd with fresh := ?_, pending := ?_ }
  · intro hm
    exact hd.fresh (h ▸ List.mem_cons_of_mem _ hm)
  · rw [hde]
    exact hd.pending

theorem enqueue (hd : Down s) {fs : List Functor} (hp : Plain fs) :
    Down { s with ioQueue := s.ioQueue ++ fs } := by
  have hde : { s with ioQueue := s.ioQueue ++ fs }.destroyers = s.destroyers := by
    simp only [destroyers, hp.count_append]
  refine { hd with
    fresh := hp.fresh_append hd.fresh, pending := ?_ }
  rw [hde]
  exact hd.pending

theorem apply (hd : Down s) {d : Conn} {es : List Effect} (hk : s.conn.Keeps d es) :
    Down (s.apply (d, es)) := by
  have he := hd.enqueue hk.plain
  obtain ⟨hq, hrm⟩ := hk.quiet hd.state hd.quiet
  refine { he with
    state := ?_
    quiet := hq
    turn := hk.follows.eventHandling.symm ▸ hd.turn
    reports := fun r hr => ⟨(hd.reports r hr).1, hk.follows.index (hd.reports r hr).2⟩
    pending := ?_ }
  · rcases hk.state with h | h
    · exact h.trans hd.state
    · rcases h.1 with h | h
      · cases hd.state.symm.trans h
      · cases hd.state.symm.trans h
  · rcases he.pending with ⟨hi, hv, hc, hz, hx⟩ | ⟨hi, hc, ⟨hz, hx⟩ | ⟨hz, hx⟩⟩
    · exact .inl ⟨hi, hv, hc, hz, hk.follows.index hx⟩
    · exact .inr ⟨hi, hc, .inl ⟨hz, hk.follows.index hx⟩⟩
    · exact .inr ⟨hi, hc, .inr ⟨hz, hrm hx⟩⟩

/-- The one request to remove the connection meets the entry of the map. -/
theorem removeConnectionInLoop (hd : Down s) {fs : List Frame} {k : Nat}
    (hsub : fs ⊆ s.stack)
    (ht : Turn s.eventHandling s.active s.conn.channel.eventHandling fs)
    (hrm : fs.count .remove = s.stack.count .remove)
    (hcl : fs.count .closeCallback + k + 1 = s.closers) (hv : s.server = true) :
    ∃ t, { s with stack := fs, baseQueue := k }.removeConnectionInLoop = .ok t ∧ Down t := by
  rcases hd.pending with ⟨hi, _, hc, hde, hx⟩ | ⟨_, hc, _⟩
  · have hs : { s with stack := fs, baseQueue := k }.removeConnectionInLoop =
        .ok { s with
          stack := fs
          baseQueue := k
          inMap := false
          ioQueue := s.ioQueue ++ [.connectDestroyed] } := by
      simp only [TcpServer.removeConnectionInLoop, check_ok hv, check_ok hi, ok_bind]
      rfl
    have hone : s.ioQueue.count .connectDestroyed = 0 ∧ s.stack.count .remove = 0 := by
      unfold destroyers at hde
      omega
    refine ⟨_, hs, ?_⟩
    refine { hd with
      fresh := fresh_append_connectDestroyed hd.fresh
      frames := fun f hf => hd.frames f (hsub hf)
      turn := ht
      removing := fun hm => hd.removing (hsub hm)
      pending := .inr ⟨rfl, fun _ => ?_, .inl ⟨?_, hx⟩⟩ }
    · simp only [closers]
      omega
    · simp only [destroyers, List.count_append, hrm, hone.1, hone.2, List.count_singleton_self]
  · have := hc hv
    omega

end Down

end TcpServer
end TstMuduo.Net
