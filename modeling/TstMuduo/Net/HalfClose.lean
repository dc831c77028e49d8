import TstMuduo.Net.OutputStream
import TstMuduo.Net.EventLoop

/-!
# Sending and half-closing from another thread

One thread that is not the loop's runs `send(m1); ...; send(mn); shutdown()` on
an established connection while the loop thread takes its own steps. The test of
`state_`, the push, the wakeup and the store of `state_` are separate steps of
that thread. A handler of the loop thread is one step: it reads `state_` once,
and its pushes are made under the mutex.
-/

namespace TstMuduo.Net
open TstMuduo.Lib

/-- The calling thread: about to call the next function, past the test of `send`,
between its push and its wakeup, past the test of `shutdown`, past the store of
`kDisconnecting`, between the last push and its wakeup, returned. -/
inductive WorkerPc where
  | call
  | tested
  | pushed
  | closing
  | stored
  | lastPushed
  | returned
  deriving DecidableEq, Repr

/- `todo` are the messages whose `send` has not pushed yet. -/
structure HalfClose where
  conn : Conn
  loop : Loop Functor Unit
  pc : WorkerPc
  todo : List Bytes
  trace : List Effect

namespace HalfClose

def new (c : Conn) (ms : List Bytes) : HalfClose := ⟨c, Loop.new, .call, ms, []⟩

/-- One step of the calling thread, or a step of `loop()` with the answer that
the kernel gives if the step writes. -/
inductive Act where
  | worker
  | io (a : Loop.Act Functor Unit) (w : WriteResult)

def onLoop (s : HalfClose) (a : Loop.Act Functor Unit) (pc : WorkerPc) (todo : List Bytes) :
    Option (Except Assertion HalfClose) :=
  (s.loop.step a).map fun r => do
    let l ← r
    return { s with loop := l, pc := pc, todo := todo }

/- `send` (TcpConnection.cpp:104) while messages are left, then `shutdown`
(TcpConnection.cpp:262). -/
def worker (s : HalfClose) : Option (Except Assertion HalfClose) :=
  match s.pc, s.todo with
  | .call, _ :: rest =>
    if s.conn.state = .kConnected then some (.ok { s with pc := .tested })
    else some (.ok { s with todo := rest })
  | .call, [] =>
    some (.ok { s with pc := if s.conn.state = .kConnected then .closing else .returned })
  | .tested, m :: rest => s.onLoop (.push 0 (.sendInLoop m)) .pushed rest
  | .tested, [] => none
  | .pushed, todo => s.onLoop (.wakeup 0) .call todo
  | .closing, _ =>
    some (.ok { s with conn := { s.conn with state := .kDisconnecting }, pc := .stored })
  | .stored, todo => s.onLoop (.push 0 .shutdownInLoop) .lastPushed todo
  | .lastPushed, todo => s.onLoop (.wakeup 0) .returned todo
  | .returned, _ => none

/- `queueInLoop` called by the loop thread itself (EventLoop.cpp:192). -/
def queueInLoop (l : Loop Functor Unit) (f : Functor) : Loop Functor Unit :=
  if l.callingPendingFunctors = true then (l.push .loop f).wakeup else l.push .loop f

def applyEffect (l : Loop Functor Unit) : Effect → Loop Functor Unit
  | .queueInLoop f => queueInLoop l f
  | .write _ => l
  | .shutdownWrite => l

/- The statements of `loop()`, as opposed to calls made by user code. -/
def ofLoop : Loop.Act Functor Unit → Bool
  | .push _ _ | .wakeup _ | .quit _ | .ownPush _ | .ownWakeup | .ownQuit => false
  | _ => true

/- The bodies of the queued functors; the user's callbacks leave the connection
alone here. -/
def body (c : Conn) (w : WriteResult) : Functor → Option (Except Assertion (Conn × List Effect))
  | .sendInLoop m => if w.Unbroken m.length then some (c.sendInLoop m w) else none
  | .shutdownInLoop => some (.ok (c, c.shutdownInLoop))
  | .writeComplete => some (.ok (c, []))
  | .highWaterMark _ => some (.ok (c, []))
  | _ => none

/- What the loop thread runs on the connection in this step. -/
def runs (s : HalfClose) (a : Loop.Act Functor Unit) (w : WriteResult) :
    Option (Except Assertion (Conn × List Effect)) :=
  match a, s.loop.phase, s.loop.functors with
  | .handle, .handling (.channel () :: _), _ =>
    if w.Unbroken s.conn.outputBuffer.readableBytes then some (s.conn.handleWrite w) else none
  | .runFunctor, .running, task :: _ => body s.conn w task.functor
  | _, _, _ => some (.ok (s.conn, []))

def io (s : HalfClose) (a : Loop.Act Functor Unit) (w : WriteResult) :
    Option (Except Assertion HalfClose) :=
  if ofLoop a = true then do
    let r ← s.loop.step a
    let q ← s.runs a w
    return (do
      let l ← r
      let (c, es) ← q
      return { s with conn := c, loop := es.foldl applyEffect l, trace := s.trace ++ es })
  else none

def step (s : HalfClose) : Act → Option (Except Assertion HalfClose)
  | .worker => s.worker
  | .io a w => s.io a w

def machine (c : Conn) (ms : List Bytes) : Machine HalfClose Act Assertion where
  init := new c ms
  step := step

def queued (l : Loop Functor Unit) : List Functor :=
  (l.functors ++ l.pendingFunctors).map Task.functor

def queuedBytes : List Functor → Bytes
  | [] => []
  | .sendInLoop m :: fs => m ++ queuedBytes fs
  | _ :: fs => queuedBytes fs

/- Each half-close in the trace comes after all of `total` went to the kernel. -/
def Complete (total : Bytes) (trace : List Effect) : Prop :=
  ∀ pre post, trace = pre ++ .shutdownWrite :: post → total <+: written pre

/- `handleWrite` empties the output buffer of a connection in `kDisconnecting`
while messages still wait in the queue of the loop. -/
def Overtakes (s : HalfClose) (a : Act) : Prop :=
  ∃ w rest, a = .io .handle w ∧ s.loop.phase = .handling (.channel () :: rest) ∧
    s.conn.Drains w ∧ s.conn.state = .kDisconnecting ∧ queuedBytes (queued s.loop) ≠ []

/-! ### The queue of the loop -/

theorem queuedBytes_append (fs gs : List Functor) :
    queuedBytes (fs ++ gs) = queuedBytes fs ++ queuedBytes gs := by
  induction fs with
  | nil => rfl
  | cons f fs ih => cases f <;> simp [queuedBytes, ih]

theorem queued_push (l : Loop Functor Unit) (c : Caller) (f : Functor) :
    queued (l.push c f) = queued l ++ [f] := by
  simp [queued, Loop.push]

theorem queued_queueInLoop (l : Loop Functor Unit) (f : Functor) :
    queued (queueInLoop l f) = queued l ++ [f] := by
  rw [← queued_push l .loop f]
  unfold queueInLoop
  split <;> rfl

theorem queueInLoop_queueInv {l : Loop Functor Unit} (hi : l.QueueInv) (f : Functor) :
    (queueInLoop l f).QueueInv := by
  have hp : (l.push .loop f).QueueInv :=
    ⟨Loop.push_order hi _ f, Loop.push_numbered hi _ f, hi.batch, hi.outside, hi.calling, hi.waking⟩
  unfold queueInLoop
  split
  · exact ⟨hp.order, hp.numbered, hp.batch, hp.outside, hp.calling, hp.waking⟩
  · exact hp

theorem foldl_applyEffect (es : List Effect) (l : Loop Functor Unit) (hi : l.QueueInv) :
    (es.foldl applyEffect l).QueueInv ∧
      queued (es.foldl applyEffect l) = queued l ++ queuedBy es := by
  induction es generalizing l with
  | nil => exact ⟨hi, (List.append_nil _).symm⟩
  | cons e es ih =>
    cases e with
    | write bs => exact ih l hi
    | shutdownWrite => exact ih l hi
    | queueInLoop f =>
      obtain ⟨h1, h2⟩ := ih (queueInLoop l f) (queueInLoop_queueInv hi f)
      refine ⟨h1, ?_⟩
      rw [List.foldl_cons, show applyEffect l (.queueInLoop f) = queueInLoop l f from rfl, h2,
        queued_queueInLoop, List.append_assoc]
      rfl

theorem queued_ofLoop {l m : Loop Functor Unit} {a : Loop.Act Functor Unit} (h : Loop.Step l a m)
    (hi : l.QueueInv) (ho : ofLoop a = true) (ha : a ≠ .runFunctor) : queued m = queued l := by
  cases h with
  | push i f _ => cases ho
  | wakeup i _ => cases ho
  | quit i _ => cases ho
  | ownPush f _ _ => cases ho
  | ownWakeup _ => cases ho
  | ownQuit _ => cases ho
  | runFunctor task rest _ _ => exact absurd rfl ha
  | swap hp =>
    have hf : l.functors = [] := hi.batch (by rw [hp]; simp)
    simp [queued, hf]
  | loop _ => rfl
  | resetQuit _ => rfl
  | leave _ _ => rfl
  | stay _ _ => rfl
  | pollReturn active _ _ => rfl
  | handleRead rest _ => rfl
  | handleChannel e rest _ => rfl
  | endHandling _ _ => rfl
  | endRunning _ _ _ => rfl
  | endDestroying _ => rfl

/- No message waits behind the half-close. -/
def Trailing : List Functor → Prop
  | [] => True
  | .shutdownInLoop :: fs => queuedBytes fs = []
  | _ :: fs => Trailing fs

theorem trailing_of_empty (fs : List Functor) (h : queuedBytes fs = []) : Trailing fs := by
  induction fs with
  | nil => trivial
  | cons f fs ih =>
    cases f with
    | sendInLoop m => exact ih (List.append_eq_nil_iff.mp h).2
    | shutdownInLoop => exact h
    | _ => exact ih h

theorem trailing_tail {f : Functor} {fs : List Functor} (h : Trailing (f :: fs)) : Trailing fs := by
  cases f with
  | shutdownInLoop => exact trailing_of_empty fs h
  | _ => exact h

theorem trailing_append (fs gs : List Functor) (h : Trailing fs) (hg : Trailing gs)
    (hn : .shutdownInLoop ∈ fs → queuedBytes gs = []) : Trailing (fs ++ gs) := by
  induction fs with
  | nil => exact hg
  | cons f fs ih =>
    cases f with
    | shutdownInLoop =>
      have hfs : queuedBytes fs = [] := h
      have hgs : queuedBytes gs = [] := hn List.mem_cons_self
      change queuedBytes (fs ++ gs) = []
      rw [queuedBytes_append, hfs, hgs]
      rfl
    | _ => exact ih h (fun hm => hn (List.mem_cons_of_mem _ hm))

theorem queuedBytes_callbacks (fs : List Functor) (h : ∀ f ∈ fs, f.isCallback = true) :
    queuedBytes fs = [] ∧ .shutdownInLoop ∉ fs := by
  induction fs with
  | nil => exact ⟨rfl, List.not_mem_nil⟩
  | cons f fs ih =>
    obtain ⟨h1, h2⟩ := ih (fun g hg => h g (List.mem_cons_of_mem _ hg))
    have hf : f.isCallback = true := h f List.mem_cons_self
    cases f with
    | writeComplete => exact ⟨h1, by simpa using h2⟩
    | highWaterMark n => exact ⟨h1, by simpa using h2⟩
    | _ => cases hf

/-! ### The stream of the calling thread -/

def past : WorkerPc → Bool
  | .stored | .lastPushed | .returned => true
  | _ => false

def allSent : WorkerPc → Bool
  | .closing | .stored | .lastPushed | .returned => true
  | _ => false

structure Inv (total : Bytes) (s : HalfClose) : Prop where
  queue : s.loop.QueueInv
  tracked : s.conn.Tracked
  state : s.conn.state = if past s.pc = true then .kDisconnecting else .kConnected
  stream : written s.trace ++ s.conn.outputBuffer.contents ++ queuedBytes (queued s.loop) ++
    s.todo.flatten = total
  todo : allSent s.pc = true → s.todo = []
  last : .shutdownInLoop ∈ queued s.loop → s.pc = .lastPushed ∨ s.pc = .returned
  trailing : Trailing (queued s.loop)

theorem Inv.open {total : Bytes} {s : HalfClose} (hi : s.Inv total) :
    s.conn.state ≠ .kDisconnected := by
  rw [hi.state]
  split <;> simp

theorem Inv.pushedAll {total : Bytes} {s : HalfClose} (hi : s.Inv total)
    (hs : s.conn.state = .kDisconnecting) : s.todo = [] := by
  apply hi.todo
  have hst := hi.state
  rw [hs] at hst
  revert hst
  cases s.pc <;> simp [past, allSent]

theorem Inv.unpushed {total : Bytes} {s : HalfClose} (hi : s.Inv total)
    (hp : ¬ (s.pc = .lastPushed ∨ s.pc = .returned)) :
    Functor.shutdownInLoop ∉ queued s.loop :=
  fun hm => hp (hi.last hm)

theorem onLoop_spec {total : Bytes} {s : HalfClose} (hi : s.Inv total)
    {a : Loop.Act Functor Unit} {pc : WorkerPc} {todo : List Bytes} {x : Except Assertion HalfClose}
    (h : s.onLoop a pc todo = some x) :
    ∃ l, Loop.Step s.loop a l ∧ l.QueueInv ∧
      x = .ok { s with loop := l, pc := pc, todo := todo } := by
  unfold onLoop at h
  obtain ⟨r, hr, rfl⟩ := Option.map_eq_some_iff.mp h
  obtain ⟨l, rfl, hq⟩ := Loop.step_queueInv s.loop a r hi.queue hr
  exact ⟨l, Loop.step_sound hr, hq, rfl⟩

/-- The step of the calling thread writes nothing and keeps the invariant. -/
theorem worker_inv {total : Bytes} {s : HalfClose} (hi : s.Inv total)
    {x : Except Assertion HalfClose} (h : s.worker = some x) :
    ∃ t, x = .ok t ∧ t.Inv total ∧ t.trace = s.trace := by
  obtain ⟨hqueue, htracked, hstate, hstream, htodo, hlast, htrail⟩ := hi
  have hi : s.Inv total := ⟨hqueue, htracked, hstate, hstream, htodo, hlast, htrail⟩
  unfold worker at h
  split at h
  next m rest hpc ht =>
    have hs : s.conn.state = .kConnected := by rw [hstate, hpc]; rfl
    rw [if_pos hs] at h
    cases h
    refine ⟨_, rfl, ⟨hqueue, htracked, hs, hstream, ?_, ?_, htrail⟩, rfl⟩
    · intro hd; cases hd
    · intro hm
      exact absurd hm (hi.unpushed (by simp [hpc]))
  next hpc ht =>
    have hs : s.conn.state = .kConnected := by rw [hstate, hpc]; rfl
    rw [if_pos hs] at h
    cases h
    refine ⟨_, rfl, ⟨hqueue, htracked, hs, hstream, fun _ => ht, ?_, htrail⟩, rfl⟩
    intro hm
    exact absurd hm (hi.unpushed (by simp [hpc]))
  next m rest hpc ht =>
    obtain ⟨l, hl, hq, rfl⟩ := onLoop_spec hi h
    have hn : Functor.shutdownInLoop ∉ queued s.loop := hi.unpushed (by simp [hpc])
    have hs : s.conn.state = .kConnected := by rw [hstate, hpc]; rfl
    cases hl
    have hqd : queued ((s.loop.push (.other 0) (.sendInLoop m)).setPc 0 .pushed) =
        queued s.loop ++ [.sendInLoop m] := queued_push s.loop (.other 0) (.sendInLoop m)
    refine ⟨_, rfl, ⟨hq, htracked, hs, ?_, ?_, ?_, ?_⟩, rfl⟩
    · rw [ht] at hstream
      rw [← hstream, hqd, queuedBytes_append]
      simp [queuedBytes]
    · intro hd; cases hd
    · rw [hqd]
      simp [hn]
    · rw [hqd]
      exact trailing_append _ _ htrail trivial (fun hm => absurd hm hn)
  · cases h
  next _ hpc =>
    obtain ⟨l, hl, hq, rfl⟩ := onLoop_spec hi h
    have hs : s.conn.state = .kConnected := by rw [hstate, hpc]; rfl
    cases hl
    refine ⟨_, rfl, ⟨hq, htracked, hs, hstream, ?_, ?_, htrail⟩, rfl⟩
    · intro hd; cases hd
    · intro hm
      exact absurd hm (hi.unpushed (by simp [hpc]))
  next hpc =>
    cases h
    refine ⟨_, rfl, ⟨hqueue, htracked, rfl, hstream, ?_, ?_, htrail⟩, rfl⟩
    · intro _; exact htodo (by rw [hpc]; rfl)
    · intro hm
      exact absurd hm (hi.unpushed (by simp [hpc]))
  next _ hpc =>
    obtain ⟨l, hl, hq, rfl⟩ := onLoop_spec hi h
    have hs : s.conn.state = .kDisconnecting := by rw [hstate, hpc]; rfl
    cases hl
    have hqd : queued ((s.loop.push (.other 0) .shutdownInLoop).setPc 0 .pushed) =
        queued s.loop ++ [.shutdownInLoop] := queued_push s.loop (.other 0) .shutdownInLoop
    refine ⟨_, rfl, ⟨hq, htracked, hs, ?_, ?_, fun _ => .inl rfl, ?_⟩, rfl⟩
    · rw [← hstream, hqd, queuedBytes_append]
      simp [queuedBytes]
    · intro _; exact htodo (by rw [hpc]; rfl)
    · rw [hqd]
      exact trailing_append _ _ htrail rfl (fun _ => rfl)
  next _ hpc =>
    obtain ⟨l, hl, hq, rfl⟩ := onLoop_spec hi h
    have hs : s.conn.state = .kDisconnecting := by rw [hstate, hpc]; rfl
    cases hl
    refine ⟨_, rfl, ⟨hq, htracked, hs, hstream, ?_, fun _ => .inr rfl, htrail⟩, rfl⟩
    intro _
    exact htodo (by rw [hpc]; rfl)
  · cases h

/-- What a step of the loop thread runs: `l` is the loop after the step and before
the effects, `c` and `es` what the code run in it returns. -/
structure Ran (s : HalfClose) (a : Act) (l : Loop Functor Unit) (c : Conn) (es : List Effect) :
    Prop where
  stream : written es ++ c.outputBuffer.contents ++ queuedBytes (queued l) =
    s.conn.outputBuffer.contents ++ queuedBytes (queued s.loop)
  tracked : c.Tracked
  state : c.state = s.conn.state
  callbacks : ∀ f, .queueInLoop f ∈ es → f.isCallback = true
  sublist : queued l ⊆ queued s.loop
  trailing : Trailing (queued l)
  closes : .shutdownWrite ∉ es ∧ ¬ Overtakes s a ∨
    ∃ fs, es = fs ++ [.shutdownWrite] ∧ .shutdownWrite ∉ fs ∧ c.outputBuffer.contents = [] ∧
      s.conn.state = .kDisconnecting ∧ (Overtakes s a ↔ queuedBytes (queued l) ≠ [])

theorem ran_quiet {total : Bytes} {s : HalfClose} (hi : s.Inv total) {a : Act}
    {l : Loop Functor Unit} (hq : queued l = queued s.loop) (hn : ¬ Overtakes s a) :
    Ran s a l s.conn [] := by
  refine ⟨by rw [hq]; rfl, hi.tracked, rfl, ?_, ?_, ?_, .inl ⟨List.not_mem_nil, hn⟩⟩
  · intro f hf
    cases hf
  · rw [hq]
    exact List.Subset.refl _
  · rw [hq]
    exact hi.trailing

theorem ran_handleWrite {total : Bytes} {s : HalfClose} (hi : s.Inv total) {w : WriteResult}
    {l : Loop Functor Unit} {rest : List (Active Unit)}
    (hp : s.loop.phase = .handling (.channel () :: rest)) (hq : queued l = queued s.loop)
    (hw : w.Unbroken s.conn.outputBuffer.readableBytes) :
    ∃ c es, s.conn.handleWrite w = .ok (c, es) ∧ Ran s (.io .handle w) l c es := by
  obtain ⟨c, es, he, hd⟩ := Conn.handleWrite_spec s.conn w hw.fits
  have hcb : ∀ f, .queueInLoop f ∈ es ++ s.conn.halfClose w → f.isCallback = true :=
    fun f hf => Conn.handleWrite_callbacks he hf
  have hwr : written (s.conn.halfClose w) = [] := by
    unfold Conn.halfClose
    split <;> rfl
  have hst : written (es ++ s.conn.halfClose w) ++ c.outputBuffer.contents ++
      queuedBytes (queued l) = s.conn.outputBuffer.contents ++ queuedBytes (queued s.loop) := by
    rw [hq, written_append, hwr, List.append_nil, hd.stream]
  have hsub : queued l ⊆ queued s.loop := by
    rw [hq]
    exact List.Subset.refl _
  have htr : Trailing (queued l) := by
    rw [hq]
    exact hi.trailing
  refine ⟨c, _, he, hst, hd.tracked hi.tracked, hd.state, hcb, hsub, htr, ?_⟩
  by_cases hc : s.conn.Drains w ∧ s.conn.state = .kDisconnecting
  · refine .inr ⟨es, by rw [Conn.halfClose, if_pos hc], hd.quiet, hd.drained hc.1, hc.2, ?_⟩
    rw [hq]
    constructor
    · intro hx
      obtain ⟨_, _, _, _, _, _, hne⟩ := hx
      exact hne
    · intro hne
      exact ⟨w, rest, rfl, hp, hc.1, hc.2, hne⟩
  · refine .inl ⟨by rw [Conn.halfClose, if_neg hc, List.append_nil]; exact hd.quiet, ?_⟩
    intro hx
    obtain ⟨w', _, ha, _, hdr, hs, _⟩ := hx
    cases ha
    exact hc ⟨hdr, hs⟩

theorem ran_functor {total : Bytes} {s : HalfClose} (hi : s.Inv total) {w : WriteResult}
    {l : Loop Functor Unit} {f : Functor} (hq : queued s.loop = f :: queued l)
    {q : Except Assertion (Conn × List Effect)} (h : body s.conn w f = some q) :
    ∃ c es, q = .ok (c, es) ∧ Ran s (.io .runFunctor w) l c es := by
  have hn : ¬ Overtakes s (.io .runFunctor w) := by
    intro hx
    obtain ⟨_, _, ha, _⟩ := hx
    cases ha
  have hsub : queued l ⊆ queued s.loop := by
    rw [hq]
    exact List.subset_cons_self f (queued l)
  have htr := hi.trailing
  rw [hq] at htr
  have htl : Trailing (queued l) := trailing_tail htr
  cases f with
  | sendInLoop m =>
    simp only [body] at h
    split at h
    next hw =>
      cases h
      obtain ⟨c, es, he, hst, htk, hstate, hsd⟩ :=
        Conn.sendInLoop_spec s.conn m w hi.open hi.tracked hw
      refine ⟨c, es, he, ?_, htk, hstate, fun f hf => Conn.sendInLoop_callbacks he hf, hsub, htl,
        .inl ⟨hsd, hn⟩⟩
      rw [hq, hst]
      simp [queuedBytes]
    · cases h
  | shutdownInLoop =>
    cases h
    have hempty : queuedBytes (queued l) = [] := htr
    have hst : written s.conn.shutdownInLoop ++ s.conn.outputBuffer.contents ++
        queuedBytes (queued l) = s.conn.outputBuffer.contents ++ queuedBytes (queued s.loop) := by
      rw [hq, Stream.written_shutdownInLoop]
      rfl
    have hcb : ∀ f, .queueInLoop f ∈ s.conn.shutdownInLoop → f.isCallback = true := by
      intro f hf
      unfold Conn.shutdownInLoop at hf
      split at hf
      · simp at hf
      · cases hf
    refine ⟨s.conn, _, rfl, hst, hi.tracked, rfl, hcb, hsub, htl, ?_⟩
    unfold Conn.shutdownInLoop
    split
    next hw =>
      have hpc := hi.last (by rw [hq]; exact List.mem_cons_self)
      have hs : s.conn.state = .kDisconnecting := by
        rw [hi.state]
        rcases hpc with hpc | hpc <;> rw [hpc] <;> rfl
      refine .inr ⟨[], rfl, List.not_mem_nil, hi.tracked.idle.mp hw, hs, ?_⟩
      exact ⟨fun ho => absurd ho hn, fun hne => absurd hempty hne⟩
    · exact .inl ⟨List.not_mem_nil, hn⟩
  | writeComplete =>
    cases h
    refine ⟨s.conn, [], rfl, ?_, hi.tracked, rfl, ?_, hsub, htl, .inl ⟨List.not_mem_nil, hn⟩⟩
    · rw [hq]; rfl
    · intro f hf; cases hf
  | highWaterMark n =>
    cases h
    refine ⟨s.conn, [], rfl, ?_, hi.tracked, rfl, ?_, hsub, htl, .inl ⟨List.not_mem_nil, hn⟩⟩
    · rw [hq]; rfl
    · intro f hf; cases hf
  | _ => cases h

theorem runs_spec {total : Bytes} {s : HalfClose} (hi : s.Inv total)
    {a : Loop.Act Functor Unit} {w : WriteResult} {l : Loop Functor Unit}
    (hl : Loop.Step s.loop a l) (ho : ofLoop a = true)
    {q : Except Assertion (Conn × List Effect)} (h : s.runs a w = some q) :
    ∃ c es, q = .ok (c, es) ∧ Ran s (.io a w) l c es := by
  by_cases ha : a = .runFunctor
  · subst ha
    cases hl with
    | runFunctor task rest hp hf =>
      simp only [runs, hp, hf] at h
      exact ran_functor hi (by simp [queued, hf]) h
  · have hq : queued l = queued s.loop := queued_ofLoop hl hi.queue ho ha
    unfold runs at h
    split at h
    next hp =>
      split at h
      next hw =>
        cases h
        exact ran_handleWrite hi hp hq hw
      · cases h
    · exact absurd rfl ha
    next hn _ =>
      cases h
      refine ⟨s.conn, [], rfl, ran_quiet hi hq ?_⟩
      intro hx
      obtain ⟨w', rest, he, hp, _⟩ := hx
      cases he
      exact hn _ rfl hp

/-! ### Half-closes in the trace -/

theorem complete_concat (total : Bytes) (tr : List Effect) (e : Effect) :
    Complete total (tr ++ [e]) ↔
      Complete total tr ∧ (e = .shutdownWrite → total <+: written tr) := by
  constructor
  · intro h
    refine ⟨?_, ?_⟩
    · intro pre post he
      exact h pre (post ++ [e]) (by rw [he, List.append_assoc, List.cons_append])
    · intro hx
      subst hx
      exact h tr [] rfl
  · rintro ⟨h, hlast⟩ pre post he
    rcases List.eq_nil_or_concat post with rfl | ⟨mid, x, rfl⟩
    · obtain ⟨rfl, hx⟩ := List.append_inj' he rfl
      cases hx
      exact hlast rfl
    · have he' : tr ++ [e] = (pre ++ .shutdownWrite :: mid) ++ [x] := by
        rw [he, List.append_assoc, List.cons_append, List.concat_eq_append]
      obtain ⟨htr, _⟩ := List.append_inj' he' rfl
      exact h pre mid htr

theorem complete_append (total : Bytes) (tr es : List Effect) (hn : .shutdownWrite ∉ es) :
    Complete total (tr ++ es) ↔ Complete total tr := by
  induction es generalizing tr with
  | nil => rw [List.append_nil]
  | cons e es ih =>
    simp only [List.mem_cons, not_or] at hn
    rw [← List.singleton_append, ← List.append_assoc, ih (tr ++ [e]) hn.2, complete_concat]
    exact and_iff_left (fun he => absurd he.symm hn.1)

/-- With nothing left to write, the half-close is complete exactly when no message
waits in the queue. -/
theorem Ran.complete {total : Bytes} {s : HalfClose} (hi : s.Inv total) {a : Act}
    {l : Loop Functor Unit} {c : Conn} {es : List Effect} (hr : Ran s a l c es) :
    Complete total (s.trace ++ es) ↔ Complete total s.trace ∧ ¬ Overtakes s a := by
  rcases hr.closes with ⟨hn, ho⟩ | ⟨fs, rfl, hn, hempty, hs, ho⟩
  · rw [complete_append total s.trace es hn]
    exact (and_iff_left ho).symm
  · rw [← List.append_assoc, complete_concat, complete_append total s.trace fs hn, ho]
    have hst := hr.stream
    rw [written_append, hempty] at hst
    simp only [written, List.append_nil] at hst
    have htotal : written (s.trace ++ fs) ++ queuedBytes (queued l) = total := by
      rw [← hi.stream, hi.pushedAll hs, written_append, List.append_assoc, hst]
      simp
    refine and_congr_right fun _ => ?_
    constructor
    · intro hpre hne
      have hlen := (hpre rfl).length_le
      have hpos := List.length_pos_iff.mpr hne
      rw [← htotal, List.length_append] at hlen
      omega
    · intro hne _
      have hnil : queuedBytes (queued l) = [] := not_not.mp hne
      rw [hnil, List.append_nil] at htotal
      exact ⟨[], (List.append_nil total).trans htotal.symm⟩

theorem io_inv {total : Bytes} {s : HalfClose} (hi : s.Inv total) {a : Loop.Act Functor Unit}
    {w : WriteResult} {x : Except Assertion HalfClose} (h : s.io a w = some x) :
    ∃ t, x = .ok t ∧ t.Inv total ∧
      (Complete total t.trace ↔ Complete total s.trace ∧ ¬ Overtakes s (.io a w)) := by
  unfold io at h
  split at h
  next ho =>
    obtain ⟨r, hstep, h⟩ := Option.bind_eq_some_iff.mp h
    obtain ⟨q, hruns, h⟩ := Option.bind_eq_some_iff.mp h
    obtain ⟨l, rfl, hq⟩ := Loop.step_queueInv s.loop a r hi.queue hstep
    obtain ⟨c, es, rfl, hr⟩ := runs_spec hi (Loop.step_sound hstep) ho hruns
    cases h
    obtain ⟨hfq, hfe⟩ := foldl_applyEffect es l hq
    have hcb : ∀ f ∈ queuedBy es, f.isCallback = true :=
      fun f hf => hr.callbacks f (mem_queuedBy hf)
    obtain ⟨hbytes, hnot⟩ := queuedBytes_callbacks (queuedBy es) hcb
    refine ⟨_, rfl, ⟨hfq, hr.tracked, ?_, ?_, hi.todo, ?_, ?_⟩, hr.complete hi⟩
    · exact hr.state.trans hi.state
    · have hst := hr.stream
      rw [List.append_assoc] at hst
      simp only [hfe, queuedBytes_append, hbytes, List.append_nil, written_append]
      rw [← hi.stream]
      simp only [List.append_assoc]
      rw [← List.append_assoc (written es), ← List.append_assoc (written es ++ _)]
      rw [hr.stream]
      simp only [List.append_assoc]
    · intro hm
      rw [hfe] at hm
      rcases List.mem_append.mp hm with hm | hm
      · exact hi.last (hr.sublist hm)
      · exact absurd hm hnot
    · rw [hfe]
      exact trailing_append _ _ hr.trailing (trailing_of_empty _ hbytes) (fun _ => hbytes)
  · cases h

theorem step_exact (total : Bytes) (s : HalfClose) (a : Act) (x : Except Assertion HalfClose)
    (hi : s.Inv total) (h : s.step a = some x) :
    ∃ t, x = .ok t ∧ t.Inv total ∧
      (Complete total t.trace ↔ Complete total s.trace ∧ ¬ Overtakes s a) := by
  cases a with
  | worker =>
    obtain ⟨t, rfl, ht, htr⟩ := worker_inv hi h
    refine ⟨t, rfl, ht, ?_⟩
    rw [htr]
    refine (and_iff_left ?_).symm
    intro hx
    obtain ⟨_, _, ha, _⟩ := hx
    cases ha
  | io a w => exact io_inv hi h

theorem new_inv (c : Conn) (ms : List Bytes) (hc : c.state = .kConnected) (ht : c.Tracked) :
    (new c ms).Inv (c.outputBuffer.contents ++ ms.flatten) := by
  refine ⟨Loop.new_queueInv, ht, hc, ?_, ?_, ?_, trivial⟩
  · simp [new, written, queued, Loop.new, queuedBytes]
  · intro h; cases h
  · intro h; cases h

/-- Every half-close of a run comes after all messages of the calling thread went
to the kernel exactly when no `handleWrite` of the run empties the output buffer
in `kDisconnecting` while messages wait in the queue of the loop. -/
theorem half_close_complete (c : Conn) (ms : List Bytes) (hc : c.state = .kConnected)
    (ht : c.Tracked) (acts : List Act) (x : Except Assertion HalfClose)
    (h : (machine c ms).run (new c ms) acts = some x) :
    ∃ s, x = .ok s ∧
      (Complete (c.outputBuffer.contents ++ ms.flatten) s.trace ↔
        (machine c ms).Along (fun s a => ¬ Overtakes s a) (new c ms) acts) := by
  obtain ⟨s, hx, _, hq⟩ :=
    Machine.run_exact (m := machine c ms) (Q := fun s => Complete _ s.trace)
      (step_exact (c.outputBuffer.contents ++ ms.flatten)) (new_inv c ms hc ht) h
  refine ⟨s, hx, hq.trans (and_iff_right ?_)⟩
  intro pre post he
  simp [new] at he

/- One iteration of the loop that finds the wakeup channel readable and runs one
functor, with `w` as the answer to a write of that functor. -/
def iteration (w : WriteResult) : List Act :=
  [.io (.pollReturn [.wakeupChannel]) w, .io .handle w, .io .endHandling w, .io .swap w,
    .io .runFunctor w, .io .endRunning w, .io .endDestroying w, .io .testQuit w]

/- The loop is entered, `send` of the first message leaves it in the buffer. -/
def firstMessage : List Act :=
  [.io .loop (.wrote 0), .io .resetQuit (.wrote 0), .io .testQuit (.wrote 0), .worker, .worker,
    .worker] ++ iteration (.failed .EWOULDBLOCK)

/- The loop has run every functor when the buffer is drained. -/
def inOrderActs : List Act :=
  firstMessage ++ [.worker, .worker, .worker, .worker, .worker] ++ iteration (.wrote 0) ++
    [.io (.pollReturn [.channel ()]) (.wrote 0), .io .handle (.wrote 2)]

/- The second message is still in the queue when the first one is drained. -/
def overtakingActs : List Act :=
  firstMessage ++ [.worker, .worker, .worker, .worker, .worker,
    .io (.pollReturn [.channel ()]) (.wrote 0), .io .handle (.wrote 1)]

def atChannel : Phase Unit → Bool
  | .handling (.channel () :: _) => true
  | _ => false

theorem atChannel_iff (p : Phase Unit) :
    atChannel p = true ↔ ∃ rest, p = .handling (.channel () :: rest) := by
  constructor
  · intro h
    unfold atChannel at h
    split at h
    next rest => exact ⟨rest, rfl⟩
    · cases h
  · intro hx
    obtain ⟨rest, rfl⟩ := hx
    rfl

instance (s : HalfClose) (a : Act) : Decidable (Overtakes s a) := by
  cases a with
  | worker => exact isFalse (by rintro ⟨_, _, h, _⟩; cases h)
  | io a w =>
    cases a with
    | handle =>
      refine decidable_of_iff (atChannel s.loop.phase = true ∧ s.conn.Drains w ∧
        s.conn.state = .kDisconnecting ∧ queuedBytes (queued s.loop) ≠ []) ?_
      rw [atChannel_iff]
      constructor
      · intro hx
        obtain ⟨⟨rest, hp⟩, h⟩ := hx
        exact ⟨w, rest, rfl, hp, h⟩
      · intro hx
        obtain ⟨_, rest, he, hp, h⟩ := hx
        cases he
        exact ⟨⟨rest, hp⟩, h⟩
    | _ => exact isFalse (by rintro ⟨_, _, h, _⟩; cases h)

def sampleConn : Conn := Conn.established 64 false false

theorem half_close_complete_in_order :
    ∃ s, (machine sampleConn [[1], [2]]).run (new sampleConn [[1], [2]]) inOrderActs =
        some (.ok s) ∧
      s.trace = [.write [1, 2], .shutdownWrite] ∧ Complete [1, 2] s.trace := by
  have hr : (machine sampleConn [[1], [2]]).runsTo (new sampleConn [[1], [2]]) inOrderActs
      (fun s => decide (s.trace = [.write [1, 2], .shutdownWrite])) = true := by
    decide +kernel
  obtain ⟨s, hs, hp⟩ := Machine.exists_of_runsTo hr
  obtain ⟨t, ht, hc⟩ := half_close_complete sampleConn [[1], [2]] rfl
    (Conn.established_tracked 64 false false) inOrderActs _ hs
  cases ht
  have hal : (machine sampleConn [[1], [2]]).Along (fun s a => ¬ Overtakes s a)
      (new sampleConn [[1], [2]]) inOrderActs := by
    decide +kernel
  exact ⟨s, hs, of_decide_eq_true hp, hc.mpr hal⟩

theorem half_close_truncates :
    ∃ s, (machine sampleConn [[1], [2]]).run (new sampleConn [[1], [2]]) overtakingActs =
        some (.ok s) ∧ ¬ Complete [1, 2] s.trace := by
  have hr : (machine sampleConn [[1], [2]]).runsTo (new sampleConn [[1], [2]]) overtakingActs
      (fun s => decide (s.trace = [.write [1], .shutdownWrite])) = true := by
    decide +kernel
  obtain ⟨s, hs, hp⟩ := Machine.exists_of_runsTo hr
  refine ⟨s, hs, fun hc => ?_⟩
  have hpre := hc [.write [1]] [] (of_decide_eq_true hp)
  have hlen := hpre.length_le
  simp [written] at hlen

end HalfClose
end TstMuduo.Net
