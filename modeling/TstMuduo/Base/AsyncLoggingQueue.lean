import TstMuduo.Base.AsyncLogging
import TstMuduo.Base.BlockingQueue

/-!
# A logger over a queue (examples/tstlog/AsyncLoggingQueue.h)

`AsyncLoggingUnboundedQueue`: the constructor leaves `queue_` to its default constructor, which
the bounded queue does not have. An empty message is what `stop()` puts to end the logging
thread, and the thread asserts that nobody else does.
-/

namespace TstMuduo.Base
open TstMuduo.Lib

/-- Who put a message: a call of `append`, or `stop()`. -/
inductive MsgSource where
  | append
  | stop
  deriving DecidableEq, Repr

structure QueuedMsg where
  source : MsgSource
  text : Bytes
  deriving DecidableEq, Repr

/-- Where the logging thread is: before its next `take()`, in it, with the message that it
returned, or gone. -/
inductive QueueLogger where
  | notStarted
  | idle
  | inTake
  | has (msg : QueuedMsg)
  | exited
  deriving DecidableEq, Repr

/-- Where `stop()` is: it has cleared `running_`, or put its message and waits in `join()`, or
has returned. -/
inductive QueueStop where
  | notCalled
  | cleared
  | stopping
  | returned
  deriving DecidableEq, Repr

inductive QueueLogFault where
  | queue (e : QueueFault)
  | emptyWhileRunning
  deriving DecidableEq, Repr

/-- The last field is not in the source: what was in the queue or through it when `stop()` was
called. -/
structure AsyncLoggingT where
  running : Bool
  queue : BlockingQueue QueuedMsg
  logger : QueueLogger
  stopCall : QueueStop
  output : List Bytes
  flushed : Bool
  before : List QueuedMsg
  deriving DecidableEq, Repr

inductive QueueLogAction where
  | append (logline : Bytes) (k : Nat)
  | start
  | take
  | resumeTake (w : Wakeup) (j : Nat)
  | wakeTake (j : Nat)
  | handle
  | stop
  | stopPut (k : Nat)
  | stopReturn
  deriving DecidableEq, Repr

def QueuedMsg.isAppend (m : QueuedMsg) : Bool := decide (m.source = .append)

namespace AsyncLoggingT

def new : AsyncLoggingT := ⟨false, .new, .notStarted, .notCalled, [], false, []⟩

def onQueue (s : AsyncLoggingT) (a : QueueAction QueuedMsg)
    (logger : BlockingQueue QueuedMsg → QueueLogger) :
    Option (Except QueueLogFault AsyncLoggingT) :=
  match s.queue.step a with
  | none => none
  | some (.error e) => some (.error (.queue e))
  | some (.ok q) => some (.ok { s with queue := q, logger := logger q })

def received (s : AsyncLoggingT) (q : BlockingQueue QueuedMsg) : QueueLogger :=
  match q.taken.drop s.queue.taken.length with
  | [] => .inTake
  | (_, msg) :: _ => .has msg

/- The loop body of `threadFunc` behind `take()` (`AsyncLoggingQueue.h:64`). -/
def handle (s : AsyncLoggingT) (msg : QueuedMsg) : Except QueueLogFault AsyncLoggingT :=
  if msg.text.isEmpty then do
    check (s.running = false) .emptyWhileRunning
    return { s with logger := .exited, flushed := true }
  else return { s with logger := .idle, output := s.output ++ [msg.text] }

def step (s : AsyncLoggingT) : QueueLogAction → Option (Except QueueLogFault AsyncLoggingT)
  | .append logline k => s.onQueue (.put ⟨.append, logline⟩ k) fun _ => s.logger
  | .wakeTake j => s.onQueue (.wakeTake j) fun _ => s.logger
  | .start =>
    if s.logger = .notStarted ∧ s.stopCall = .notCalled then
      some (.ok { s with running := true, logger := .idle })
    else none
  | .take => if s.logger = .idle then s.onQueue (.take 0 0) s.received else none
  | .resumeTake w j =>
    if s.logger = .inTake then s.onQueue (.resumeTake w j 0) s.received else none
  | .handle =>
    match s.logger with
    | .has msg => some (s.handle msg)
    | _ => none
  | .stop =>
    if s.running = true ∧ s.stopCall = .notCalled then
      some (.ok { s with running := false, stopCall := .cleared, before := s.queue.puts })
    else none
  | .stopPut k =>
    if s.stopCall = .cleared then
      { s with stopCall := .stopping }.onQueue (.put ⟨.stop, []⟩ k) fun _ => s.logger
    else none
  | .stopReturn =>
    if s.stopCall = .stopping ∧ s.logger = .exited then
      some (.ok { s with stopCall := .returned })
    else none

end AsyncLoggingT

/-! ### What the calls do to the queue -/

namespace BlockingQueue

variable {T : Type} {s t : BlockingQueue T}

/-- Neither a `put` nor a spurious wakeup takes anything. -/
structure Kept (s t : BlockingQueue T) : Prop where
  taken : t.taken = s.taken
  takers : t.notEmpty.threads.Perm s.notEmpty.threads

theorem Kept.put {e : T} {k : Nat} (h : s.step (.put e k) = some (.ok t)) :
    s.Kept t ∧ t.puts = s.puts ++ [e] := by
  simp only [BlockingQueue.step, putLocked] at h
  split at h
  · cases h
  next ne hne =>
    cases h
    exact ⟨⟨rfl, Condition.perm_threads_notify hne⟩, rfl⟩

theorem Kept.wakeTake {j : Nat} (h : s.step (.wakeTake j) = some (.ok t)) :
    s.Kept t ∧ t.puts = s.puts := by
  simp only [BlockingQueue.step] at h
  split at h
  · cases h
  next ne hne =>
    cases h
    exact ⟨⟨rfl, Condition.perm_threads_wakeSpuriously hne⟩, rfl⟩

/-- A `take()` waits, or has taken one element. -/
structure Took (s t : BlockingQueue T) : Prop where
  puts : t.puts = s.puts
  cases : (t.taken = s.taken ∧ t.notEmpty.threads ≠ []) ∨
    ∃ i e, t.taken = s.taken ++ [(i, e)]

theorem Took.takeLocked {i : Nat} (h : s.takeLocked i = some (.ok t)) : s.Took t := by
  unfold BlockingQueue.takeLocked at h
  split at h
  · cases h
    refine ⟨rfl, .inl ⟨rfl, ?_⟩⟩
    intro hnil
    have hperm := Condition.perm_threads_wait (c := s.notEmpty) (i := i)
    rw [hnil] at hperm
    cases hperm.symm.eq_nil
  next front rest _ =>
    cases h
    exact ⟨rfl, .inr ⟨i, front, rfl⟩⟩

theorem Took.take {i k : Nat} (h : s.step (.take i k) = some (.ok t)) : s.Took t := by
  have hk := Took.takeLocked (s := { s with takes := s.takes ++ [i] }) h
  exact ⟨hk.puts, hk.cases⟩

theorem Took.resumeTake {w : Wakeup} {j k : Nat}
    (h : s.step (.resumeTake w j k) = some (.ok t)) : s.Took t := by
  simp only [BlockingQueue.step] at h
  split at h
  · cases h
  next i ne _ =>
    have hk := Took.takeLocked h
    exact ⟨hk.puts, hk.cases⟩

end BlockingQueue

namespace AsyncLoggingT

open BlockingQueue

variable {s t : AsyncLoggingT}

theorem onQueue_cases {a : QueueAction QueuedMsg} {f : BlockingQueue QueuedMsg → QueueLogger}
    {x : Except QueueLogFault AsyncLoggingT} (hs : s.queue.Inv) (h : s.onQueue a f = some x) :
    ∃ q, s.queue.step a = some (.ok q) ∧ q.Inv ∧
      x = .ok { s with queue := q, logger := f q } := by
  unfold onQueue at h
  split at h
  · cases h
  next e he =>
    obtain ⟨q, hq, _⟩ := hs.step he
    cases hq
  next q hq =>
    cases h
    obtain ⟨u, hu, hinv⟩ := hs.step hq
    cases hu
    exact ⟨q, hq, hinv, rfl⟩

/- The messages `done` came from `append`, and `output` is what they are written as. -/
structure Wrote (output : List Bytes) (done : List QueuedMsg) : Prop where
  appends : ∀ m ∈ done, m.source = .append
  output : output = done.map QueuedMsg.text

/- What the logging thread has done with what it took. -/
def Phase (q : BlockingQueue QueuedMsg) (output : List Bytes) (flushed : Bool) :
    QueueLogger → Prop
  | .notStarted | .idle => Wrote output (q.taken.map Prod.snd)
  | .inTake => Wrote output (q.taken.map Prod.snd) ∧ q.notEmpty.threads ≠ []
  | .has msg => ∃ done, q.taken.map Prod.snd = done ++ [msg] ∧ Wrote output done
  | .exited => flushed = true ∧
      ∃ done msg, q.taken.map Prod.snd = done ++ [msg] ∧ msg.source = .stop ∧ Wrote output done

structure Inv (s : AsyncLoggingT) : Prop where
  queue : s.queue.Inv
  phase : Phase s.queue s.output s.flushed s.logger
  appended : ∀ m ∈ s.queue.puts, m.source = .append → m.text ≠ []
  stopMsg : ∀ m ∈ s.queue.puts, m.source = .stop →
    m.text = [] ∧ s.stopCall ≠ .notCalled ∧ s.stopCall ≠ .cleared
  stopPut : s.stopCall = .stopping → ∃ m ∈ s.queue.puts, m.source = .stop
  stopped : s.stopCall ≠ .notCalled → s.running = false
  before : s.before <+: s.queue.puts
  beforeAppends : ∀ m ∈ s.before, m.source = .append
  returned : s.stopCall = .returned → s.logger = .exited

theorem Inv.new : new.Inv where
  queue := .new
  phase := ⟨by simp [AsyncLoggingT.new, BlockingQueue.new], rfl⟩
  appended := by simp [AsyncLoggingT.new, BlockingQueue.new]
  stopMsg := by simp [AsyncLoggingT.new, BlockingQueue.new]
  stopPut := fun h => by cases h
  stopped := fun h => absurd rfl h
  before := List.prefix_refl _
  beforeAppends := by simp [AsyncLoggingT.new]
  returned := fun h => by cases h

theorem Phase.kept {q r : BlockingQueue QueuedMsg} {output : List Bytes} {flushed : Bool}
    {l : QueueLogger} (hk : q.Kept r) (h : Phase q output flushed l) :
    Phase r output flushed l := by
  cases l with
  | inTake =>
    simp only [Phase, hk.taken] at h ⊢
    refine ⟨h.1, ?_⟩
    intro hnil
    have hperm := hk.takers
    rw [hnil] at hperm
    exact h.2 hperm.symm.eq_nil
  | notStarted | idle | has | exited =>
    simp only [Phase, hk.taken] at h ⊢
    exact h

theorem Inv.kept {q : BlockingQueue QueuedMsg} (hs : s.Inv) (hq : q.Inv) (hk : s.queue.Kept q)
    (hp : q.puts = s.queue.puts) : { s with queue := q }.Inv where
  queue := hq
  phase := Phase.kept hk hs.phase
  appended := by
    change ∀ m ∈ q.puts, _
    rw [hp]
    exact hs.appended
  stopMsg := by
    change ∀ m ∈ q.puts, _
    rw [hp]
    exact hs.stopMsg
  stopPut := by
    intro h
    change ∃ m ∈ q.puts, _
    rw [hp]
    exact hs.stopPut h
  stopped := hs.stopped
  before := by
    change s.before <+: q.puts
    rw [hp]
    exact hs.before
  beforeAppends := hs.beforeAppends
  returned := hs.returned

theorem Inv.took {q : BlockingQueue QueuedMsg} (hs : s.Inv) (hq : q.Inv) (hk : s.queue.Took q)
    (hw : Wrote s.output (s.queue.taken.map Prod.snd)) (hstop : s.stopCall ≠ .returned) :
    { s with queue := q, logger := s.received q }.Inv where
  queue := hq
  phase := by
    rcases hk.cases with ⟨ht, hwait⟩ | ⟨i, e, ht⟩
    · have hr : s.received q = .inTake := by
        unfold received
        rw [ht, List.drop_length]
      rw [hr]
      exact ⟨by rw [ht]; exact hw, hwait⟩
    · have hr : s.received q = .has e := by
        unfold received
        rw [ht, List.drop_left]
      rw [hr]
      refine ⟨s.queue.taken.map Prod.snd, ?_, hw⟩
      change q.taken.map Prod.snd = _
      rw [ht, List.map_append]
      rfl
  appended := by
    change ∀ m ∈ q.puts, _
    rw [hk.puts]
    exact hs.appended
  stopMsg := by
    change ∀ m ∈ q.puts, _
    rw [hk.puts]
    exact hs.stopMsg
  stopPut := by
    intro h
    change ∃ m ∈ q.puts, _
    rw [hk.puts]
    exact hs.stopPut h
  stopped := hs.stopped
  before := by
    change s.before <+: q.puts
    rw [hk.puts]
    exact hs.before
  beforeAppends := hs.beforeAppends
  returned := fun h => absurd h hstop

theorem Inv.mem_puts (hs : s.Inv) {m : QueuedMsg} :
    m ∈ s.queue.puts ↔ m ∈ s.queue.taken.map Prod.snd ∨ m ∈ s.queue.queue := by
  rw [← hs.queue.order, List.mem_append]

theorem Inv.handle {msg : QueuedMsg} {x : Except QueueLogFault AsyncLoggingT}
    (hs : s.Inv) (hl : s.logger = .has msg) (h : s.handle msg = x) :
    ∃ t, x = .ok t ∧ t.Inv := by
  have hphase := hs.phase
  rw [hl] at hphase
  obtain ⟨done, htaken, hw⟩ := hphase
  have hput : msg ∈ s.queue.puts := by
    rw [hs.mem_puts, htaken]
    exact .inl (List.mem_append_right _ List.mem_cons_self)
  have hnot : s.stopCall ≠ .returned := by
    intro hr
    cases hl.symm.trans (hs.returned hr)
  unfold AsyncLoggingT.handle at h
  split at h
  next hempty =>
    have htext : msg.text = [] := List.isEmpty_iff.mp hempty
    have hsource : msg.source = .stop := by
      cases hm : msg.source with
      | append => exact absurd htext (hs.appended msg hput hm)
      | stop => rfl
    have hrun := hs.stopped (hs.stopMsg msg hput hsource).2.1
    rw [check_ok hrun] at h
    refine ⟨_, h.symm, hs.queue, ?_, hs.appended, hs.stopMsg, hs.stopPut,
      hs.stopped, hs.before, hs.beforeAppends,
      fun _ => rfl⟩
    exact ⟨rfl, done, msg, htaken, hsource, hw⟩
  next hempty =>
    have htext : msg.text ≠ [] := fun he => hempty (List.isEmpty_iff.mpr he)
    have hsource : msg.source = .append := by
      cases hm : msg.source with
      | append => rfl
      | stop => exact absurd (hs.stopMsg msg hput hm).1 htext
    refine ⟨_, h.symm, hs.queue, ⟨?_, ?_⟩, hs.appended, hs.stopMsg, hs.stopPut,
      hs.stopped, hs.before, hs.beforeAppends,
      fun hr => absurd hr hnot⟩
    · change ∀ m ∈ s.queue.taken.map Prod.snd, _
      rw [htaken]
      intro m hm
      rcases List.mem_append.mp hm with hm | hm
      · exact hw.appends m hm
      · rw [List.mem_singleton.mp hm]
        exact hsource
    · change s.output ++ [msg.text] = (s.queue.taken.map Prod.snd).map QueuedMsg.text
      rw [htaken, List.map_append, hw.output]
      rfl

/- No caller of `append` passes an empty line. -/
def NonEmptyLines (_ : AsyncLoggingT) : QueueLogAction → Prop
  | .append logline _ => logline ≠ []
  | _ => True

instance (s : AsyncLoggingT) (a : QueueLogAction) : Decidable (s.NonEmptyLines a) :=
  match a with
  | .append logline _ => inferInstanceAs (Decidable (logline ≠ []))
  | .start | .take | .resumeTake _ _ | .wakeTake _ | .handle | .stop | .stopPut _ | .stopReturn => inferInstanceAs (Decidable True)

theorem Inv.append {logline : Bytes} {q : BlockingQueue QueuedMsg} (hs : s.Inv)
    (hne : logline ≠ []) (hq : q.Inv)
    (hk : s.queue.Kept q) (hp : q.puts = s.queue.puts ++ [⟨.append, logline⟩]) :
    { s with queue := q }.Inv where
  queue := hq
  phase := Phase.kept hk hs.phase
  appended := by
    intro m hm hsource
    change m ∈ q.puts at hm
    rw [hp] at hm
    rcases List.mem_append.mp hm with hm | hm
    · exact hs.appended m hm hsource
    · rw [List.mem_singleton.mp hm]
      exact hne
  stopMsg := by
    intro m hm hsource
    change m ∈ q.puts at hm
    rw [hp] at hm
    rcases List.mem_append.mp hm with hm | hm
    · exact hs.stopMsg m hm hsource
    · rw [List.mem_singleton.mp hm] at hsource
      cases hsource
  stopPut := by
    intro h
    obtain ⟨m, hm, hsource⟩ := hs.stopPut h
    refine ⟨m, ?_, hsource⟩
    change m ∈ q.puts
    rw [hp]
    exact List.mem_append_left _ hm
  stopped := hs.stopped
  before := by
    change s.before <+: q.puts
    rw [hp]
    exact hs.before.trans (List.prefix_append _ _)
  beforeAppends := hs.beforeAppends
  returned := hs.returned

theorem Inv.stopMessage {q : BlockingQueue QueuedMsg} (hs : s.Inv)
    (hc : s.stopCall = .cleared) (hq : q.Inv)
    (hk : s.queue.Kept q) (hp : q.puts = s.queue.puts ++ [⟨.stop, []⟩]) :
    { s with stopCall := .stopping, queue := q }.Inv where
  queue := hq
  phase := Phase.kept hk hs.phase
  appended := by
    intro m hm hsource
    change m ∈ q.puts at hm
    rw [hp] at hm
    rcases List.mem_append.mp hm with hm | hm
    · exact hs.appended m hm hsource
    · rw [List.mem_singleton.mp hm] at hsource
      cases hsource
  stopMsg := by
    intro m hm hsource
    refine ⟨?_, QueueStop.noConfusion, QueueStop.noConfusion⟩
    change m ∈ q.puts at hm
    rw [hp] at hm
    rcases List.mem_append.mp hm with hm | hm
    · exact (hs.stopMsg m hm hsource).1
    · rw [List.mem_singleton.mp hm]
  stopPut := by
    intro _
    refine ⟨⟨.stop, []⟩, ?_, rfl⟩
    change _ ∈ q.puts
    rw [hp]
    exact List.mem_append_right _ List.mem_cons_self
  stopped := by
    intro _
    exact hs.stopped (by rw [hc]; exact QueueStop.noConfusion)
  before := by
    change s.before <+: q.puts
    rw [hp]
    exact hs.before.trans (List.prefix_append _ _)
  beforeAppends := hs.beforeAppends
  returned := fun h => by cases h

theorem Inv.step {a : QueueLogAction} {x : Except QueueLogFault AsyncLoggingT}
    (hs : s.Inv) (hg : s.NonEmptyLines a) (h : s.step a = some x) :
    ∃ t, x = .ok t ∧ t.Inv := by
  cases a with
  | append logline k =>
    obtain ⟨q, hq, hinv, rfl⟩ := onQueue_cases hs.queue h
    obtain ⟨hk, hp⟩ := Kept.put hq
    exact ⟨_, rfl, hs.append hg hinv hk hp⟩
  | wakeTake j =>
    obtain ⟨q, hq, hinv, rfl⟩ := onQueue_cases hs.queue h
    obtain ⟨hk, hp⟩ := Kept.wakeTake hq
    exact ⟨_, rfl, hs.kept hinv hk hp⟩
  | start =>
    simp only [AsyncLoggingT.step] at h
    split at h
    next hst =>
      cases h
      have hphase := hs.phase
      rw [hst.1] at hphase
      exact ⟨_, rfl, hs.queue, hphase, hs.appended,
        hs.stopMsg, hs.stopPut, fun hc => absurd hst.2 hc, hs.before, hs.beforeAppends,
        fun hr => by cases hst.2.symm.trans hr⟩
    · cases h
  | take =>
    simp only [AsyncLoggingT.step] at h
    split at h
    next hl =>
      obtain ⟨q, hq, hinv, rfl⟩ := onQueue_cases hs.queue h
      have hphase := hs.phase
      rw [hl] at hphase
      refine ⟨_, rfl, hs.took hinv (Took.take hq) hphase ?_⟩
      intro hr
      cases hl.symm.trans (hs.returned hr)
    · cases h
  | resumeTake w j =>
    simp only [AsyncLoggingT.step] at h
    split at h
    next hl =>
      obtain ⟨q, hq, hinv, rfl⟩ := onQueue_cases hs.queue h
      have hphase := hs.phase
      rw [hl] at hphase
      refine ⟨_, rfl, hs.took hinv (Took.resumeTake hq) hphase.1 ?_⟩
      intro hr
      cases hl.symm.trans (hs.returned hr)
    · cases h
  | handle =>
    simp only [AsyncLoggingT.step] at h
    split at h
    next msg hl =>
      cases h
      exact hs.handle hl rfl
    · cases h
  | stop =>
    simp only [AsyncLoggingT.step] at h
    split at h
    next hst =>
      cases h
      have hnone : ∀ m ∈ s.queue.puts, m.source = .append := by
        intro m hm
        cases hm' : m.source with
        | append => rfl
        | stop => exact absurd hst.2 (hs.stopMsg m hm hm').2.1
      refine ⟨_, rfl, hs.queue, hs.phase, hs.appended, ?_, fun hc => (by cases hc),
        fun _ => rfl, List.prefix_refl _, hnone,
        fun hr => (by cases hr)⟩
      intro m hm hsource
      rw [hnone m hm] at hsource
      cases hsource
    · cases h
  | stopPut k =>
    simp only [AsyncLoggingT.step] at h
    split at h
    next hc =>
      obtain ⟨q, hq, hinv, rfl⟩ :=
        onQueue_cases (s := { s with stopCall := .stopping }) hs.queue h
      obtain ⟨hk, hp⟩ := Kept.put hq
      exact ⟨_, rfl, hs.stopMessage hc hinv hk hp⟩
    · cases h
  | stopReturn =>
    simp only [AsyncLoggingT.step] at h
    split at h
    next hst =>
      cases h
      exact ⟨_, rfl, hs.queue, hs.phase, hs.appended,
        fun m hm hsource => ⟨(hs.stopMsg m hm hsource).1, QueueStop.noConfusion,
          QueueStop.noConfusion⟩,
        fun hc => (by cases hc), fun _ => hs.stopped (by rw [hst.1]; exact QueueStop.noConfusion),
        hs.before, hs.beforeAppends, fun _ => hst.2⟩
    · cases h

end AsyncLoggingT

def asyncLoggingT : Machine AsyncLoggingT QueueLogAction QueueLogFault where
  init := .new
  step := AsyncLoggingT.step

namespace AsyncLoggingT

variable {s : AsyncLoggingT}

theorem takeWhile_appends {done rest : List QueuedMsg} (h : ∀ m ∈ done, m.source = .append) :
    (done ++ rest).takeWhile QueuedMsg.isAppend = done ++ rest.takeWhile QueuedMsg.isAppend :=
  List.takeWhile_append_of_pos fun m hm => decide_eq_true (h m hm)

theorem Inv.output_prefix (hs : s.Inv) :
    s.output <+: (s.queue.puts.takeWhile QueuedMsg.isAppend).map QueuedMsg.text := by
  have hsplit : ∃ done rest, s.queue.puts = done ++ rest ∧ Wrote s.output done := by
    have hphase := hs.phase
    rw [← hs.queue.order]
    cases hl : s.logger with
    | notStarted | idle => rw [hl] at hphase; exact ⟨_, _, rfl, hphase⟩
    | inTake => rw [hl] at hphase; exact ⟨_, _, rfl, hphase.1⟩
    | has msg =>
      rw [hl] at hphase
      obtain ⟨done, htaken, hw⟩ := hphase
      exact ⟨done, [msg] ++ s.queue.queue, by rw [htaken, List.append_assoc], hw⟩
    | exited =>
      rw [hl] at hphase
      obtain ⟨-, done, msg, htaken, -, hw⟩ := hphase
      exact ⟨done, [msg] ++ s.queue.queue, by rw [htaken, List.append_assoc], hw⟩
  obtain ⟨done, rest, hputs, hw⟩ := hsplit
  rw [hputs, takeWhile_appends hw.appends, List.map_append, hw.output]
  exact List.prefix_append _ _

theorem Inv.exited (hs : s.Inv) (hl : s.logger = .exited) :
    s.output = (s.queue.puts.takeWhile QueuedMsg.isAppend).map QueuedMsg.text ∧
      s.before.map QueuedMsg.text <+: s.output ∧ s.flushed = true := by
  have hphase := hs.phase
  rw [hl] at hphase
  obtain ⟨hflushed, done, msg, htaken, hsource, hw⟩ := hphase
  have hputs : s.queue.puts.takeWhile QueuedMsg.isAppend = done := by
    have hstop : ¬ QueuedMsg.isAppend msg = true := by
      simp [QueuedMsg.isAppend, hsource]
    rw [← hs.queue.order, htaken, List.append_assoc, takeWhile_appends hw.appends,
      List.singleton_append,
      List.takeWhile_cons_of_neg hstop, List.append_nil]
  refine ⟨by rw [hputs, hw.output], ?_, hflushed⟩
  obtain ⟨rest, hrest⟩ := hs.before
  have hbefore : s.before <+: done := by
    rw [← hputs, ← hrest, takeWhile_appends hs.beforeAppends]
    exact List.prefix_append _ _
  rw [hw.output]
  exact hbefore.map QueuedMsg.text

theorem Inv.not_inTake (hs : s.Inv) (hstop : s.stopCall = .stopping)
    (he : s.queue.notEmpty.Settled) : s.logger ≠ .inTake := by
  intro hl
  have hphase := hs.phase
  rw [hl] at hphase
  obtain ⟨hw, hwait⟩ := hphase
  rw [he.threads_eq] at hwait
  have hempty : s.queue.queue.length = 0 := by
    have hle := hs.queue.served hwait
    rw [he.1, List.length_nil] at hle
    omega
  obtain ⟨m, hm, hsource⟩ := hs.stopPut hstop
  rw [hs.mem_puts, List.eq_nil_of_length_eq_zero hempty] at hm
  simp only [List.not_mem_nil, or_false] at hm
  cases (hw.appends m hm).symm.trans hsource

/-- Where no caller appends an empty line, the logger writes what it was given in every order
of steps: its assertion holds, what is written is a prefix of the lines that came into the
queue before the message of `stop()`, and when `stop()` has returned it is all of them, so all
that were in the queue when `stop()` was called, and flushed. `stop()` is not left waiting for
a thread that waits. -/
theorem queue_logger (as : List QueueLogAction) (x : Except QueueLogFault AsyncLoggingT)
    (hg : asyncLoggingT.Along NonEmptyLines .new as)
    (h : asyncLoggingT.run .new as = some x) :
    ∃ t, x = .ok t ∧
      t.output <+: (t.queue.puts.takeWhile QueuedMsg.isAppend).map QueuedMsg.text ∧
      (t.stopCall = .returned →
        t.output = (t.queue.puts.takeWhile QueuedMsg.isAppend).map QueuedMsg.text ∧
        t.before.map QueuedMsg.text <+: t.output ∧ t.flushed = true) ∧
      (t.stopCall = .stopping → t.queue.notEmpty.Settled → t.logger ≠ .inTake) := by
  obtain ⟨t, rfl, hinv⟩ :=
    Machine.run_ok (fun s a x hs hg hx => Inv.step hs hg hx) Inv.new hg h
  exact ⟨t, rfl, hinv.output_prefix, fun hr => hinv.exited (hinv.returned hr),
    fun hstop he => hinv.not_inTake hstop he⟩

/- The thread waits for the second line, which its signal wakes; the third is in the queue when
`stop()` is called, and the fourth gets behind the message of `stop()`. -/
def stopBehindLines : List QueueLogAction :=
  [.append [1] 0, .start, .take, .handle, .take, .append [2] 0, .resumeTake .signal 0,
    .append [3] 0, .stop, .stopPut 0, .append [4] 0, .handle, .take, .handle, .take, .handle,
    .stopReturn]

theorem queue_logger_stop_behind_lines :
    ∃ t, asyncLoggingT.run .new stopBehindLines = some (.ok t) ∧
      t.stopCall = .returned ∧ t.output = [[1], [2], [3]] ∧
      t.output = (t.queue.puts.takeWhile QueuedMsg.isAppend).map QueuedMsg.text ∧
      t.before.map QueuedMsg.text <+: t.output := by
  have hrun : asyncLoggingT.runsTo .new stopBehindLines
      (fun t => t.stopCall == .returned && t.output == [[1], [2], [3]]) = true := by
    decide +kernel
  obtain ⟨t, ht, htest⟩ := Machine.exists_of_runsTo hrun
  simp only [Bool.and_eq_true, beq_iff_eq] at htest
  obtain ⟨u, hu, -, hret, -⟩ := queue_logger stopBehindLines _ (by decide +kernel) ht
  cases hu
  obtain ⟨hall, hbefore, -⟩ := hret htest.1
  exact ⟨t, ht, htest.1, htest.2, hall, hbefore⟩

end AsyncLoggingT

end TstMuduo.Base
