import TstMuduo.Lib.Condition
import TstMuduo.Lib.Machine

/-!
# The thread pool (muduo/base/ThreadPool.h, ThreadPool.cc)

Producers push tasks under the mutex and workers take them out. A section under the
mutex is one action: from its lock, or from the return of a wait, to its end or to the
next wait. Which waiter a notification wakes is part of the action.
-/

namespace TstMuduo.Base
open TstMuduo.Lib

/-- Where a worker is in `runInThread`: at the test of `running_`, before the lock in
`take()`, in the wait on `notEmpty_`, with what `take()` returned, or gone. -/
inductive WorkerState (Task : Type) where
  | test
  | take
  | waiting
  | task (task : Option Task)
  | exited
  deriving DecidableEq, Repr

def WorkerState.isExited {Task : Type} : WorkerState Task → Bool
  | exited => true
  | _ => false

inductive PoolStop where
  | notCalled
  | joining
  | returned
  deriving DecidableEq, Repr

/-- The assert of `run()`. -/
inductive PoolFault where
  | runFull
  deriving DecidableEq, Repr

/-- The pool after `start()`. A producer that waits on `notFull_` is known by its task. The
last three fields are not in the source: the tasks in the order in which they were pushed,
what was taken and by whom, and the tasks that `run()` called itself. -/
structure ThreadPool (Task : Type) where
  running : Bool
  queue : List Task
  notEmpty : Condition Nat
  notFull : Condition Task
  threads : List (WorkerState Task)
  stopCall : PoolStop
  pushed : List Task
  taken : List (Nat × Task)
  called : List Task
  deriving DecidableEq, Repr

namespace ThreadPool

variable {Task : Type}

def start (numThreads : Nat) : ThreadPool Task where
  running := true
  queue := []
  notEmpty := .empty
  notFull := .empty
  threads := List.replicate numThreads .test
  stopCall := .notCalled
  pushed := []
  taken := []
  called := []

def isFull (maxQueueSize : Nat) (s : ThreadPool Task) : Bool :=
  0 < maxQueueSize && maxQueueSize ≤ s.queue.length

/- `run()` with the mutex, from the test of its loop on (`ThreadPool.cc:80`); `k` is the worker
that its notification wakes. -/
def runLocked (maxQueueSize : Nat) (s : ThreadPool Task) (task : Task) (k : Nat) :
    Option (Except PoolFault (ThreadPool Task)) :=
  if s.isFull maxQueueSize then some (.ok { s with notFull := s.notFull.wait task })
  else
    match s.notEmpty.notify k with
    | none => none
    | some notEmpty => some do
      check (s.isFull maxQueueSize = false) .runFull
      return { s with
        queue := s.queue ++ [task]
        notEmpty := notEmpty
        pushed := s.pushed ++ [task] }

/- `take()` of worker `i` with the mutex, from the test of its loop on (`ThreadPool.cc:117`);
`k` is the producer that its notification wakes. -/
def takeLocked (maxQueueSize : Nat) (s : ThreadPool Task) (i k : Nat) :
    Option (Except PoolFault (ThreadPool Task)) :=
  match s.queue with
  | [] =>
    if s.running then
      some (.ok { s with
        notEmpty := s.notEmpty.wait i
        threads := s.threads.set i .waiting })
    else some (.ok { s with threads := s.threads.set i (.task none) })
  | task :: rest =>
    let popped := { s with
      queue := rest
      threads := s.threads.set i (.task (some task))
      taken := s.taken ++ [(i, task)] }
    if 0 < maxQueueSize then
      match s.notFull.notify k with
      | none => none
      | some notFull => some (.ok { popped with notFull := notFull })
    else some (.ok popped)

inductive PoolAction (Task : Type) where
  | run (task : Task) (k : Nat)
  | resumeRun (w : Wakeup) (j k : Nat)
  | wakeProducer (j : Nat)
  | test (i : Nat)
  | take (i k : Nat)
  | resumeTake (w : Wakeup) (j k : Nat)
  | wakeWorker (j : Nat)
  | finish (i : Nat)
  | stop
  | stopReturn
  deriving DecidableEq, Repr

def step (maxQueueSize : Nat) (s : ThreadPool Task) :
    PoolAction Task → Option (Except PoolFault (ThreadPool Task))
  | .run task k =>
    if s.threads.isEmpty then some (.ok { s with called := s.called ++ [task] })
    else s.runLocked maxQueueSize task k
  | .resumeRun w j k =>
    match s.notFull.resume w j with
    | none => none
    | some (task, notFull) => { s with notFull := notFull }.runLocked maxQueueSize task k
  | .wakeProducer j =>
    match s.notFull.wakeSpuriously j with
    | none => none
    | some notFull => some (.ok { s with notFull := notFull })
  | .test i =>
    match s.threads[i]? with
    | some .test =>
      if s.running then some (.ok { s with threads := s.threads.set i .take })
      else some (.ok { s with threads := s.threads.set i .exited })
    | _ => none
  | .take i k =>
    match s.threads[i]? with
    | some .take => s.takeLocked maxQueueSize i k
    | _ => none
  | .resumeTake w j k =>
    match s.notEmpty.resume w j with
    | none => none
    | some (i, notEmpty) => { s with notEmpty := notEmpty }.takeLocked maxQueueSize i k
  | .wakeWorker j =>
    match s.notEmpty.wakeSpuriously j with
    | none => none
    | some notEmpty => some (.ok { s with notEmpty := notEmpty })
  | .finish i =>
    match s.threads[i]? with
    | some (.task _) => some (.ok { s with threads := s.threads.set i .test })
    | _ => none
  | .stop =>
    if s.stopCall = .notCalled then
      some (.ok { s with
        running := false
        notEmpty := s.notEmpty.notifyAll
        stopCall := .joining })
    else none
  | .stopReturn =>
    if s.stopCall = .joining ∧ s.threads.all WorkerState.isExited then
      some (.ok { s with stopCall := .returned })
    else none

/-! ### The two sections -/

theorem runLocked_cases {max : Nat} {s : ThreadPool Task} {task : Task} {k : Nat}
    {x : Except PoolFault (ThreadPool Task)} (h : s.runLocked max task k = some x) :
    (s.isFull max = true ∧ x = .ok { s with notFull := s.notFull.wait task }) ∨
      s.isFull max = false ∧ ∃ ne, s.notEmpty.notify k = some ne ∧
        x = .ok { s with
          queue := s.queue ++ [task], notEmpty := ne, pushed := s.pushed ++ [task] } := by
  unfold runLocked at h
  split at h
  next hfull => cases h; exact .inl ⟨hfull, rfl⟩
  next hfree =>
    split at h
    · cases h
    next ne hne =>
      cases h
      have hfalse : s.isFull max = false := Bool.eq_false_iff.mpr hfree
      refine .inr ⟨hfalse, ne, hne, ?_⟩
      rw [check_ok hfalse]
      rfl

theorem takeLocked_cases {max : Nat} {s : ThreadPool Task} {i k : Nat}
    {x : Except PoolFault (ThreadPool Task)} (h : s.takeLocked max i k = some x) :
    (s.queue = [] ∧ s.running = true ∧
      x = .ok { s with
        notEmpty := s.notEmpty.wait i, threads := s.threads.set i .waiting }) ∨
    (s.queue = [] ∧ s.running = false ∧
      x = .ok { s with threads := s.threads.set i (.task none) }) ∨
    ∃ task rest nf, s.queue = task :: rest ∧
      (0 < max ∧ s.notFull.notify k = some nf ∨ max = 0 ∧ nf = s.notFull) ∧
      x = .ok { s with
        queue := rest, threads := s.threads.set i (.task (some task)),
        taken := s.taken ++ [(i, task)], notFull := nf } := by
  unfold takeLocked at h
  split at h
  next hq =>
    split at h
    next hr => cases h; exact .inl ⟨hq, hr, rfl⟩
    next hr => cases h; exact .inr (.inl ⟨hq, Bool.eq_false_iff.mpr hr, rfl⟩)
  next task rest hq =>
    split at h
    next hpos =>
      split at h
      · cases h
      next nf hnf => cases h; exact .inr (.inr ⟨task, rest, nf, hq, .inl ⟨hpos, hnf⟩, rfl⟩)
    next hzero =>
      cases h
      exact .inr (.inr ⟨task, rest, s.notFull, hq, .inr ⟨by omega, rfl⟩, rfl⟩)

/-! ### The bounded queue -/

/-- Tasks leave in the order they came in, the queue keeps its bound, and each of the two
conditions has a signalled thread for each task, and for each free slot, that a waiter could
take. -/
structure Inv (max : Nat) (s : ThreadPool Task) : Prop where
  order : s.taken.map Prod.snd ++ s.queue = s.pushed
  bounded : 0 < max → s.queue.length ≤ max
  workers : s.notEmpty.Served s.queue.length
  producers : s.notFull.Served (max - s.queue.length)
  unbounded : max = 0 → s.notFull.waiting = []

theorem Inv.start (max numThreads : Nat) : (start numThreads : ThreadPool Task).Inv max where
  order := rfl
  bounded := fun _ => Nat.zero_le _
  workers := Condition.served_empty _
  producers := Condition.served_empty _
  unbounded := fun _ => rfl

theorem isFull_iff {max : Nat} {s : ThreadPool Task} :
    s.isFull max = true ↔ 0 < max ∧ max ≤ s.queue.length := by
  simp only [isFull, Bool.and_eq_true, decide_eq_true_eq]

theorem Inv.runLocked {max : Nat} {s : ThreadPool Task} {task : Task} {k : Nat}
    {x : Except PoolFault (ThreadPool Task)} (ho : s.taken.map Prod.snd ++ s.queue = s.pushed)
    (hb : 0 < max → s.queue.length ≤ max) (hw : s.notEmpty.Served s.queue.length)
    (hp : s.notFull.Served (max - s.queue.length - 1)) (hu : max = 0 → s.notFull.waiting = [])
    (h : s.runLocked max task k = some x) : ∃ t, x = .ok t ∧ t.Inv max := by
  obtain ⟨hfull, rfl⟩ | ⟨hfree, ne, hne, rfl⟩ := runLocked_cases h
  · obtain ⟨hpos, hle⟩ := isFull_iff.mp hfull
    refine ⟨_, rfl, ho, hb, hw, ?_, ?_⟩
    · have hzero : max - s.queue.length = 0 := by omega
      change (s.notFull.wait task).Served (max - s.queue.length)
      rw [hzero]
      exact Condition.served_zero _
    · intro hz
      omega
  · have hlen : (s.queue ++ [task]).length = s.queue.length + 1 := by
      rw [List.length_append, List.length_singleton]
    refine ⟨_, rfl, ?_, ?_, ?_, ?_, hu⟩
    · change s.taken.map Prod.snd ++ (s.queue ++ [task]) = s.pushed ++ [task]
      rw [← List.append_assoc, ho]
    · intro hpos
      have hnot : ¬ (0 < max ∧ max ≤ s.queue.length) := by
        rw [← isFull_iff, hfree]
        exact Bool.false_ne_true
      change (s.queue ++ [task]).length ≤ max
      omega
    · change ne.Served (s.queue ++ [task]).length
      rw [hlen]
      exact hw.notify hne
    · change s.notFull.Served (max - (s.queue ++ [task]).length)
      exact hp.mono (by omega)

theorem Inv.takeLocked {max : Nat} {s : ThreadPool Task} {i k : Nat}
    {x : Except PoolFault (ThreadPool Task)} (ho : s.taken.map Prod.snd ++ s.queue = s.pushed)
    (hb : 0 < max → s.queue.length ≤ max) (hw : s.notEmpty.Served (s.queue.length - 1))
    (hp : s.notFull.Served (max - s.queue.length)) (hu : max = 0 → s.notFull.waiting = [])
    (h : s.takeLocked max i k = some x) : ∃ t, x = .ok t ∧ t.Inv max := by
  obtain ⟨hq, hr, rfl⟩ | ⟨hq, hr, rfl⟩ | ⟨task, rest, nf, hq, hnf, rfl⟩ := takeLocked_cases h
  · refine ⟨_, rfl, ho, hb, ?_, hp, hu⟩
    change (s.notEmpty.wait i).Served s.queue.length
    rw [hq]
    exact Condition.served_zero _
  · refine ⟨_, rfl, ho, hb, ?_, hp, hu⟩
    change s.notEmpty.Served s.queue.length
    rw [hq]
    exact Condition.served_zero _
  · rw [hq, List.length_cons] at hb hw hp
    refine ⟨_, rfl, ?_, ?_, ?_, ?_, ?_⟩
    · rw [← ho, hq, List.map_append, List.append_assoc]
      rfl
    · intro hpos
      have := hb hpos
      change rest.length ≤ max
      omega
    · exact hw
    · rcases hnf with ⟨hpos, hnf⟩ | ⟨hzero, rfl⟩
      · have hle := hb hpos
        exact (hp.notify hnf).mono (by change max - rest.length ≤ _; omega)
      · exact (Condition.served_zero _).mono (by change max - rest.length ≤ _; omega)
    · intro hzero
      rcases hnf with ⟨hpos, hnf⟩ | ⟨-, rfl⟩
      · omega
      · exact hu hzero

/-- Every action succeeds and keeps the invariant. -/
theorem Inv.step {max : Nat} {s : ThreadPool Task} {a : PoolAction Task}
    {x : Except PoolFault (ThreadPool Task)} (hs : s.Inv max) (h : s.step max a = some x) :
    ∃ t, x = .ok t ∧ t.Inv max := by
  cases a with
  | run task k =>
    simp only [ThreadPool.step] at h
    split at h
    · cases h
      exact ⟨_, rfl, hs.order, hs.bounded, hs.workers, hs.producers, hs.unbounded⟩
    · exact Inv.runLocked hs.order hs.bounded hs.workers (hs.producers.mono (by omega))
        hs.unbounded h
  | resumeRun w j k =>
    simp only [ThreadPool.step] at h
    split at h
    · cases h
    next task nf hnf =>
      have hwait := Condition.resume_waiting hnf
      exact Inv.runLocked (s := { s with notFull := nf }) hs.order hs.bounded hs.workers
        (hs.producers.resume hnf) (fun hz => hwait.trans (hs.unbounded hz)) h
  | wakeProducer j =>
    simp only [ThreadPool.step] at h
    split at h
    · cases h
    next nf hnf =>
      cases h
      refine ⟨_, rfl, hs.order, hs.bounded, hs.workers, hs.producers.wakeSpuriously hnf, ?_⟩
      intro hz
      unfold Condition.wakeSpuriously at hnf
      rw [hs.unbounded hz] at hnf
      cases hnf
  | test i =>
    simp only [ThreadPool.step] at h
    split at h
    · split at h <;>
      · cases h
        exact ⟨_, rfl, hs.order, hs.bounded, hs.workers, hs.producers, hs.unbounded⟩
    · cases h
  | take i k =>
    simp only [ThreadPool.step] at h
    split at h
    · exact Inv.takeLocked hs.order hs.bounded (hs.workers.mono (by omega)) hs.producers
        hs.unbounded h
    · cases h
  | resumeTake w j k =>
    simp only [ThreadPool.step] at h
    split at h
    · cases h
    next i ne hne =>
      exact Inv.takeLocked (s := { s with notEmpty := ne }) hs.order hs.bounded
        (hs.workers.resume hne) hs.producers hs.unbounded h
  | wakeWorker j =>
    simp only [ThreadPool.step] at h
    split at h
    · cases h
    next ne hne =>
      cases h
      exact ⟨_, rfl, hs.order, hs.bounded, hs.workers.wakeSpuriously hne, hs.producers,
        hs.unbounded⟩
  | finish i =>
    simp only [ThreadPool.step] at h
    split at h
    · cases h
      exact ⟨_, rfl, hs.order, hs.bounded, hs.workers, hs.producers, hs.unbounded⟩
    · cases h
  | stop =>
    simp only [ThreadPool.step] at h
    split at h
    · cases h
      exact ⟨_, rfl, hs.order, hs.bounded, Condition.served_notifyAll _ _, hs.producers,
        hs.unbounded⟩
    · cases h
  | stopReturn =>
    simp only [ThreadPool.step] at h
    split at h
    · cases h
      exact ⟨_, rfl, hs.order, hs.bounded, hs.workers, hs.producers, hs.unbounded⟩
    · cases h

end ThreadPool

def threadPool (Task : Type) (maxQueueSize numThreads : Nat) :
    Machine (ThreadPool Task) (ThreadPool.PoolAction Task) PoolFault where
  init := .start numThreads
  step := ThreadPool.step maxQueueSize

namespace ThreadPool

/-- The pool is a bounded queue in every interleaving: tasks are taken in the order of their
pushes and each once, the bound holds, and neither a worker nor a producer is left waiting
for a task or a slot that no signalled thread is on its way to. -/
theorem bounded_queue (Task : Type) (maxQueueSize numThreads : Nat) (as : List (PoolAction Task))
    (x : Except PoolFault (ThreadPool Task))
    (h : (threadPool Task maxQueueSize numThreads).run (.start numThreads) as = some x) :
    ∃ t, x = .ok t ∧ t.taken.map Prod.snd ++ t.queue = t.pushed ∧
      (0 < maxQueueSize → t.queue.length ≤ maxQueueSize) ∧
      (t.notEmpty.waiting ≠ [] → t.queue.length ≤ t.notEmpty.signalled.length) ∧
      (t.notFull.waiting ≠ [] →
        0 < maxQueueSize ∧ maxQueueSize - t.queue.length ≤ t.notFull.signalled.length) := by
  obtain ⟨t, ht, hinv⟩ := Machine.run_ok_all (fun s a x hs hx => Inv.step hs hx)
    (Inv.start maxQueueSize numThreads) h
  refine ⟨t, ht, hinv.order, hinv.bounded, hinv.workers, ?_⟩
  intro hw
  refine ⟨?_, hinv.producers hw⟩
  by_contra hzero
  exact hw (hinv.unbounded (by omega))

/- Worker 1 overtakes the signalled worker 0, which finds the queue empty and waits again; the
second push then finds worker 0, and the third one a full queue. -/
def overtaken : List (PoolAction Nat) :=
  [.test 0, .take 0 0, .run 7 0, .test 1, .take 1 0, .resumeTake .signal 0 0, .run 8 0, .run 9 0]

theorem bounded_queue_overtaken :
    ∃ t, (threadPool Nat 1 2).run (.start 2) overtaken = some (.ok t) ∧
      t.taken = [(1, 7)] ∧ t.queue = [8] ∧ t.notFull.waiting = [9] ∧
      t.taken.map Prod.snd ++ t.queue = t.pushed ∧ t.queue.length ≤ 1 ∧
      1 - t.queue.length ≤ t.notFull.signalled.length := by
  have hrun : (threadPool Nat 1 2).runsTo (.start 2) overtaken
      (fun t => t.taken == [(1, 7)] && t.queue == [8] && t.notFull.waiting == [9]) = true := by
    decide +kernel
  obtain ⟨t, ht, htest⟩ := Machine.exists_of_runsTo hrun
  simp only [Bool.and_eq_true, beq_iff_eq] at htest
  obtain ⟨u, hu, horder, hbound, -, hproducers⟩ := bounded_queue Nat 1 2 overtaken _ ht
  cases hu
  have hwaits : t.notFull.waiting ≠ [] := by
    rw [htest.2]
    decide
  exact ⟨t, ht, htest.1.1, htest.1.2, htest.2, horder, hbound (by decide),
    (hproducers hwaits).2⟩

/-! ### Stopping

`stop()` wakes the workers only, and a worker leaves its loop as soon as it sees `running_`
false. -/

variable {Task : Type}

/-- Where `stop()` has returned, no producer waits without a signal. -/
def Released (s : ThreadPool Task) : Prop := s.stopCall = .returned → s.notFull.waiting = []

/- `stop()` takes the mutex only while no producer waits, and no producer finds the queue
full after that. -/
def LeavesNoProducer (maxQueueSize : Nat) (s : ThreadPool Task) : PoolAction Task → Prop
  | .stop => s.notFull.waiting = []
  | .run _ _ => s.running = false → s.threads.isEmpty = true ∨ s.isFull maxQueueSize = false
  | .resumeRun _ _ _ => s.running = false → s.isFull maxQueueSize = false
  | _ => True

instance [DecidableEq Task] (maxQueueSize : Nat) (s : ThreadPool Task) (a : PoolAction Task) :
    Decidable (s.LeavesNoProducer maxQueueSize a) := by
  cases a <;> unfold LeavesNoProducer <;> infer_instance

/- Once `running_` is false, nobody waits on `notFull_`. -/
structure Quiet (s : ThreadPool Task) : Prop where
  stopped : s.stopCall ≠ .notCalled → s.running = false
  nobody : s.running = false → s.notFull.waiting = []

theorem Quiet.released {s : ThreadPool Task} (h : s.Quiet) : s.Released := by
  intro hret
  apply h.nobody
  apply h.stopped
  rw [hret]
  decide

theorem Quiet.runLocked {max : Nat} {s t : ThreadPool Task} {task : Task} {k : Nat} (hs : s.Quiet)
    (hg : s.running = false → s.isFull max = false) (h : s.runLocked max task k = some (.ok t)) :
    t.Quiet := by
  obtain ⟨hfull, ht⟩ | ⟨-, ne, -, ht⟩ := runLocked_cases h
  · cases ht
    refine ⟨hs.stopped, ?_⟩
    intro hr
    rw [hg hr] at hfull
    cases hfull
  · cases ht
    exact ⟨hs.stopped, hs.nobody⟩

theorem Quiet.takeLocked {max : Nat} {s t : ThreadPool Task} {i k : Nat} (hs : s.Quiet)
    (h : s.takeLocked max i k = some (.ok t)) : t.Quiet := by
  obtain ⟨-, -, ht⟩ | ⟨-, -, ht⟩ | ⟨task, rest, nf, -, hnf, ht⟩ := takeLocked_cases h
  · cases ht
    exact ⟨hs.stopped, hs.nobody⟩
  · cases ht
    exact ⟨hs.stopped, hs.nobody⟩
  · cases ht
    refine ⟨hs.stopped, ?_⟩
    intro hr
    have hnil := hs.nobody hr
    rcases hnf with ⟨-, hnf⟩ | ⟨-, rfl⟩
    · rw [Condition.notify_waiting_nil hnil hnf]
      exact hnil
    · exact hnil

theorem Quiet.step {max : Nat} {s t : ThreadPool Task} {a : PoolAction Task} (hs : s.Quiet)
    (hg : s.LeavesNoProducer max a) (h : s.step max a = some (.ok t)) : t.Quiet := by
  cases a with
  | run task k =>
    simp only [ThreadPool.step] at h
    split at h
    · cases h
      exact ⟨hs.stopped, hs.nobody⟩
    next hne =>
      refine hs.runLocked (fun hr => ?_) h
      exact (hg hr).resolve_left hne
  | resumeRun w j k =>
    simp only [ThreadPool.step] at h
    split at h
    · cases h
    next task nf hnf =>
      have hq : { s with notFull := nf }.Quiet :=
        ⟨hs.stopped, fun hr => (Condition.resume_waiting hnf).trans (hs.nobody hr)⟩
      exact hq.runLocked hg h
  | wakeProducer j =>
    simp only [ThreadPool.step] at h
    split at h
    · cases h
    next nf hnf =>
      cases h
      refine ⟨hs.stopped, ?_⟩
      intro hr
      unfold Condition.wakeSpuriously at hnf
      rw [hs.nobody hr] at hnf
      cases hnf
  | test i =>
    simp only [ThreadPool.step] at h
    split at h
    · split at h <;>
      · cases h
        exact ⟨hs.stopped, hs.nobody⟩
    · cases h
  | take i k =>
    simp only [ThreadPool.step] at h
    split at h
    · exact hs.takeLocked h
    · cases h
  | resumeTake w j k =>
    simp only [ThreadPool.step] at h
    split at h
    · cases h
    next i ne hne =>
      have hq : { s with notEmpty := ne }.Quiet := ⟨hs.stopped, hs.nobody⟩
      exact hq.takeLocked h
  | wakeWorker j =>
    simp only [ThreadPool.step] at h
    split at h
    · cases h
    · cases h
      exact ⟨hs.stopped, hs.nobody⟩
  | finish i =>
    simp only [ThreadPool.step] at h
    split at h
    · cases h
      exact ⟨hs.stopped, hs.nobody⟩
    · cases h
  | stop =>
    simp only [ThreadPool.step] at h
    split at h
    · cases h
      exact ⟨fun _ => rfl, fun _ => hg⟩
    · cases h
  | stopReturn =>
    simp only [ThreadPool.step] at h
    split at h
    next hst =>
      cases h
      refine ⟨fun _ => hs.stopped ?_, hs.nobody⟩
      rw [hst.1]
      decide
    · cases h

/-- In every run in which `stop()` finds no producer waiting and no producer finds the queue
full afterwards, `stop()` leaves no producer behind. -/
theorem stop_releases (maxQueueSize numThreads : Nat) (as : List (PoolAction Task))
    (t : ThreadPool Task)
    (hg : (threadPool Task maxQueueSize numThreads).Along (LeavesNoProducer maxQueueSize)
      (.start numThreads) as)
    (h : (threadPool Task maxQueueSize numThreads).run (.start numThreads) as = some (.ok t)) :
    t.Released := by
  have hstart : (start numThreads : ThreadPool Task).Quiet :=
    ⟨fun h => absurd rfl h, fun h => by cases h⟩
  have hquiet := Machine.run_inv (P := Quiet) (fun s a t hs hg hst => hs.step hg hst) hstart hg h
  exact hquiet.released

/- The only worker runs a task, the queue of one slot is full, and a producer waits. -/
def producerWaits : List (PoolAction Nat) :=
  [.run 1 0, .test 0, .take 0 0, .run 2 0, .run 3 0]

/- The worker comes back for the second task and wakes the producer, and `stop()` comes while it
runs that task. -/
def stopWhileBusy : List (PoolAction Nat) :=
  producerWaits ++ [.finish 0, .test 0, .take 0 0, .stop, .resumeRun .signal 0 0, .finish 0,
    .test 0, .stopReturn]

theorem stop_releases_while_busy :
    ∃ s t, (threadPool Nat 1 1).run (.start 1) producerWaits = some (.ok s) ∧
      s.notFull.waiting = [3] ∧
      (threadPool Nat 1 1).run (.start 1) stopWhileBusy = some (.ok t) ∧
      t.stopCall = .returned ∧ t.notFull.waiting = [] ∧ t.pushed = [1, 2, 3] := by
  have hwaits : (threadPool Nat 1 1).runsTo (.start 1) producerWaits
      (fun s => s.notFull.waiting == [3]) = true := by
    decide +kernel
  have hrun : (threadPool Nat 1 1).runsTo (.start 1) stopWhileBusy
      (fun t => t.stopCall == .returned && t.pushed == [1, 2, 3]) = true := by
    decide +kernel
  obtain ⟨s, hs, hwait⟩ := Machine.exists_of_runsTo hwaits
  obtain ⟨t, ht, htest⟩ := Machine.exists_of_runsTo hrun
  simp only [Bool.and_eq_true, beq_iff_eq] at hwait htest
  refine ⟨s, t, hs, hwait, ht, htest.1, ?_, htest.2⟩
  exact stop_releases 1 1 stopWhileBusy t (by decide +kernel) ht htest.1

/- `stop()` comes while the producer waits: it wakes nobody on `notFull_`, and the worker leaves
without another `take()`. -/
def stopWithProducer : List (PoolAction Nat) :=
  producerWaits ++ [.stop, .finish 0, .test 0, .stopReturn]

theorem stop_leaves_producer :
    ∃ t, (threadPool Nat 1 1).run (.start 1) stopWithProducer = some (.ok t) ∧
      t.stopCall = .returned ∧ t.notFull.waiting = [3] ∧ t.notFull.signalled = [] ∧
      ¬ t.Released := by
  have hrun : (threadPool Nat 1 1).runsTo (.start 1) stopWithProducer
      (fun t => t.stopCall == .returned && t.notFull.waiting == [3] &&
        t.notFull.signalled == []) = true := by
    decide +kernel
  obtain ⟨t, ht, htest⟩ := Machine.exists_of_runsTo hrun
  simp only [Bool.and_eq_true, beq_iff_eq] at htest
  obtain ⟨⟨hret, hwait⟩, hsig⟩ := htest
  refine ⟨t, ht, hret, hwait, hsig, ?_⟩
  intro hrel
  rw [hrel hret] at hwait
  cases hwait

end ThreadPool

end TstMuduo.Base
