import TstMuduo.Lib.Condition
import TstMuduo.Lib.Machine

/-!
# Blocking queues (muduo/base/BlockingQueue.h, BoundedBlockingQueue.h)

A section under the mutex is one action: from its lock, or from the return of a wait, to
its end or to the next wait. A caller of `put` is known by its element, a caller of `take`
by a number. Which waiter a notification wakes is part of the action.
-/

namespace TstMuduo.Base
open TstMuduo.Lib

/-! ### The unbounded queue -/

/-- `BlockingQueue<T>`. The last two fields are not in the source: the elements in the order
of their `put`, and who took what; `takes` are the calls of `take()`. -/
structure BlockingQueue (T : Type) where
  queue : List T
  notEmpty : Condition Nat
  puts : List T
  takes : List Nat
  taken : List (Nat × T)
  deriving DecidableEq, Repr

inductive QueueAction (T : Type) where
  | put (x : T) (k : Nat)
  | resumePut (w : Wakeup) (j k : Nat)
  | wakePut (j : Nat)
  | take (i k : Nat)
  | resumeTake (w : Wakeup) (j k : Nat)
  | wakeTake (j : Nat)
  deriving DecidableEq, Repr

/-- The assert of `BoundedBlockingQueue::put`. -/
inductive QueueFault where
  | putFull
  deriving DecidableEq, Repr

def QueueAction.fresh {T : Type} : QueueAction T → Bool
  | .resumePut _ _ _ | .resumeTake _ _ _ => false
  | _ => true

variable {T : Type}

namespace BlockingQueue

def new : BlockingQueue T := ⟨[], .empty, [], [], []⟩

/- `put` (`BlockingQueue.h:31`); `k` is the waiter that its notification wakes. -/
def putLocked (s : BlockingQueue T) (x : T) (k : Nat) :
    Option (Except QueueFault (BlockingQueue T)) :=
  match s.notEmpty.notify k with
  | none => none
  | some notEmpty => some (.ok { s with
      queue := s.queue ++ [x]
      notEmpty := notEmpty
      puts := s.puts ++ [x] })

/- `take()` of the call `i` with the mutex, from the test of its loop on (`BlockingQueue.h:53`). -/
def takeLocked (s : BlockingQueue T) (i : Nat) : Option (Except QueueFault (BlockingQueue T)) :=
  match s.queue with
  | [] => some (.ok { s with notEmpty := s.notEmpty.wait i })
  | front :: rest => some (.ok { s with queue := rest, taken := s.taken ++ [(i, front)] })

def step (s : BlockingQueue T) : QueueAction T → Option (Except QueueFault (BlockingQueue T))
  | .put x k => s.putLocked x k
  | .take i _ => { s with takes := s.takes ++ [i] }.takeLocked i
  | .resumeTake w j _ =>
    match s.notEmpty.resume w j with
    | none => none
    | some (i, notEmpty) => { s with notEmpty := notEmpty }.takeLocked i
  | .wakeTake j =>
    match s.notEmpty.wakeSpuriously j with
    | none => none
    | some notEmpty => some (.ok { s with notEmpty := notEmpty })
  | .resumePut _ _ _ | .wakePut _ => none

/-- Elements leave in the order they came in, each call of `take` is waiting or has taken one
of them, and each element that a waiter could take has a signalled thread. -/
structure Inv (s : BlockingQueue T) : Prop where
  order : s.taken.map Prod.snd ++ s.queue = s.puts
  calls : s.takes.Perm (s.taken.map Prod.fst ++ s.notEmpty.threads)
  served : s.notEmpty.Served s.queue.length

theorem Inv.new : (new : BlockingQueue T).Inv where
  order := rfl
  calls := List.Perm.refl _
  served := Condition.served_empty _

theorem Inv.takeLocked {s : BlockingQueue T} {i : Nat}
    {x : Except QueueFault (BlockingQueue T)} (ho : s.taken.map Prod.snd ++ s.queue = s.puts)
    (hc : s.takes.Perm (s.taken.map Prod.fst ++ i :: s.notEmpty.threads))
    (hs : s.notEmpty.Served (s.queue.length - 1)) (h : s.takeLocked i = some x) :
    ∃ t, x = .ok t ∧ t.Inv := by
  unfold BlockingQueue.takeLocked at h
  split at h
  next hq =>
    cases h
    refine ⟨_, rfl, ho, hc.trans ?_, ?_⟩
    · exact Condition.perm_threads_wait.symm.append_left _
    · change (s.notEmpty.wait i).Served s.queue.length
      rw [hq]
      exact Condition.served_zero _
  next front rest hq =>
    cases h
    rw [hq] at ho hs
    refine ⟨_, rfl, ?_, ?_, hs⟩
    · rw [← ho, List.map_append, List.append_assoc]
      rfl
    · rw [List.map_append, List.append_assoc]
      exact hc

theorem Inv.step {s : BlockingQueue T} {a : QueueAction T}
    {x : Except QueueFault (BlockingQueue T)} (hs : s.Inv) (h : s.step a = some x) :
    ∃ t, x = .ok t ∧ t.Inv := by
  cases a with
  | put e k =>
    simp only [BlockingQueue.step, putLocked] at h
    split at h
    · cases h
    next ne hne =>
      cases h
      refine ⟨_, rfl, ?_, ?_, ?_⟩
      · change s.taken.map Prod.snd ++ (s.queue ++ [e]) = s.puts ++ [e]
        rw [← List.append_assoc, hs.order]
      · exact hs.calls.trans ((Condition.perm_threads_notify hne).symm.append_left _)
      · change ne.Served (s.queue ++ [e]).length
        rw [List.length_append, List.length_singleton]
        exact hs.served.notify hne
  | take i k =>
    refine Inv.takeLocked (s := { s with takes := s.takes ++ [i] }) hs.order ?_
      (hs.served.mono (Nat.sub_le _ _)) h
    change (s.takes ++ [i]).Perm (s.taken.map Prod.fst ++ i :: s.notEmpty.threads)
    refine (List.perm_append_singleton i _).trans ?_
    exact (hs.calls.cons i).trans List.perm_middle.symm
  | resumeTake w j k =>
    simp only [BlockingQueue.step] at h
    split at h
    · cases h
    next i ne hne =>
      refine Inv.takeLocked (s := { s with notEmpty := ne }) hs.order ?_
        (hs.served.resume hne) h
      exact hs.calls.trans ((Condition.perm_threads_resume hne).append_left _)
  | wakeTake j =>
    simp only [BlockingQueue.step] at h
    split at h
    · cases h
    next ne hne =>
      cases h
      refine ⟨_, rfl, hs.order, ?_, hs.served.wakeSpuriously hne⟩
      exact hs.calls.trans ((Condition.perm_threads_wakeSpuriously hne).symm.append_left _)
  | resumePut w j k => cases h
  | wakePut j => cases h

def load (s : BlockingQueue T) : Nat := s.notEmpty.threads.length + s.notEmpty.woken

theorem load_step {s t : BlockingQueue T} {a : QueueAction T} (h : s.step a = some (.ok t)) :
    1 + t.load ≤ s.load + if a.fresh then 2 else 0 := by
  cases a with
  | put e k =>
    simp only [step, putLocked] at h
    split at h
    · cases h
    next ne hne =>
      cases h
      have hlen := (Condition.perm_threads_notify hne).length_eq
      have hwoken := Condition.woken_notify_le hne
      simp only [load, QueueAction.fresh, if_true]
      omega
  | take i k =>
    simp only [step, takeLocked] at h
    split at h
    · cases h
      have hlen := (Condition.perm_threads_wait (c := s.notEmpty) (i := i)).length_eq
      simp only [load, QueueAction.fresh, if_true, List.length_cons, Condition.woken_wait] at hlen ⊢
      omega
    · cases h
      simp only [load, QueueAction.fresh, if_true]
      omega
  | resumeTake w j k =>
    simp only [step] at h
    split at h
    · cases h
    next i ne hne =>
      have hlen := (Condition.perm_threads_resume hne).length_eq
      have hwoken := Condition.woken_resume hne
      simp only [takeLocked] at h
      split at h
      · cases h
        have hwait := (Condition.perm_threads_wait (c := ne) (i := i)).length_eq
        simp only [load, List.length_cons, Condition.woken_wait] at hlen hwait ⊢
        omega
      · cases h
        simp only [load, List.length_cons] at hlen ⊢
        omega
  | wakeTake j =>
    simp only [step] at h
    split at h
    · cases h
    next ne hne =>
      cases h
      have hlen := (Condition.perm_threads_wakeSpuriously hne).length_eq
      have hwoken := Condition.woken_wakeSpuriously hne
      simp only [load, QueueAction.fresh, if_true]
      omega
  | resumePut w j k => cases h
  | wakePut j => cases h

end BlockingQueue

def blockingQueue (T : Type) : Machine (BlockingQueue T) (QueueAction T) QueueFault where
  init := .new
  step := BlockingQueue.step

namespace BlockingQueue

/-- In every order of calls, notifications and wakeups the queue is a queue. No call waits
for an element that is there unless a signalled thread is on its way, a run is at most twice
as long as its calls and spurious wakeups are many, and where nobody is on the way all calls
have returned that the elements suffice for. -/
theorem blocking_queue (T : Type) (as : List (QueueAction T))
    (x : Except QueueFault (BlockingQueue T))
    (h : (blockingQueue T).run .new as = some x) :
    ∃ t, x = .ok t ∧ t.taken.map Prod.snd ++ t.queue = t.puts ∧
      t.takes.Perm (t.taken.map Prod.fst ++ t.notEmpty.threads) ∧
      (t.notEmpty.waiting ≠ [] → t.queue.length ≤ t.notEmpty.signalled.length) ∧
      as.length ≤ 2 * as.countP QueueAction.fresh ∧
      (t.notEmpty.Settled → t.taken.length = min t.takes.length t.puts.length) := by
  obtain ⟨t, rfl, hinv⟩ := Machine.run_ok_all (fun s a x hs hx => Inv.step hs hx) Inv.new h
  have hlong := Machine.run_length_le (p := QueueAction.fresh) (fun s a t hst => load_step hst) h
  refine ⟨t, rfl, hinv.order, hinv.calls, hinv.served, ?_, ?_⟩
  · have hzero : (new : BlockingQueue T).load = 0 := rfl
    omega
  · intro hsettled
    have hputs := congrArg List.length hinv.order
    have htakes := hinv.calls.length_eq
    rw [hsettled.threads_eq] at htakes
    rw [List.length_append, List.length_map] at hputs htakes
    by_cases hw : t.notEmpty.waiting = []
    · rw [hw, List.length_nil] at htakes
      omega
    · have hserved := hinv.served hw
      rw [hsettled.1, List.length_nil] at hserved
      omega

/- The call 1 overtakes the call 0 that the first element has signalled, and the call 0 waits
on for the second one. -/
def overtakenTake : List (QueueAction Nat) :=
  [.take 0 0, .put 7 0, .take 1 0, .resumeTake .signal 0 0, .wakeTake 0, .put 8 0,
    .resumeTake .spurious 0 0, .put 9 0]

theorem blocking_queue_overtaken :
    ∃ t, (blockingQueue Nat).run .new overtakenTake = some (.ok t) ∧
      t.taken = [(1, 7), (0, 8)] ∧ t.queue = [9] ∧ t.taken.map Prod.snd ++ t.queue = t.puts ∧
      t.taken.length = min t.takes.length t.puts.length := by
  have hrun : (blockingQueue Nat).runsTo .new overtakenTake
      (fun t => t.taken == [(1, 7), (0, 8)] && t.queue == [9] && decide t.notEmpty.Settled) =
      true := by
    decide +kernel
  obtain ⟨t, ht, htest⟩ := Machine.exists_of_runsTo hrun
  simp only [Bool.and_eq_true, beq_iff_eq, decide_eq_true_eq] at htest
  obtain ⟨u, hu, horder, _, _, _, hsettled⟩ := blocking_queue Nat overtakenTake _ ht
  cases hu
  exact ⟨t, ht, htest.1.1, htest.1.2, horder, hsettled htest.2⟩

end BlockingQueue

/-! ### The bounded queue -/

/-- `BoundedBlockingQueue<T>`, over a `circular_buffer` of the given capacity. The last four
fields are not in the source: the calls of `put` by their elements, the elements in the order
in which they came into the queue, the calls of `take`, and who took what. -/
structure BoundedBlockingQueue (T : Type) where
  capacity : Nat
  queue : List T
  notEmpty : Condition Nat
  notFull : Condition T
  puts : List T
  pushed : List T
  takes : List Nat
  taken : List (Nat × T)
  deriving DecidableEq, Repr

namespace BoundedBlockingQueue

def new (maxSize : Nat) : BoundedBlockingQueue T := ⟨maxSize, [], .empty, .empty, [], [], [], []⟩

def full (s : BoundedBlockingQueue T) : Bool := decide (s.capacity ≤ s.queue.length)

/- `circular_buffer::push_back`: at full capacity the front element makes room. -/
def pushBack (s : BoundedBlockingQueue T) (x : T) : List T :=
  (s.queue ++ [x]).drop (s.queue.length + 1 - s.capacity)

/- `put` with the mutex, from the test of its loop on (`BoundedBlockingQueue.h:33`). -/
def putLocked (s : BoundedBlockingQueue T) (x : T) (k : Nat) :
    Option (Except QueueFault (BoundedBlockingQueue T)) :=
  if s.full then some (.ok { s with notFull := s.notFull.wait x })
  else
    match s.notEmpty.notify k with
    | none => none
    | some notEmpty => some do
      check (s.full = false) .putFull
      return { s with
        queue := s.pushBack x
        notEmpty := notEmpty
        pushed := s.pushed ++ [x] }

/- `take()` with the mutex, from the test of its loop on (`BoundedBlockingQueue.h:45`). -/
def takeLocked (s : BoundedBlockingQueue T) (i k : Nat) :
    Option (Except QueueFault (BoundedBlockingQueue T)) :=
  match s.queue with
  | [] => some (.ok { s with notEmpty := s.notEmpty.wait i })
  | front :: rest =>
    match s.notFull.notify k with
    | none => none
    | some notFull => some (.ok { s with
        queue := rest
        notFull := notFull
        taken := s.taken ++ [(i, front)] })

def step (s : BoundedBlockingQueue T) :
    QueueAction T → Option (Except QueueFault (BoundedBlockingQueue T))
  | .put x k => { s with puts := s.puts ++ [x] }.putLocked x k
  | .resumePut w j k =>
    match s.notFull.resume w j with
    | none => none
    | some (x, notFull) => { s with notFull := notFull }.putLocked x k
  | .wakePut j =>
    match s.notFull.wakeSpuriously j with
    | none => none
    | some notFull => some (.ok { s with notFull := notFull })
  | .take i k => { s with takes := s.takes ++ [i] }.takeLocked i k
  | .resumeTake w j k =>
    match s.notEmpty.resume w j with
    | none => none
    | some (i, notEmpty) => { s with notEmpty := notEmpty }.takeLocked i k
  | .wakeTake j =>
    match s.notEmpty.wakeSpuriously j with
    | none => none
    | some notEmpty => some (.ok { s with notEmpty := notEmpty })

theorem putLocked_cases {s : BoundedBlockingQueue T} {e : T} {k : Nat}
    {x : Except QueueFault (BoundedBlockingQueue T)} (h : s.putLocked e k = some x) :
    (s.capacity ≤ s.queue.length ∧ x = .ok { s with notFull := s.notFull.wait e }) ∨
    s.queue.length < s.capacity ∧ ∃ ne, s.notEmpty.notify k = some ne ∧
      x = .ok { s with queue := s.queue ++ [e], notEmpty := ne, pushed := s.pushed ++ [e] } := by
  unfold putLocked at h
  split at h
  next hfull =>
    cases h
    exact .inl ⟨of_decide_eq_true hfull, rfl⟩
  next hfree =>
    have hfalse : s.full = false := Bool.eq_false_iff.mpr hfree
    have hlt : s.queue.length < s.capacity := Nat.lt_of_not_le (of_decide_eq_false hfalse)
    split at h
    · cases h
    next ne hne =>
      cases h
      have hpush : s.pushBack e = s.queue ++ [e] := by
        have hroom : s.queue.length + 1 - s.capacity = 0 := by omega
        rw [pushBack, hroom, List.drop_zero]
      refine .inr ⟨hlt, ne, hne, ?_⟩
      rw [check_ok hfalse, hpush]
      rfl

theorem takeLocked_cases {s : BoundedBlockingQueue T} {i k : Nat}
    {x : Except QueueFault (BoundedBlockingQueue T)} (h : s.takeLocked i k = some x) :
    (s.queue = [] ∧ x = .ok { s with notEmpty := s.notEmpty.wait i }) ∨
    ∃ front rest nf, s.queue = front :: rest ∧ s.notFull.notify k = some nf ∧
      x = .ok { s with queue := rest, notFull := nf, taken := s.taken ++ [(i, front)] } := by
  unfold takeLocked at h
  split at h
  next hq => cases h; exact .inl ⟨hq, rfl⟩
  next front rest hq =>
    split at h
    · cases h
    next nf hnf => cases h; exact .inr ⟨front, rest, nf, hq, hnf, rfl⟩

/-- Elements leave in the order they came in, the capacity is kept, each call is waiting or
has had its effect, and each element and each free slot that a waiter could take has a
signalled thread. -/
structure Inv (s : BoundedBlockingQueue T) : Prop where
  order : s.taken.map Prod.snd ++ s.queue = s.pushed
  bounded : s.queue.length ≤ s.capacity
  putCalls : s.puts.Perm (s.pushed ++ s.notFull.threads)
  takeCalls : s.takes.Perm (s.taken.map Prod.fst ++ s.notEmpty.threads)
  takers : s.notEmpty.Served s.queue.length
  putters : s.notFull.Served (s.capacity - s.queue.length)
  closed : s.capacity = 0 → s.pushed = []

theorem Inv.new (maxSize : Nat) : (new maxSize : BoundedBlockingQueue T).Inv where
  order := rfl
  bounded := Nat.zero_le _
  putCalls := List.Perm.refl _
  takeCalls := List.Perm.refl _
  takers := Condition.served_empty _
  putters := Condition.served_empty _
  closed := fun _ => rfl

theorem Inv.putLocked {s : BoundedBlockingQueue T} {e : T} {k : Nat}
    {x : Except QueueFault (BoundedBlockingQueue T)}
    (ho : s.taken.map Prod.snd ++ s.queue = s.pushed) (hb : s.queue.length ≤ s.capacity)
    (hp : s.puts.Perm (s.pushed ++ e :: s.notFull.threads))
    (ht : s.takes.Perm (s.taken.map Prod.fst ++ s.notEmpty.threads))
    (hw : s.notEmpty.Served s.queue.length)
    (hf : s.notFull.Served (s.capacity - s.queue.length - 1))
    (hz : s.capacity = 0 → s.pushed = []) (h : s.putLocked e k = some x) :
    ∃ t, x = .ok t ∧ t.Inv ∧ t.capacity = s.capacity := by
  obtain ⟨hfull, rfl⟩ | ⟨hfree, ne, hne, rfl⟩ := putLocked_cases h
  · refine ⟨_, rfl, ⟨ho, hb, hp.trans ?_, ht, hw, ?_, hz⟩, rfl⟩
    · exact Condition.perm_threads_wait.symm.append_left _
    · have hzero : s.capacity - s.queue.length = 0 := by omega
      change (s.notFull.wait e).Served (s.capacity - s.queue.length)
      rw [hzero]
      exact Condition.served_zero _
  · have hlen : (s.queue ++ [e]).length = s.queue.length + 1 := by
      rw [List.length_append, List.length_singleton]
    refine ⟨_, rfl, ⟨?_, ?_, ?_, ?_, ?_, ?_, ?_⟩, rfl⟩
    · change s.taken.map Prod.snd ++ (s.queue ++ [e]) = s.pushed ++ [e]
      rw [← List.append_assoc, ho]
    · change (s.queue ++ [e]).length ≤ s.capacity
      omega
    · change s.puts.Perm (s.pushed ++ [e] ++ s.notFull.threads)
      rw [List.append_assoc]
      exact hp
    · exact ht.trans ((Condition.perm_threads_notify hne).symm.append_left _)
    · change ne.Served (s.queue ++ [e]).length
      rw [hlen]
      exact hw.notify hne
    · change s.notFull.Served (s.capacity - (s.queue ++ [e]).length)
      exact hf.mono (by omega)
    · intro hzero
      change s.capacity = 0 at hzero
      omega

theorem Inv.takeLocked {s : BoundedBlockingQueue T} {i k : Nat}
    {x : Except QueueFault (BoundedBlockingQueue T)}
    (ho : s.taken.map Prod.snd ++ s.queue = s.pushed) (hb : s.queue.length ≤ s.capacity)
    (hp : s.puts.Perm (s.pushed ++ s.notFull.threads))
    (ht : s.takes.Perm (s.taken.map Prod.fst ++ i :: s.notEmpty.threads))
    (hw : s.notEmpty.Served (s.queue.length - 1))
    (hf : s.notFull.Served (s.capacity - s.queue.length))
    (hz : s.capacity = 0 → s.pushed = []) (h : s.takeLocked i k = some x) :
    ∃ t, x = .ok t ∧ t.Inv ∧ t.capacity = s.capacity := by
  obtain ⟨hq, rfl⟩ | ⟨front, rest, nf, hq, hnf, rfl⟩ := takeLocked_cases h
  · refine ⟨_, rfl, ⟨ho, hb, hp, ht.trans ?_, ?_, hf, hz⟩, rfl⟩
    · exact Condition.perm_threads_wait.symm.append_left _
    · change (s.notEmpty.wait i).Served s.queue.length
      rw [hq]
      exact Condition.served_zero _
  · rw [hq] at ho hw
    rw [hq, List.length_cons] at hb hf
    refine ⟨_, rfl, ⟨?_, ?_, ?_, ?_, hw, ?_, hz⟩, rfl⟩
    · rw [← ho, List.map_append, List.append_assoc]
      rfl
    · change rest.length ≤ s.capacity
      omega
    · exact hp.trans ((Condition.perm_threads_notify hnf).symm.append_left _)
    · rw [List.map_append, List.append_assoc]
      exact ht
    · exact (hf.notify hnf).mono (by change s.capacity - rest.length ≤ _; omega)

/-- Every action succeeds and keeps the invariant. -/
theorem Inv.step {s : BoundedBlockingQueue T} {a : QueueAction T}
    {x : Except QueueFault (BoundedBlockingQueue T)} (hs : s.Inv) (h : s.step a = some x) :
    ∃ t, x = .ok t ∧ t.Inv ∧ t.capacity = s.capacity := by
  cases a with
  | put e k =>
    refine Inv.putLocked (s := { s with puts := s.puts ++ [e] }) hs.order hs.bounded ?_
      hs.takeCalls hs.takers (hs.putters.mono (Nat.sub_le _ _)) hs.closed h
    change (s.puts ++ [e]).Perm (s.pushed ++ e :: s.notFull.threads)
    refine (List.perm_append_singleton e _).trans ?_
    exact (hs.putCalls.cons e).trans List.perm_middle.symm
  | resumePut w j k =>
    simp only [BoundedBlockingQueue.step] at h
    split at h
    · cases h
    next e nf hnf =>
      refine Inv.putLocked (s := { s with notFull := nf }) hs.order hs.bounded ?_
        hs.takeCalls hs.takers (hs.putters.resume hnf) hs.closed h
      exact hs.putCalls.trans ((Condition.perm_threads_resume hnf).append_left _)
  | wakePut j =>
    simp only [BoundedBlockingQueue.step] at h
    split at h
    · cases h
    next nf hnf =>
      cases h
      refine ⟨_, rfl, ⟨hs.order, hs.bounded, ?_, hs.takeCalls, hs.takers,
        hs.putters.wakeSpuriously hnf, hs.closed⟩, rfl⟩
      exact hs.putCalls.trans ((Condition.perm_threads_wakeSpuriously hnf).symm.append_left _)
  | take i k =>
    refine Inv.takeLocked (s := { s with takes := s.takes ++ [i] }) hs.order hs.bounded
      hs.putCalls ?_ (hs.takers.mono (Nat.sub_le _ _)) hs.putters hs.closed h
    change (s.takes ++ [i]).Perm (s.taken.map Prod.fst ++ i :: s.notEmpty.threads)
    refine (List.perm_append_singleton i _).trans ?_
    exact (hs.takeCalls.cons i).trans List.perm_middle.symm
  | resumeTake w j k =>
    simp only [BoundedBlockingQueue.step] at h
    split at h
    · cases h
    next i ne hne =>
      refine Inv.takeLocked (s := { s with notEmpty := ne }) hs.order hs.bounded hs.putCalls ?_
        (hs.takers.resume hne) hs.putters hs.closed h
      exact hs.takeCalls.trans ((Condition.perm_threads_resume hne).append_left _)
  | wakeTake j =>
    simp only [BoundedBlockingQueue.step] at h
    split at h
    · cases h
    next ne hne =>
      cases h
      refine ⟨_, rfl, ⟨hs.order, hs.bounded, hs.putCalls, ?_, hs.takers.wakeSpuriously hne,
        hs.putters, hs.closed⟩, rfl⟩
      exact hs.takeCalls.trans ((Condition.perm_threads_wakeSpuriously hne).symm.append_left _)

def load (s : BoundedBlockingQueue T) : Nat :=
  s.notEmpty.threads.length + s.notEmpty.woken + (s.notFull.threads.length + s.notFull.woken)

theorem load_putLocked {s t : BoundedBlockingQueue T} {e : T} {k : Nat}
    (h : s.putLocked e k = some (.ok t)) : t.load ≤ s.load + 1 := by
  obtain ⟨-, ht⟩ | ⟨-, ne, hne, ht⟩ := putLocked_cases h
  · cases ht
    have hlen := (Condition.perm_threads_wait (c := s.notFull) (i := e)).length_eq
    simp only [load, List.length_cons, Condition.woken_wait] at hlen ⊢
    omega
  · cases ht
    have hlen := (Condition.perm_threads_notify hne).length_eq
    have hwoken := Condition.woken_notify_le hne
    simp only [load]
    omega

theorem load_takeLocked {s t : BoundedBlockingQueue T} {i k : Nat}
    (h : s.takeLocked i k = some (.ok t)) : t.load ≤ s.load + 1 := by
  obtain ⟨-, ht⟩ | ⟨front, rest, nf, -, hnf, ht⟩ := takeLocked_cases h
  · cases ht
    have hlen := (Condition.perm_threads_wait (c := s.notEmpty) (i := i)).length_eq
    simp only [load, List.length_cons, Condition.woken_wait] at hlen ⊢
    omega
  · cases ht
    have hlen := (Condition.perm_threads_notify hnf).length_eq
    have hwoken := Condition.woken_notify_le hnf
    simp only [load]
    omega

theorem load_step {s t : BoundedBlockingQueue T} {a : QueueAction T}
    (h : s.step a = some (.ok t)) : 1 + t.load ≤ s.load + if a.fresh then 2 else 0 := by
  cases a with
  | put e k =>
    have hload : t.load ≤ s.load + 1 :=
      load_putLocked (s := { s with puts := s.puts ++ [e] }) h
    simp only [QueueAction.fresh, if_true]
    omega
  | resumePut w j k =>
    simp only [step] at h
    split at h
    · cases h
    next e nf hnf =>
      have hload := load_putLocked h
      have hlen := (Condition.perm_threads_resume hnf).length_eq
      have hwoken := Condition.woken_resume hnf
      simp only [load, List.length_cons] at hload hlen ⊢
      omega
  | wakePut j =>
    simp only [step] at h
    split at h
    · cases h
    next nf hnf =>
      cases h
      have hlen := (Condition.perm_threads_wakeSpuriously hnf).length_eq
      have hwoken := Condition.woken_wakeSpuriously hnf
      simp only [load, QueueAction.fresh, if_true]
      omega
  | take i k =>
    have hload : t.load ≤ s.load + 1 :=
      load_takeLocked (s := { s with takes := s.takes ++ [i] }) h
    simp only [QueueAction.fresh, if_true]
    omega
  | resumeTake w j k =>
    simp only [step] at h
    split at h
    · cases h
    next i ne hne =>
      have hload := load_takeLocked h
      have hlen := (Condition.perm_threads_resume hne).length_eq
      have hwoken := Condition.woken_resume hne
      simp only [load, List.length_cons] at hload hlen ⊢
      omega
  | wakeTake j =>
    simp only [step] at h
    split at h
    · cases h
    next ne hne =>
      cases h
      have hlen := (Condition.perm_threads_wakeSpuriously hne).length_eq
      have hwoken := Condition.woken_wakeSpuriously hne
      simp only [load, QueueAction.fresh, if_true]
      omega

end BoundedBlockingQueue

def boundedBlockingQueue (T : Type) (maxSize : Nat) :
    Machine (BoundedBlockingQueue T) (QueueAction T) QueueFault where
  init := .new maxSize
  step := BoundedBlockingQueue.step

namespace BoundedBlockingQueue

theorem Inv.run {maxSize : Nat} {as : List (QueueAction T)}
    {x : Except QueueFault (BoundedBlockingQueue T)}
    (h : (boundedBlockingQueue T maxSize).run (.new maxSize) as = some x) :
    ∃ t, x = .ok t ∧ t.Inv ∧ t.capacity = maxSize := by
  refine Machine.run_ok_all (P := fun s => s.Inv ∧ s.capacity = maxSize) ?_ ⟨.new _, rfl⟩ h
  intro s a x hs hx
  obtain ⟨t, ht, hinv, hcap⟩ := Inv.step hs.1 hx
  exact ⟨t, ht, hinv, hcap.trans hs.2⟩

theorem Inv.settled {s : BoundedBlockingQueue T} (hs : s.Inv) (hcap : 0 < s.capacity)
    (he : s.notEmpty.Settled) (hf : s.notFull.Settled) :
    s.taken.length = min s.takes.length s.puts.length ∧
      s.pushed.length = min s.puts.length (s.takes.length + s.capacity) := by
  have hpushed := congrArg List.length hs.order
  have hputs := hs.putCalls.length_eq
  have htakes := hs.takeCalls.length_eq
  have hb := hs.bounded
  rw [hf.threads_eq] at hputs
  rw [he.threads_eq] at htakes
  rw [List.length_append, List.length_map] at hpushed htakes
  rw [List.length_append] at hputs
  have htakers : s.notEmpty.waiting ≠ [] → s.queue.length = 0 := by
    intro hw
    have hle := hs.takers hw
    rw [he.1, List.length_nil] at hle
    omega
  have hputters : s.notFull.waiting ≠ [] → s.capacity ≤ s.queue.length := by
    intro hw
    have hle := hs.putters hw
    rw [hf.1, List.length_nil] at hle
    omega
  by_cases hw : s.notEmpty.waiting = [] <;> by_cases hv : s.notFull.waiting = []
  · rw [hw, List.length_nil] at htakes
    rw [hv, List.length_nil] at hputs
    omega
  · have hfull := hputters hv
    rw [hw, List.length_nil] at htakes
    omega
  · have hempty := htakers hw
    rw [hv, List.length_nil] at hputs
    omega
  · have hempty := htakers hw
    have hfull := hputters hv
    omega

/-- The bounded queue is a queue of its capacity in every order of calls, notifications and
wakeups: no assertion fails, no element is lost, doubled or overtaken, every call is waiting
or has had its effect, no wakeup is lost, every run ends, and where nobody is on the way
exactly those calls have returned that a queue of this capacity lets return. -/
theorem bounded_blocking_queue (T : Type) (maxSize : Nat) (as : List (QueueAction T))
    (x : Except QueueFault (BoundedBlockingQueue T))
    (h : (boundedBlockingQueue T maxSize).run (.new maxSize) as = some x) :
    ∃ t, x = .ok t ∧ t.taken.map Prod.snd ++ t.queue = t.pushed ∧ t.queue.length ≤ maxSize ∧
      t.puts.Perm (t.pushed ++ t.notFull.threads) ∧
      t.takes.Perm (t.taken.map Prod.fst ++ t.notEmpty.threads) ∧
      (t.notEmpty.waiting ≠ [] → t.queue.length ≤ t.notEmpty.signalled.length) ∧
      (t.notFull.waiting ≠ [] → maxSize - t.queue.length ≤ t.notFull.signalled.length) ∧
      as.length ≤ 2 * as.countP QueueAction.fresh ∧
      (t.notEmpty.Settled → t.notFull.Settled →
        t.taken.length = (if maxSize = 0 then 0 else min t.takes.length t.puts.length) ∧
        t.pushed.length =
          if maxSize = 0 then 0 else min t.puts.length (t.takes.length + maxSize)) := by
  obtain ⟨t, rfl, hinv, rfl⟩ := Inv.run h
  have hlong := Machine.run_length_le (p := QueueAction.fresh) (fun s a t hst => load_step hst) h
  refine ⟨t, rfl, hinv.order, hinv.bounded, hinv.putCalls, hinv.takeCalls, hinv.takers,
    hinv.putters, ?_, ?_⟩
  · have hzero : (new t.capacity : BoundedBlockingQueue T).load = 0 := rfl
    omega
  · intro he hf
    by_cases hcap : t.capacity = 0
    · have hpushed := congrArg List.length hinv.order
      rw [hinv.closed hcap, List.length_append, List.length_map, List.length_nil] at hpushed
      rw [if_pos hcap, if_pos hcap, hinv.closed hcap]
      exact ⟨by omega, rfl⟩
    · rw [if_neg hcap, if_neg hcap]
      exact hinv.settled (by omega) he hf

/- The same with one slot; the last `put` waits for it. -/
def overtakenPut : List (QueueAction Nat) :=
  [.take 0 0, .put 7 0, .take 1 0, .resumeTake .signal 0 0, .put 8 0, .resumeTake .signal 0 0,
    .put 9 0, .put 4 0]

theorem bounded_blocking_queue_overtaken :
    ∃ t, (boundedBlockingQueue Nat 1).run (.new 1) overtakenPut = some (.ok t) ∧
      t.taken = [(1, 7), (0, 8)] ∧ t.queue = [9] ∧ t.notFull.waiting = [4] ∧
      t.puts.Perm (t.pushed ++ t.notFull.threads) ∧
      t.taken.length = min t.takes.length t.puts.length ∧
      t.pushed.length = min t.puts.length (t.takes.length + 1) := by
  have hrun : (boundedBlockingQueue Nat 1).runsTo (.new 1) overtakenPut
      (fun t => t.taken == [(1, 7), (0, 8)] && t.queue == [9] && t.notFull.waiting == [4] &&
        (decide t.notEmpty.Settled && decide t.notFull.Settled)) = true := by
    decide +kernel
  obtain ⟨t, ht, htest⟩ := Machine.exists_of_runsTo hrun
  simp only [Bool.and_eq_true, beq_iff_eq, decide_eq_true_eq] at htest
  obtain ⟨u, hu, _, _, hputs, _, _, _, _, hsettled⟩ :=
    bounded_blocking_queue Nat 1 overtakenPut _ ht
  cases hu
  obtain ⟨⟨⟨htaken, hqueue⟩, hwait⟩, he, hf⟩ := htest
  exact ⟨t, ht, htaken, hqueue, hwait, hputs, hsettled he hf⟩

end BoundedBlockingQueue

end TstMuduo.Base
