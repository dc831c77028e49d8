import TstMuduo.Lib.Condition
import TstMuduo.Lib.Machine

/-!
# The latch and the start of a thread (muduo/base/CountDownLatch.h, CountDownLatch.cc, Thread.cc)

As in the queues, a section under the mutex is one action. `Thread::start` waits on a latch
of one until the new thread has stored its id.
-/

namespace TstMuduo.Base
open TstMuduo.Lib

/-! ### The latch -/

/-- `CountDownLatch`. The last three fields are not in the source: how often `countDown()` was
called, the calls of `wait()`, and those that have returned. -/
structure CountDownLatch where
  count : Int
  condition : Condition Nat
  downs : Nat
  waits : List Nat
  returned : List Nat
  deriving DecidableEq, Repr

inductive LatchAction where
  | wait (i : Nat)
  | resume (w : Wakeup) (j : Nat)
  | wake (j : Nat)
  | countDown
  deriving DecidableEq, Repr

/-- `--count_` at the least `int`. -/
inductive LatchFault where
  | countOverflow
  deriving DecidableEq, Repr

def intMin : Int := -2147483648

namespace CountDownLatch

def new (count : Int) : CountDownLatch := ⟨count, .empty, 0, [], []⟩

/- `wait()` with the mutex, from the test of its loop on (`CountDownLatch.cc:19`). -/
def waitLocked (s : CountDownLatch) (i : Nat) : CountDownLatch :=
  if 0 < s.count then { s with condition := s.condition.wait i }
  else { s with returned := s.returned ++ [i] }

/- `countDown()` (`CountDownLatch.cc:25`). -/
def countDown (s : CountDownLatch) : Except LatchFault CountDownLatch := do
  check (intMin < s.count) .countOverflow
  let count := s.count - 1
  return { s with
    count := count
    condition := if count = 0 then s.condition.notifyAll else s.condition
    downs := s.downs + 1 }

def step (s : CountDownLatch) : LatchAction → Option (Except LatchFault CountDownLatch)
  | .wait i => some (.ok ({ s with waits := s.waits ++ [i] }.waitLocked i))
  | .resume w j =>
    match s.condition.resume w j with
    | none => none
    | some (i, condition) => some (.ok ({ s with condition := condition }.waitLocked i))
  | .wake j =>
    match s.condition.wakeSpuriously j with
    | none => none
    | some condition => some (.ok { s with condition := condition })
  | .countDown => some s.countDown

/-- The count goes down by one a call; `wait()` returns at a count of zero, and nobody is in
the wait without a signal then. -/
structure Inv (n : Int) (s : CountDownLatch) : Prop where
  count : s.count = n - s.downs
  early : 0 < s.count → s.returned = []
  released : s.count ≤ 0 → s.condition.waiting = []
  calls : s.waits.Perm (s.returned ++ s.condition.threads)

theorem Inv.new (n : Int) : (new n).Inv n where
  count := by simp [CountDownLatch.new]
  early := fun _ => rfl
  released := fun _ => rfl
  calls := List.Perm.refl _

variable {n : Int} {s t : CountDownLatch}

theorem Inv.waitLocked {i : Nat} (hcount : s.count = n - s.downs)
    (he : 0 < s.count → s.returned = []) (hr : s.count ≤ 0 → s.condition.waiting = [])
    (hc : s.waits.Perm (s.returned ++ i :: s.condition.threads)) : (s.waitLocked i).Inv n := by
  unfold CountDownLatch.waitLocked
  split
  next hpos =>
    refine ⟨hcount, he, fun hle => ?_, hc.trans ?_⟩
    · change s.count ≤ 0 at hle
      omega
    · exact Condition.perm_threads_wait.symm.append_left _
  next hzero =>
    refine ⟨hcount, fun hpos => absurd hpos hzero, hr, ?_⟩
    change s.waits.Perm (s.returned ++ [i] ++ s.condition.threads)
    rw [List.append_assoc]
    exact hc

theorem Inv.countDown (hs : s.Inv n) (h : s.countDown = .ok t) : t.Inv n := by
  unfold CountDownLatch.countDown at h
  obtain ⟨-, -, h⟩ := bind_eq_ok h
  cases h
  have hcount := hs.count
  have hdown : s.count - 1 = n - (s.downs + 1 : Nat) := by
    push_cast
    omega
  by_cases hzero : s.count - 1 = 0
  · refine ⟨hdown, fun hpos => ?_, fun _ => ?_, ?_⟩
    · change 0 < s.count - 1 at hpos
      omega
    · simp only [if_pos hzero]
      rfl
    · simp only [if_pos hzero]
      exact hs.calls.trans (Condition.perm_threads_notifyAll.symm.append_left _)
  · refine ⟨hdown, fun hpos => ?_, fun hle => ?_, ?_⟩
    · change 0 < s.count - 1 at hpos
      exact hs.early (by omega)
    · change s.count - 1 ≤ 0 at hle
      simp only [if_neg hzero]
      exact hs.released (by omega)
    · simp only [if_neg hzero]
      exact hs.calls

theorem Inv.step {a : LatchAction} (hs : s.Inv n) (h : s.step a = some (.ok t)) : t.Inv n := by
  cases a with
  | wait i =>
    cases h
    refine Inv.waitLocked (s := { s with waits := s.waits ++ [i] }) hs.count hs.early
      hs.released ?_
    change (s.waits ++ [i]).Perm (s.returned ++ i :: s.condition.threads)
    refine (List.perm_append_singleton i _).trans ?_
    exact (hs.calls.cons i).trans List.perm_middle.symm
  | resume w j =>
    simp only [CountDownLatch.step] at h
    split at h
    · cases h
    next i c hc =>
      cases h
      refine Inv.waitLocked (s := { s with condition := c }) hs.count hs.early ?_ ?_
      · intro hle
        exact (Condition.resume_waiting hc).trans (hs.released hle)
      · exact hs.calls.trans ((Condition.perm_threads_resume hc).append_left _)
  | wake j =>
    simp only [CountDownLatch.step] at h
    split at h
    · cases h
    next c hc =>
      cases h
      refine ⟨hs.count, hs.early, ?_, ?_⟩
      · intro hle
        obtain ⟨i, hi, -⟩ := Condition.wakeSpuriously_cases hc
        rw [hs.released hle] at hi
        cases hi
      · exact hs.calls.trans ((Condition.perm_threads_wakeSpuriously hc).symm.append_left _)
  | countDown =>
    have h' : s.countDown = .ok t := Option.some.inj h
    exact hs.countDown h'

theorem countDown_ok (h : intMin < s.count) : ∃ t, s.countDown = .ok t := by
  unfold CountDownLatch.countDown
  rw [check_ok h]
  exact ⟨_, rfl⟩

end CountDownLatch

def countDownLatch (count : Int) : Machine CountDownLatch LatchAction LatchFault where
  init := .new count
  step := CountDownLatch.step

namespace CountDownLatch

/-- In every order of calls and wakeups of a latch of `n`: no `wait()` returns before `n` calls of
`countDown()`, and after them nobody is left in the wait without a signal, so that where nobody
is on the way out all calls of `wait()` have returned, each once. -/
theorem count_down_latch (n : Int) (as : List LatchAction) (t : CountDownLatch)
    (h : (countDownLatch n).run (.new n) as = some (.ok t)) :
    t.count = n - t.downs ∧ ((t.downs : Int) < n → t.returned = []) ∧
      (n ≤ t.downs → t.condition.waiting = [] ∧
        (t.condition.Settled → t.returned.Perm t.waits)) := by
  have hinv : t.Inv n := Machine.run_inv_all (fun s a t hs hst => hs.step hst) (Inv.new n) h
  have hcount := hinv.count
  refine ⟨hcount, fun hlt => hinv.early (by omega), ?_⟩
  intro hle
  have hnone := hinv.released (by omega)
  refine ⟨hnone, ?_⟩
  intro hsettled
  have hcalls := hinv.calls
  rw [hsettled.threads_eq, hnone, List.append_nil] at hcalls
  exact hcalls.symm

/- A spurious wakeup comes before the second `countDown()`, and a `wait()` behind it. -/
def twoDowns : List LatchAction :=
  [.wait 0, .countDown, .wait 1, .wake 0, .resume .spurious 0, .countDown, .resume .signal 0,
    .wait 2, .resume .signal 0, .countDown]

theorem count_down_latch_two_downs :
    ∃ t, (countDownLatch 2).run (.new 2) twoDowns = some (.ok t) ∧ t.count = -1 ∧
      t.returned = [1, 2, 0] ∧ t.returned.Perm t.waits := by
  have hrun : (countDownLatch 2).runsTo (.new 2) twoDowns
      (fun t => t.returned == [1, 2, 0] && t.downs == 3 && decide t.condition.Settled) = true := by
    decide +kernel
  obtain ⟨t, ht, htest⟩ := Machine.exists_of_runsTo hrun
  simp only [Bool.and_eq_true, beq_iff_eq, decide_eq_true_eq] at htest
  obtain ⟨hcount, _, hall⟩ := count_down_latch 2 twoDowns t ht
  have hdowns := htest.1.2
  refine ⟨t, ht, by omega, htest.1.1, (hall (by omega)).2 htest.2⟩

end CountDownLatch

/-! ### Starting a thread -/

/-- Where the new thread is in `runInThread` (`Thread.cc:83`): before `*tid_`, before
`countDown()`, in `func_()`, or at its end. -/
inductive ThreadRun where
  | storeTid
  | countDown
  | func
  | finished
  deriving DecidableEq, Repr

/-- Where the caller of `start()` is: `waiting` is before or in `latch_.wait()`; after a failed
`pthread_create` the `LOG_SYSFATAL` aborts. -/
inductive StartCall where
  | notCalled
  | waiting
  | returned
  | aborted
  deriving DecidableEq, Repr

inductive ThreadFault where
  | startedTwice
  | tidNotSet
  | joinNotStarted
  | joinedTwice
  | latch (e : LatchFault)
  deriving DecidableEq, Repr

structure Thread where
  started : Bool
  joined : Bool
  tid : Int
  latch : CountDownLatch
  thread : Option ThreadRun
  startCall : StartCall
  deriving DecidableEq, Repr

inductive ThreadAction where
  | start (created : Bool)
  | storeTid (tid : Int)
  | countDown
  | finish
  | wait
  | resume (w : Wakeup) (j : Nat)
  | wake (j : Nat)
  | join
  deriving DecidableEq, Repr

namespace Thread

def new : Thread := ⟨false, false, 0, .new 1, none, .notCalled⟩

/- The rest of `start()` when its `latch_.wait()` has left the latch as `latch`
(`Thread.cc:204`). -/
def afterWait (s : Thread) (latch : CountDownLatch) : Except ThreadFault Thread :=
  if latch.returned = [] then return { s with latch := latch }
  else do
    check (0 < s.tid) .tidNotSet
    return { s with latch := latch, startCall := .returned }

def onLatch (s : Thread) (a : LatchAction) (next : CountDownLatch → Except ThreadFault Thread) :
    Option (Except ThreadFault Thread) :=
  match s.latch.step a with
  | none => none
  | some (.error e) => some (.error (.latch e))
  | some (.ok latch) => some (next latch)

def step (s : Thread) : ThreadAction → Option (Except ThreadFault Thread)
  | .start created =>
    if s.startCall = .aborted then none
    else some do
      check (s.started = false) .startedTwice
      if created then
        return { s with started := true, thread := some .storeTid, startCall := .waiting }
      else return { s with started := false, startCall := .aborted }
  | .storeTid tid =>
    if s.thread = some .storeTid then
      some (.ok { s with tid := tid, thread := some .countDown })
    else none
  | .countDown =>
    if s.thread = some .countDown then
      s.onLatch .countDown fun latch => .ok { s with latch := latch, thread := some .func }
    else none
  | .finish =>
    if s.thread = some .func then some (.ok { s with thread := some .finished }) else none
  | .wait =>
    if s.startCall = .waiting ∧ s.latch.waits = [] then s.onLatch (.wait 0) s.afterWait else none
  | .resume w j => s.onLatch (.resume w j) s.afterWait
  | .wake j => s.onLatch (.wake j) fun latch => .ok { s with latch := latch }
  | .join =>
    if s.started = false then some (.error .joinNotStarted)
    else if s.joined = true then some (.error .joinedTwice)
    else if s.thread = some .finished then some (.ok { s with joined := true })
    else none

/- The system gives out positive thread ids, and the owner starts once and joins once. -/
def Used (s : Thread) : ThreadAction → Prop
  | .start _ => s.started = false
  | .storeTid tid => 0 < tid
  | .join => s.started = true ∧ s.joined = false
  | _ => True

instance (s : Thread) (a : ThreadAction) : Decidable (s.Used a) :=
  match a with
  | .start _ => inferInstanceAs (Decidable (s.started = false))
  | .storeTid tid => inferInstanceAs (Decidable (0 < tid))
  | .join => inferInstanceAs (Decidable (s.started = true ∧ s.joined = false))
  | .countDown | .finish | .wait | .resume _ _ | .wake _ => inferInstanceAs (Decidable True)

def Counted (s : Thread) : Prop := s.thread = some .func ∨ s.thread = some .finished

instance (s : Thread) : Decidable s.Counted :=
  inferInstanceAs (Decidable (_ ∨ _))

/- The id is there before the latch goes down, and the latch before the `wait()` returns. -/
structure Inv (s : Thread) : Prop where
  latch : s.latch.Inv 1
  downs : s.latch.downs = if s.Counted then 1 else 0
  tid : s.thread ≠ none → s.thread ≠ some .storeTid → 0 < s.tid
  started : s.thread ≠ none → s.started = true
  returned : s.startCall = .returned ↔ s.latch.returned ≠ []
  waits : s.startCall = .notCalled ∨ s.startCall = .aborted → s.latch.waits = []
  idle : s.thread = none → s.startCall = .notCalled ∨ s.startCall = .aborted

theorem Inv.new : Thread.new.Inv where
  latch := .new 1
  downs := rfl
  tid := fun h => absurd rfl h
  started := fun h => absurd rfl h
  returned := by simp [Thread.new, CountDownLatch.new]
  waits := fun _ => rfl
  idle := fun _ => .inl rfl

variable {s t : Thread}

theorem counted_of_returned {latch : CountDownLatch} (hl : latch.Inv 1)
    (hd : latch.downs = if s.Counted then 1 else 0) (h : latch.returned ≠ []) : s.Counted := by
  by_contra hnot
  rw [if_neg hnot] at hd
  have hcount := hl.count
  exact h (hl.early (by omega))

theorem Inv.tid_pos (hs : s.Inv) (h : s.Counted) : 0 < s.tid := by
  rcases h with hc | hc
  · exact hs.tid (by simp [hc]) (by simp [hc])
  · exact hs.tid (by simp [hc]) (by simp [hc])

theorem onLatch_cases {a : LatchAction} {next : CountDownLatch → Except ThreadFault Thread}
    {x : Except ThreadFault Thread} (hs : s.Inv) (ha : a = .countDown → ¬ s.Counted)
    (h : s.onLatch a next = some x) :
    ∃ latch, s.latch.step a = some (.ok latch) ∧ latch.Inv 1 ∧ x = next latch := by
  unfold onLatch at h
  split at h
  · cases h
  next e he =>
    cases a with
    | countDown =>
      have hcount := hs.latch.count
      have hdowns := hs.downs
      rw [if_neg (ha rfl)] at hdowns
      have hroom : intMin < s.latch.count := by
        unfold intMin
        omega
      obtain ⟨l, hl⟩ := CountDownLatch.countDown_ok hroom
      simp only [CountDownLatch.step, hl] at he
      cases he
    | wait i => cases he
    | resume w j =>
      simp only [CountDownLatch.step] at he
      split at he <;> cases he
    | wake j =>
      simp only [CountDownLatch.step] at he
      split at he <;> cases he
  next latch hlatch =>
    cases h
    exact ⟨latch, hlatch, hs.latch.step hlatch, rfl⟩

end Thread

namespace CountDownLatch

theorem step_downs {s t : CountDownLatch} {a : LatchAction} (ha : a ≠ .countDown)
    (h : s.step a = some (.ok t)) :
    t.downs = s.downs ∧ (t.waits = s.waits ∨ ∃ i, a = .wait i) ∧
      (s.returned ≠ [] → t.returned ≠ []) ∧
      ((∃ j, a = .wake j) → t.returned = s.returned) := by
  have hlocked : ∀ (l : CountDownLatch) (i : Nat), (l.waitLocked i).downs = l.downs ∧
      (l.waitLocked i).waits = l.waits ∧ (l.returned ≠ [] → (l.waitLocked i).returned ≠ []) := by
    intro l i
    unfold waitLocked
    split
    · exact ⟨rfl, rfl, id⟩
    · exact ⟨rfl, rfl, fun _ => by simp⟩
  cases a with
  | wait i =>
    cases h
    obtain ⟨hd, _, hr⟩ := hlocked { s with waits := s.waits ++ [i] } i
    exact ⟨hd, .inr ⟨i, rfl⟩, hr, fun hw => by obtain ⟨j, hj⟩ := hw; cases hj⟩
  | resume w j =>
    simp only [step] at h
    split at h
    · cases h
    next i c _ =>
      cases h
      obtain ⟨hd, hw, hr⟩ := hlocked { s with condition := c } i
      exact ⟨hd, .inl hw, hr, fun hw => by obtain ⟨j, hj⟩ := hw; cases hj⟩
  | wake j =>
    simp only [step] at h
    split at h
    · cases h
    · cases h
      exact ⟨rfl, .inl rfl, id, fun _ => rfl⟩
  | countDown => exact absurd rfl ha

theorem countDown_eq {s t : CountDownLatch} (h : s.step .countDown = some (.ok t)) :
    t.downs = s.downs + 1 ∧ t.waits = s.waits ∧ t.returned = s.returned := by
  have h' : s.countDown = .ok t := Option.some.inj h
  unfold countDown at h'
  obtain ⟨-, -, h'⟩ := bind_eq_ok h'
  cases h'
  exact ⟨rfl, rfl, rfl⟩

end CountDownLatch

namespace Thread

variable {s t : Thread}

theorem Inv.afterWait {latch : CountDownLatch} {x : Except ThreadFault Thread} (hs : s.Inv)
    (hl : latch.Inv 1) (hd : latch.downs = s.latch.downs)
    (hw : s.startCall = .notCalled ∨ s.startCall = .aborted → latch.waits = [])
    (hr : s.latch.returned ≠ [] → latch.returned ≠ []) (h : s.afterWait latch = x) :
    ∃ t, x = .ok t ∧ t.Inv := by
  have hmid : latch.returned = [] → { s with latch := latch }.Inv := by
    intro hnil
    refine ⟨hl, hd.trans hs.downs, hs.tid, hs.started, ?_, hw, hs.idle⟩
    change s.startCall = .returned ↔ latch.returned ≠ []
    rw [hs.returned]
    exact ⟨hr, fun hne => absurd hnil hne⟩
  unfold Thread.afterWait at h
  split at h
  next hnil => exact ⟨_, h.symm, hmid hnil⟩
  next hne =>
    have hcounted : s.Counted := counted_of_returned hl (hd.trans hs.downs) hne
    rw [check_ok (hs.tid_pos hcounted)] at h
    refine ⟨_, h.symm, hl, hd.trans hs.downs, hs.tid, hs.started, ⟨fun _ => hne, fun _ => rfl⟩,
      ?_, ?_⟩
    · intro hc
      rcases hc with hc | hc <;> cases hc
    · intro hnone
      change s.thread = none at hnone
      simp [Counted, hnone] at hcounted

theorem Inv.step {a : ThreadAction} {x : Except ThreadFault Thread} (hs : s.Inv) (hg : s.Used a)
    (h : s.step a = some x) : ∃ t, x = .ok t ∧ t.Inv := by
  cases a with
  | start created =>
    simp only [Thread.step] at h
    split at h
    · cases h
    next hab =>
      have hnone : s.thread = none := by
        by_contra hne
        have hst := hs.started hne
        rw [show s.started = false from hg] at hst
        cases hst
      have hidle := hs.idle hnone
      have hret : s.latch.returned = [] := by
        by_contra hne
        rcases hidle with hc | hc
        · cases hc.symm.trans (hs.returned.mpr hne)
        · cases hc.symm.trans (hs.returned.mpr hne)
      have hdowns := hs.downs
      have hnot : ¬ s.Counted := by simp [Counted, hnone]
      rw [if_neg hnot] at hdowns
      cases h
      have hfree : s.started = false := hg
      rw [check_ok hfree]
      cases created with
      | true =>
        refine ⟨_, rfl, hs.latch, hdowns, fun _ hc => absurd rfl hc, fun _ => rfl, ?_, ?_, ?_⟩
        · change StartCall.waiting = .returned ↔ s.latch.returned ≠ []
          rw [hret]
          simp
        · intro hc
          rcases hc with hc | hc <;> cases hc
        · intro hc
          cases hc
      | false =>
        refine ⟨_, rfl, hs.latch, ?_, fun hc => absurd hnone hc, fun hc => absurd hnone hc, ?_,
          fun _ => hs.waits hidle, fun _ => .inr rfl⟩
        · rw [if_neg (by simp [Counted, hnone])]
          exact hdowns
        · change StartCall.aborted = .returned ↔ s.latch.returned ≠ []
          rw [hret]
          simp
  | storeTid tid =>
    simp only [Thread.step] at h
    split at h
    next hth =>
      cases h
      have hdowns := hs.downs
      refine ⟨_, rfl, hs.latch, ?_, fun _ _ => hg, fun _ => hs.started (by simp [hth]),
        hs.returned, hs.waits, fun hc => by cases hc⟩
      simpa [Counted, hth] using hdowns
    · cases h
  | countDown =>
    simp only [Thread.step] at h
    split at h
    next hth =>
      have hnot : ¬ s.Counted := by simp [Counted, hth]
      obtain ⟨latch, hlatch, hl, rfl⟩ := onLatch_cases hs (fun _ => hnot) h
      obtain ⟨hd, hw, hr⟩ := CountDownLatch.countDown_eq hlatch
      have hdowns := hs.downs
      rw [if_neg hnot] at hdowns
      refine ⟨_, rfl, hl, ?_, fun _ _ => hs.tid (by simp [hth]) (by simp [hth]),
        fun _ => hs.started (by simp [hth]), ?_, ?_, fun hc => by cases hc⟩
      · rw [if_pos (show Counted _ from .inl rfl)]
        change latch.downs = 1
        omega
      · change s.startCall = .returned ↔ latch.returned ≠ []
        rw [hr]
        exact hs.returned
      · change _ → latch.waits = []
        rw [hw]
        exact hs.waits
    · cases h
  | finish =>
    simp only [Thread.step] at h
    split at h
    next hth =>
      cases h
      have hdowns := hs.downs
      refine ⟨_, rfl, hs.latch, ?_, fun _ _ => hs.tid (by simp [hth]) (by simp [hth]),
        fun _ => hs.started (by simp [hth]), hs.returned, hs.waits, fun hc => by cases hc⟩
      simpa [Counted, hth] using hdowns
    · cases h
  | wait =>
    simp only [Thread.step] at h
    split at h
    next hc =>
      obtain ⟨latch, hlatch, hl, rfl⟩ := onLatch_cases hs (fun ha => by cases ha) h
      obtain ⟨hd, -, hr, -⟩ := CountDownLatch.step_downs (by simp) hlatch
      refine hs.afterWait hl hd ?_ hr rfl
      intro hn
      rw [hc.1] at hn
      rcases hn with hn | hn <;> cases hn
    · cases h
  | resume w j =>
    obtain ⟨latch, hlatch, hl, rfl⟩ := onLatch_cases hs (fun ha => by cases ha) h
    obtain ⟨hd, hw, hr, -⟩ := CountDownLatch.step_downs (by simp) hlatch
    refine hs.afterWait hl hd ?_ hr rfl
    rcases hw with hw | ⟨i, hi⟩
    · rw [hw]
      exact hs.waits
    · cases hi
  | wake j =>
    obtain ⟨latch, hlatch, hl, rfl⟩ := onLatch_cases hs (fun ha => by cases ha) h
    obtain ⟨hd, hw, -, hr⟩ := CountDownLatch.step_downs (by simp) hlatch
    refine ⟨_, rfl, hl, hd.trans hs.downs, hs.tid, hs.started, ?_, ?_, hs.idle⟩
    · change s.startCall = .returned ↔ latch.returned ≠ []
      rw [hr ⟨j, rfl⟩]
      exact hs.returned
    · change _ → latch.waits = []
      rcases hw with hw | ⟨i, hi⟩
      · rw [hw]
        exact hs.waits
      · cases hi
  | join =>
    have hst : s.started = true := hg.1
    simp only [Thread.step, hst, hg.2, Bool.true_eq_false, Bool.false_eq_true, if_false] at h
    split at h
    next hth =>
      cases h
      exact ⟨_, rfl, hs.latch, hs.downs, hs.tid, fun _ => rfl, hs.returned, hs.waits, hs.idle⟩
    · cases h

end Thread

def startedThread : Machine Thread ThreadAction ThreadFault where
  init := .new
  step := Thread.step

namespace Thread

/-- In every order of steps of the new thread and of the caller of `start()`, with spurious
wakeups: no assertion of `start()` or `join()` fails, `start()` returns only when the new
thread has stored its id and is past `countDown()`, and from then on the caller is not left
waiting. -/
theorem thread_start (as : List ThreadAction) (x : Except ThreadFault Thread)
    (hg : startedThread.Along Used .new as) (h : startedThread.run .new as = some x) :
    ∃ t, x = .ok t ∧ (t.startCall = .returned → t.Counted ∧ 0 < t.tid) ∧
      (t.Counted → t.latch.condition.waiting = [] ∧
        (t.latch.waits ≠ [] → t.latch.condition.Settled → t.startCall = .returned)) := by
  obtain ⟨t, rfl, hinv⟩ := Machine.run_ok (fun s a x hs hg hx => Inv.step hs hg hx) Inv.new hg h
  refine ⟨t, rfl, ?_, ?_⟩
  · intro hr
    have hcounted := counted_of_returned hinv.latch hinv.downs (hinv.returned.mp hr)
    exact ⟨hcounted, hinv.tid_pos hcounted⟩
  · intro hcounted
    have hdowns := hinv.downs
    rw [if_pos hcounted] at hdowns
    have hcount := hinv.latch.count
    have hnone := hinv.latch.released (by omega)
    refine ⟨hnone, ?_⟩
    intro hwaits hsettled
    have hcalls := hinv.latch.calls
    rw [hsettled.threads_eq, hnone, List.append_nil] at hcalls
    rw [hinv.returned]
    intro hnil
    rw [hnil] at hcalls
    exact hwaits hcalls.eq_nil

/- The caller waits before the new thread runs, and wakes up once for nothing. -/
def startSlowly : List ThreadAction :=
  [.start true, .wait, .wake 0, .storeTid 7, .resume .spurious 0, .countDown, .finish,
    .resume .signal 0, .join]

theorem thread_start_slowly :
    ∃ t, startedThread.run .new startSlowly = some (.ok t) ∧ t.startCall = .returned ∧ t.tid = 7 ∧
      t.Counted ∧ 0 < t.tid := by
  have hrun : startedThread.runsTo .new startSlowly
      (fun t => t.startCall == .returned && t.tid == 7) = true := by
    decide +kernel
  obtain ⟨t, ht, htest⟩ := Machine.exists_of_runsTo hrun
  simp only [Bool.and_eq_true, beq_iff_eq] at htest
  obtain ⟨u, hu, hret, -⟩ := thread_start startSlowly _ (by decide +kernel) ht
  cases hu
  exact ⟨t, ht, htest.1, htest.2, hret htest.1⟩

end Thread

end TstMuduo.Base
