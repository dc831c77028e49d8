import TstMuduo.Net.TimerOwnership

/-!
# Runs of a TimerQueue

The loop thread calls `addTimerInLoop`, `cancelInLoop` and `handleRead` in any
order. `handleRead` is cut where user code runs: it begins by taking the expired
timers, runs their callbacks one after another and ends with `reset`. A callback
may add and cancel timers, and time passes between any two steps.
-/

namespace TstMuduo.Net
open TstMuduo.Lib

/-- A call of `Timer::run`: the timer as it was, the reading of the clock that its
`handleRead` works with, the time of the call. -/
structure TimerRun where
  id : ActiveTimer
  expiration : Int
  interval : Interval
  now : Int
  time : Int

inductive TimerEvent where
  | run (r : TimerRun)
  | cancel (id : ActiveTimer)

/-- A `handleRead` in its loop over `expired`: the timers that have run, in order,
and those still to run. -/
structure Batch where
  now : Int
  ran : List Entry
  rest : List Entry

/- `limbo` holds the timers that `addTimer` has allocated and whose
`addTimerInLoop` is still to run. -/
structure TimerSystem where
  queue : TimerQueue
  clock : Clock
  numCreated : Nat
  limbo : List Nat
  batch : Option Batch
  trace : List TimerEvent

namespace TimerSystem

def new (clock : Clock) (numCreated : Nat) : TimerSystem :=
  ⟨.new, clock, numCreated, [], none, []⟩

/- `created` is the creation of a timer for another queue: the numbers come from
one counter. -/
inductive Act where
  | tick (d : Nat)
  | created
  | newTimer (a : Nat) (when_ : Int) (interval : Interval)
  | addTimerInLoop (a : Nat)
  | cancelInLoop (id : ActiveTimer)
  | handleRead
  | run
  | endRead

def inUserCode (s : TimerSystem) : Bool :=
  match s.batch with
  | none => true
  | some b => !b.ran.isEmpty

def runOf (e : Entry) (t : Timer) (now time : Int) : TimerRun :=
  ⟨⟨e.timer, t.sequence⟩, t.expiration, t.interval, now, time⟩

def allocated (q : TimerQueue) (a : Nat) (t : Timer) : TimerQueue :=
  { q with heap := Function.update q.heap a (some t) }

/- A `TimerId` comes from `addTimer`, so its number has been given out; the address
in it may be stale. -/
def step (s : TimerSystem) : Act → Option (Except TimerFault TimerSystem)
  | .tick d => some (.ok { s with clock := s.clock.tick d })
  | .created => some (.ok { s with numCreated := s.numCreated + 1 })
  | .newTimer a when_ interval =>
    if (s.queue.heap a).isNone = true ∧ a < UINTPTR_MAX then
      some (.ok { s with
        queue := allocated s.queue a ⟨when_, interval, s.numCreated + 1⟩
        numCreated := s.numCreated + 1
        limbo := a :: s.limbo })
    else none
  | .addTimerInLoop a =>
    if a ∈ s.limbo ∧ s.inUserCode = true then
      some (do
        let q ← s.queue.addTimerInLoop a s.clock.now
        return { s with queue := q, limbo := s.limbo.filter (· ≠ a) })
    else none
  | .cancelInLoop id =>
    if id.sequence ≤ s.numCreated ∧ s.inUserCode = true then
      some (do
        let q ← s.queue.cancelInLoop id
        return { s with queue := q, trace := s.trace ++ [.cancel id] })
    else none
  | .handleRead =>
    match s.batch with
    | some _ => none
    | none => some (do
        let (expired, q) ← s.queue.handleReadBegin s.clock.now
        return { s with queue := q, batch := some ⟨s.clock.now, [], expired⟩ })
  | .run =>
    match s.batch with
    | some ⟨now, ran, e :: rest⟩ => some (do
        let t ← s.queue.deref e.timer
        return { s with
          batch := some ⟨now, ran ++ [e], rest⟩
          trace := s.trace ++ [.run (runOf e t now s.clock.now)] })
    | _ => none
  | .endRead =>
    match s.batch with
    | some ⟨now, ran, []⟩ => some (do
        let q ← s.queue.handleReadEnd ran now s.clock.now
        return { s with queue := q, batch := none })
    | _ => none

def machine (clock : Clock) (numCreated : Nat) : Machine TimerSystem Act TimerFault where
  init := new clock numCreated
  step := step

def held (s : TimerSystem) : List Entry :=
  match s.batch with
  | none => []
  | some b => b.ran ++ b.rest

structure Wf (s : TimerSystem) : Prop where
  queue : s.queue.Wf s.held { a | a ∈ s.limbo } s.numCreated
  calling : s.queue.callingExpiredTimers = s.batch.isSome

def added (q : TimerQueue) (a : Nat) (t : Timer) (now : Int) : TimerQueue :=
  if q.earliest t.expiration = true then (q.inserted a t).resetTimerfd t.expiration now
  else q.inserted a t

def deleted (q : TimerQueue) (a : Nat) : TimerQueue :=
  { q with heap := Function.update q.heap a none }

/-- What a step can do. -/
inductive Step : TimerSystem → Act → TimerSystem → Prop where
  | tick {s : TimerSystem} (d : Nat) : Step s (.tick d) { s with clock := s.clock.tick d }
  | created {s : TimerSystem} : Step s .created { s with numCreated := s.numCreated + 1 }
  | newTimer {s : TimerSystem} (a : Nat) (when_ : Int) (interval : Interval)
      (hn : s.queue.heap a = none) :
      Step s (.newTimer a when_ interval) { s with
        queue := allocated s.queue a ⟨when_, interval, s.numCreated + 1⟩
        numCreated := s.numCreated + 1
        limbo := a :: s.limbo }
  | addTimerInLoop {s : TimerSystem} (a : Nat) (t : Timer) (hl : a ∈ s.limbo)
      (ht : s.queue.heap a = some t) :
      Step s (.addTimerInLoop a) { s with
        queue := added s.queue a t s.clock.now, limbo := s.limbo.filter (· ≠ a) }
  | cancelActive {s : TimerSystem} (id : ActiveTimer) (t : Timer)
      (ht : s.queue.heap id.timer = some t) (hs : t.sequence = id.sequence)
      (hq : s.queue.Queued id.timer) :
      Step s (.cancelInLoop id) { s with
        queue := deleted (s.queue.erased id.timer t) id.timer
        trace := s.trace ++ [.cancel id] }
  | cancelOther {s : TimerSystem} (id : ActiveTimer) (hs : id.sequence ≤ s.numCreated)
      (hid : ¬ id ∈ s.queue.activeTimers) :
      Step s (.cancelInLoop id) { s with
        queue := if s.queue.callingExpiredTimers = true then
          { s.queue with cancelingTimers := s.queue.cancelingTimers.insert id } else s.queue
        trace := s.trace ++ [.cancel id] }
  | handleRead {s : TimerSystem} (act : OrderedSet ActiveTimer) (hb : s.batch = none) :
      Step s .handleRead { s with
        queue := { s.queue with
          timers := s.queue.timers.notBefore (TimerQueue.sentry s.clock.now)
          activeTimers := act
          callingExpiredTimers := true
          cancelingTimers := .empty
          timerfd := (s.queue.readTimerfd s.clock.now).timerfd }
        batch := some ⟨s.clock.now, [], s.queue.timers.before (TimerQueue.sentry s.clock.now)⟩ }
  | run {s : TimerSystem} (now : Int) (ran : List Entry) (e : Entry) (rest : List Entry) (t : Timer)
      (hb : s.batch = some ⟨now, ran, e :: rest⟩) (ht : s.queue.heap e.timer = some t) :
      Step s .run { s with
        batch := some ⟨now, ran ++ [e], rest⟩
        trace := s.trace ++ [.run (runOf e t now s.clock.now)] }
  | endRead {s : TimerSystem} (now : Int) (ran : List Entry) (r : TimerQueue)
      (hb : s.batch = some ⟨now, ran, []⟩) (hw : r.Wf [] { a | a ∈ s.limbo } s.numCreated)
      (hr : TimerQueue.Refreshed { s.queue with callingExpiredTimers := false } r now ran) :
      Step s .endRead { s with queue := r.rearmed s.clock.now, batch := none }

theorem added_wf {q : TimerQueue} {held : List Entry} {limbo : Set Nat} {n a : Nat} {t : Timer}
    (hw : q.Wf held limbo n) (ha : a ∈ limbo) (ht : q.heap a = some t) (now : Int) :
    (added q a t now).Wf held (limbo \ {a}) n := by
  have hi := hw.insert ha ht
  unfold added
  split
  · exact hi.congr rfl rfl rfl
  · exact hi

@[simp]
theorem added_calling (q : TimerQueue) (a : Nat) (t : Timer) (now : Int) :
    (added q a t now).callingExpiredTimers = q.callingExpiredTimers := by
  unfold added
  split <;> rfl

theorem rearmed_wf {r : TimerQueue} {held : List Entry} {limbo : Set Nat} {n : Nat}
    (hw : r.Wf held limbo n) (clock : Int) : (r.rearmed clock).Wf held limbo n := by
  unfold TimerQueue.rearmed
  split
  · exact hw.congr rfl rfl rfl
  · exact hw

theorem rearmed_calling (r : TimerQueue) (clock : Int) :
    (r.rearmed clock).callingExpiredTimers = r.callingExpiredTimers := by
  unfold TimerQueue.rearmed
  split <;> rfl

theorem step_sound (s : TimerSystem) (a : Act) (x : Except TimerFault TimerSystem) (hw : s.Wf)
    (h : s.step a = some x) : ∃ t, x = .ok t ∧ Step s a t ∧ t.Wf := by
  obtain ⟨hq, hc⟩ := hw
  cases a with
  | tick d =>
    cases h
    exact ⟨_, rfl, .tick d, hq, hc⟩
  | created =>
    cases h
    exact ⟨_, rfl, .created, hq.mono (Nat.le_succ _), hc⟩
  | newTimer a when_ interval =>
    simp only [step] at h
    split at h
    next hg =>
      have hn : s.queue.heap a = none := Option.isNone_iff_eq_none.mp hg.1
      cases h
      refine ⟨_, rfl, .newTimer a when_ interval hn, ?_, hc⟩
      have hset : { b | b ∈ a :: s.limbo } = Insert.insert a { b | b ∈ s.limbo } := by
        ext b
        simp
      change TimerQueue.Wf _ s.held { b | b ∈ a :: s.limbo } _
      rw [hset]
      exact hq.alloc hn hg.2 rfl
    · cases h
  | addTimerInLoop a =>
    simp only [step] at h
    split at h
    next hg =>
      obtain ⟨_, _, t, ht⟩ := hq.waiting a hg.1
      rw [TimerQueue.addTimerInLoop_eq hq hg.1 ht] at h
      cases h
      refine ⟨_, rfl, .addTimerInLoop a t hg.1 ht, ?_, ?_⟩
      · have hset : { b | b ∈ s.limbo.filter (· ≠ a) } = { b | b ∈ s.limbo } \ {a} := by
          ext b
          simp
        change TimerQueue.Wf _ s.held { b | b ∈ s.limbo.filter (· ≠ a) } _
        rw [hset]
        exact added_wf hq hg.1 ht s.clock.now
      · exact (added_calling _ _ _ _).trans hc
    · cases h
  | cancelInLoop id =>
    simp only [step] at h
    split at h
    next hg =>
      by_cases hid : id ∈ s.queue.activeTimers
      · obtain ⟨t, ht, hs, hqd, he⟩ := TimerQueue.cancelInLoop_active hq hid
        rw [he] at h
        cases h
        refine ⟨_, rfl, .cancelActive id t ht hs hqd, ?_, hc⟩
        have hnot : id.timer ∉ { b | b ∈ s.limbo } := fun hm => (hq.waiting _ hm).1 hqd
        have hd := (hq.erase ht hqd).delete (Set.mem_insert id.timer _)
        rw [Set.insert_sdiff_self_of_notMem hnot] at hd
        exact hd
      · rw [TimerQueue.cancelInLoop_other hq hid] at h
        cases h
        refine ⟨_, rfl, .cancelOther id hg.1 hid, ?_, ?_⟩
        · dsimp only
          split
          · exact hq.congr rfl rfl rfl
          · exact hq
        · dsimp only
          split <;> exact hc
    · cases h
  | handleRead =>
    simp only [step] at h
    split at h
    · cases h
    next hb =>
      have hq0 : s.queue.Wf [] { a | a ∈ s.limbo } s.numCreated := by
        simpa only [held, hb] using hq
      obtain ⟨act, he, hwe⟩ := TimerQueue.handleReadBegin_spec hq0 s.clock.now
      rw [he] at h
      cases h
      exact ⟨_, rfl, .handleRead act hb, hwe, rfl⟩
  | run =>
    simp only [step] at h
    split at h
    next now ran e rest hb =>
      have hheld : s.held = ran ++ e :: rest := by simp only [held, hb]
      obtain ⟨_, t, ht, _⟩ := hq.expired e (by rw [hheld]; simp)
      rw [TimerQueue.deref_eq ht] at h
      cases h
      refine ⟨_, rfl, .run now ran e rest t hb ht, ?_, ?_⟩
      · have hsame : held { s with
            batch := some ⟨now, ran ++ [e], rest⟩
            trace := s.trace ++ [.run (runOf e t now s.clock.now)] } = s.held := by
          rw [hheld]
          simp [held]
        rw [hsame]
        exact hq
      · rw [hc, hb]
        rfl
    · cases h
  | endRead =>
    simp only [step] at h
    split at h
    next now ran hb =>
      have hq0 : s.queue.Wf ran { a | a ∈ s.limbo } s.numCreated := by
        simpa only [held, hb, List.append_nil] using hq
      obtain ⟨r, he, hwr, hr⟩ := TimerQueue.handleReadEnd_spec hq0 now s.clock.now
      rw [he] at h
      cases h
      refine ⟨_, rfl, .endRead now ran r hb hwr hr, rearmed_wf hwr _, ?_⟩
      have hcall : r.callingExpiredTimers = false := by rw [hr.frame]
      exact (rearmed_calling r _).trans hcall
    · cases h

theorem new_wf (clock : Clock) (n : Nat) : (new clock n).Wf := by
  refine ⟨?_, rfl⟩
  have hset : { a : Nat | a ∈ ([] : List Nat) } = ∅ := by
    ext a
    simp
  change TimerQueue.new.Wf [] { a : Nat | a ∈ ([] : List Nat) } n
  rw [hset]
  exact TimerQueue.new_wf n

/-- No run trips an assertion, deletes a `Timer` twice or reads a deleted one.
`timers_` and `activeTimers_` hold the same live timers, each under its current
expiration and its number, and the expired timers of a `handleRead` are live. -/
theorem representation (clock : Clock) (n : Nat) (acts : List Act)
    (x : Except TimerFault TimerSystem) (h : (machine clock n).run (new clock n) acts = some x) :
    ∃ s, x = .ok s ∧
      (∀ a, (∃ e, e ∈ s.queue.timers ∧ e.timer = a) ↔
        ∃ p, p ∈ s.queue.activeTimers ∧ p.timer = a) ∧
      s.queue.timers.size = s.queue.activeTimers.size ∧
      (∀ e, e ∈ s.queue.timers →
        ∃ t, s.queue.heap e.timer = some t ∧ t.expiration = e.expiration) ∧
      (∀ p, p ∈ s.queue.activeTimers →
        ∃ t, s.queue.heap p.timer = some t ∧ t.sequence = p.sequence) ∧
      ∀ e ∈ s.held, ∃ t, s.queue.heap e.timer = some t := by
  have hstep : ∀ s a x, s.Wf → (machine clock n).step s a = some x → ∃ t, x = .ok t ∧ t.Wf := by
    intro s a x hw hst
    obtain ⟨t, hx, _, ht⟩ := step_sound s a x hw hst
    exact ⟨t, hx, ht⟩
  obtain ⟨s, hx, hw⟩ := Machine.run_ok_all hstep (new_wf clock n) h
  have hq := hw.queue
  refine ⟨s, hx, ?_, hq.sizes, ?_, ?_, ?_⟩
  · intro a
    constructor
    · intro he
      obtain ⟨e, he, rfl⟩ := he
      obtain ⟨t, _, _, hm⟩ := hq.timers e he
      exact ⟨_, hm, rfl⟩
    · intro hp
      obtain ⟨p, hp, rfl⟩ := hp
      obtain ⟨t, _, _, hm⟩ := hq.active p hp
      exact ⟨_, hm, rfl⟩
  · intro e he
    obtain ⟨t, ht, hx, _⟩ := hq.timers e he
    exact ⟨t, ht, hx⟩
  · intro p hp
    obtain ⟨t, ht, hs, _⟩ := hq.active p hp
    exact ⟨t, ht, hs⟩
  · intro e he
    obtain ⟨_, t, ht, _⟩ := hq.expired e he
    exact ⟨t, ht⟩

def epoch : Clock := ⟨1, by decide⟩

def oneShot : Interval := ⟨false, 0, by decide⟩

def every (d : Nat) : Interval := ⟨true, d, fun _ => Int.natCast_nonneg d⟩

/- Two timers expire together. The callback of the first cancels the second, which
repeats, and adds a third; then the address of the first is used again and its
stale id is cancelled. -/
def representationActs : List Act :=
  [.newTimer 8 5 oneShot, .addTimerInLoop 8, .newTimer 16 5 (every 10), .addTimerInLoop 16,
    .tick 10, .handleRead, .run, .cancelInLoop ⟨16, 2⟩, .newTimer 24 30 oneShot,
    .addTimerInLoop 24, .run, .endRead, .newTimer 8 40 (every 10), .addTimerInLoop 8,
    .cancelInLoop ⟨8, 1⟩]

theorem representation_sample :
    ∃ s, (machine epoch 0).run (new epoch 0) representationActs = some (.ok s) ∧
      s.queue.timers.keys = [⟨30, 24⟩, ⟨40, 8⟩] ∧
      s.queue.timers.size = s.queue.activeTimers.size := by
  have hr : (machine epoch 0).runsTo (new epoch 0) representationActs
      (fun s => decide (s.queue.timers.keys = [⟨30, 24⟩, ⟨40, 8⟩])) = true := by
    decide +kernel
  obtain ⟨s, hs, hp⟩ := Machine.exists_of_runsTo hr
  obtain ⟨t, ht, _, hsize, _⟩ := representation epoch 0 representationActs _ hs
  cases ht
  exact ⟨s, hs, of_decide_eq_true hp, hsize⟩

end TimerSystem
end TstMuduo.Net
