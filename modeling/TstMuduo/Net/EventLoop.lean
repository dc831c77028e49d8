import Mathlib.Data.List.Nodup
import TstMuduo.Net.Basic

/-!
# EventLoop (muduo/net/EventLoop.cpp)

The loop thread runs `loop()` as a program with a counter, any number of other
threads call `queueInLoop` and `quit`. A push under the mutex and the write to
the eventfd after it are separate steps, so other steps may come between them.
Handlers, functor bodies and the destructors of functors are user code: the loop
thread may call `queueInLoop` in all of them, and also outside `loop()`.
-/

namespace TstMuduo.Net
open TstMuduo.Lib

/-- Who called `queueInLoop`: the loop's own thread or another one. -/
inductive Caller where
  | loop
  | other (thread : Nat)
  deriving DecidableEq, Repr

/-- A pushed functor with the number of its push and the thread it came from. -/
structure Task (F : Type) where
  no : Nat
  caller : Caller
  functor : F
  deriving DecidableEq, Repr

/-- A thread outside the loop: at rest, between its push and its `wakeup()`, or
between the store of `quit_` and the `wakeup()` of `quit`. -/
inductive CallerPc where
  | idle
  | pushed
  | quitting
  deriving DecidableEq, Repr

/-- An entry of `activeChannels_`. -/
inductive Active (E : Type) where
  | wakeupChannel
  | channel (e : E)
  deriving DecidableEq, Repr

/-- Where the loop thread stands. -/
inductive Phase (E : Type) where
  | outside
  | entered
  | testing
  | polling
  | handling (active : List (Active E))
  | swapping
  | running
  | destroying
  deriving DecidableEq, Repr

structure Loop (F E : Type) where
  looping : Bool
  quit : Bool
  eventHandling : Bool
  callingPendingFunctors : Bool
  wakeupFd : Nat
  pendingFunctors : List (Task F)
  functors : List (Task F)
  phase : Phase E
  waking : Bool
  others : Nat → CallerPc
  pushes : List (Task F)
  executed : List (Task F)

variable {F E : Type}

namespace Phase

def userCode : Phase E → Bool
  | .outside => true
  | .handling _ => true
  | .running => true
  | .destroying => true
  | _ => false

/- The phases from which the loop thread reaches `poll` before the next swap. -/
def settled : Phase E → Bool
  | .handling _ => false
  | .swapping => false
  | _ => true

end Phase

/- `write` of one to a nonblocking eventfd: at the largest value it fails. -/
def eventfdWrite (counter : Nat) : Nat :=
  if counter < 2 ^ 64 - 2 then counter + 1 else counter

theorem eventfdWrite_pos (counter : Nat) : 0 < eventfdWrite counter := by
  unfold eventfdWrite
  split <;> omega

namespace Loop

def new : Loop F E where
  looping := false
  quit := false
  eventHandling := false
  callingPendingFunctors := false
  wakeupFd := 0
  pendingFunctors := []
  functors := []
  phase := .outside
  waking := false
  others := fun _ => .idle
  pushes := []
  executed := []

def setPc (s : Loop F E) (t : Nat) (pc : CallerPc) : Loop F E :=
  { s with others := Function.update s.others t pc }

/- `pendingFunctors_.push_back(cb)` under `mutex_`. -/
def push (s : Loop F E) (caller : Caller) (f : F) : Loop F E :=
  { s with
    pendingFunctors := s.pendingFunctors ++ [⟨s.pushes.length, caller, f⟩]
    pushes := s.pushes ++ [⟨s.pushes.length, caller, f⟩] }

/- EventLoop.cpp:372 -/
def wakeup (s : Loop F E) : Loop F E := { s with wakeupFd := eventfdWrite s.wakeupFd }

inductive Act (F E : Type) where
  | push (t : Nat) (f : F)
  | wakeup (t : Nat)
  | quit (t : Nat)
  | ownPush (f : F)
  | ownWakeup
  | ownQuit
  | loop
  | resetQuit
  | testQuit
  | pollReturn (active : List (Active E))
  | handle
  | endHandling
  | swap
  | runFunctor
  | endRunning
  | endDestroying

def wakes (active : List (Active E)) : Bool :=
  active.any fun
    | .wakeupChannel => true
    | .channel _ => false

/- One step of `handleEvent` over `activeChannels_`; the wakeup channel's read
callback is `EventLoop::handleRead` (EventLoop.cpp:383). -/
def handleOne (s : Loop F E) : List (Active E) → Option (Loop F E)
  | [] => none
  | .wakeupChannel :: rest => some { s with wakeupFd := 0, phase := .handling rest }
  | .channel _ :: rest => some { s with phase := .handling rest }

/- EventLoop.cpp:127 and 393, one statement at a time. `poll` reports the wakeup
channel only while the eventfd is readable, and may return with nothing. -/
def control (s : Loop F E) : Act F E → Option (Except Assertion (Loop F E))
  | .loop =>
    match s.phase with
    | .outside => some (do
        check (s.looping = false) .loopNotLooping
        return { s with looping := true, phase := .entered })
    | _ => none
  | .resetQuit =>
    match s.phase with
    | .entered => some (.ok { s with quit := false, phase := .testing })
    | _ => none
  | .testQuit =>
    match s.phase with
    | .testing => some (.ok
        (if s.quit = true then { s with looping := false, phase := .outside }
        else { s with phase := .polling }))
    | _ => none
  | .pollReturn active =>
    match s.phase with
    | .polling =>
      if wakes active = true ∧ s.wakeupFd = 0 then none
      else some (.ok { s with eventHandling := true, phase := .handling active })
    | _ => none
  | .handle =>
    match s.phase with
    | .handling active => (s.handleOne active).map .ok
    | _ => none
  | .endHandling =>
    match s.phase with
    | .handling [] => some (.ok
        { s with eventHandling := false, callingPendingFunctors := true, phase := .swapping })
    | _ => none
  | .swap =>
    match s.phase with
    | .swapping => some (.ok
        { s with functors := s.pendingFunctors, pendingFunctors := [], phase := .running })
    | _ => none
  | .runFunctor =>
    match s.phase, s.functors with
    | .running, task :: rest => some (.ok
        { s with functors := rest, executed := s.executed ++ [task] })
    | _, _ => none
  | .endRunning =>
    match s.phase, s.functors with
    | .running, [] => some (.ok { s with callingPendingFunctors := false, phase := .destroying })
    | _, _ => none
  | .endDestroying =>
    match s.phase with
    | .destroying => some (.ok { s with phase := .testing })
    | _ => none
  | _ => none

/- `queueInLoop` (EventLoop.cpp:192) and `quit` (EventLoop.cpp:168) in both kinds
of threads; the loop thread writes the eventfd only if it runs functors. -/
def step (s : Loop F E) : Act F E → Option (Except Assertion (Loop F E))
  | .push t f =>
    if s.others t = .idle then some (.ok ((s.push (.other t) f).setPc t .pushed)) else none
  | .wakeup t => if s.others t = .idle then none else some (.ok (s.wakeup.setPc t .idle))
  | .quit t =>
    if s.others t = .idle then some (.ok ({ s with quit := true }.setPc t .quitting)) else none
  | .ownPush f =>
    if s.phase.userCode = true ∧ s.waking = false then
      some (.ok { s.push .loop f with waking := s.callingPendingFunctors })
    else none
  | .ownWakeup =>
    if s.waking = true then some (.ok { s.wakeup with waking := false }) else none
  | .ownQuit =>
    if s.phase.userCode = true ∧ s.waking = false then some (.ok { s with quit := true })
    else none
  | a => if s.waking = true then none else s.control a

def machine (F E : Type) : Machine (Loop F E) (Act F E) Assertion where
  init := new
  step := step

/-- What a step can do. -/
inductive Step : Loop F E → Act F E → Loop F E → Prop where
  | push {s : Loop F E} (t : Nat) (f : F) (h : s.others t = .idle) :
      Step s (.push t f) ((s.push (.other t) f).setPc t .pushed)
  | wakeup {s : Loop F E} (t : Nat) (h : s.others t ≠ .idle) :
      Step s (.wakeup t) (s.wakeup.setPc t .idle)
  | quit {s : Loop F E} (t : Nat) (h : s.others t = .idle) :
      Step s (.quit t) ({ s with quit := true }.setPc t .quitting)
  | ownPush {s : Loop F E} (f : F) (h : s.phase.userCode = true) (hw : s.waking = false) :
      Step s (.ownPush f) { s.push .loop f with waking := s.callingPendingFunctors }
  | ownWakeup {s : Loop F E} (h : s.waking = true) :
      Step s .ownWakeup { s.wakeup with waking := false }
  | ownQuit {s : Loop F E} (h : s.phase.userCode = true) :
      Step s .ownQuit { s with quit := true }
  | loop {s : Loop F E} (h : s.phase = .outside) :
      Step s .loop { s with looping := true, phase := .entered }
  | resetQuit {s : Loop F E} (h : s.phase = .entered) :
      Step s .resetQuit { s with quit := false, phase := .testing }
  | leave {s : Loop F E} (h : s.phase = .testing) (hq : s.quit = true) :
      Step s .testQuit { s with looping := false, phase := .outside }
  | stay {s : Loop F E} (h : s.phase = .testing) (hq : s.quit = false) :
      Step s .testQuit { s with phase := .polling }
  | pollReturn {s : Loop F E} (active : List (Active E)) (h : s.phase = .polling)
      (hr : wakes active = true → 0 < s.wakeupFd) :
      Step s (.pollReturn active) { s with eventHandling := true, phase := .handling active }
  | handleRead {s : Loop F E} (rest : List (Active E))
      (h : s.phase = .handling (.wakeupChannel :: rest)) :
      Step s .handle { s with wakeupFd := 0, phase := .handling rest }
  | handleChannel {s : Loop F E} (e : E) (rest : List (Active E))
      (h : s.phase = .handling (.channel e :: rest)) :
      Step s .handle { s with phase := .handling rest }
  | endHandling {s : Loop F E} (h : s.phase = .handling []) (hw : s.waking = false) :
      Step s .endHandling
        { s with eventHandling := false, callingPendingFunctors := true, phase := .swapping }
  | swap {s : Loop F E} (h : s.phase = .swapping) :
      Step s .swap
        { s with functors := s.pendingFunctors, pendingFunctors := [], phase := .running }
  | runFunctor {s : Loop F E} (task : Task F) (rest : List (Task F)) (h : s.phase = .running)
      (hf : s.functors = task :: rest) :
      Step s .runFunctor { s with functors := rest, executed := s.executed ++ [task] }
  | endRunning {s : Loop F E} (h : s.phase = .running) (hf : s.functors = [])
      (hw : s.waking = false) :
      Step s .endRunning { s with callingPendingFunctors := false, phase := .destroying }
  | endDestroying {s : Loop F E} (h : s.phase = .destroying) :
      Step s .endDestroying { s with phase := .testing }

theorem control_of_step {s : Loop F E} {a : Act F E} {x : Except Assertion (Loop F E)}
    (h : (if s.waking = true then none else s.control a) = some x) :
    s.waking = false ∧ s.control a = some x := by
  split at h
  · cases h
  next hw => exact ⟨Bool.eq_false_iff.mpr hw, h⟩

theorem control_sound {s t : Loop F E} {a : Act F E} (hw : s.waking = false)
    (h : s.control a = some (.ok t)) : Step s a t := by
  cases a with
  | push i f => cases h
  | wakeup i => cases h
  | quit i => cases h
  | ownPush f => cases h
  | ownWakeup => cases h
  | ownQuit => cases h
  | loop =>
    simp only [control] at h
    split at h
    next hp =>
      simp only [Option.some.injEq] at h
      obtain ⟨_, _, hr⟩ := bind_eq_ok h
      cases hr
      exact .loop hp
    · cases h
  | resetQuit =>
    simp only [control] at h
    split at h
    · cases h; exact .resetQuit ‹_›
    · cases h
  | testQuit =>
    simp only [control] at h
    split at h
    next hp =>
      cases h
      split
      next hq => exact .leave hp hq
      next hq => exact .stay hp (by simpa using hq)
    · cases h
  | pollReturn active =>
    simp only [control] at h
    split at h
    next hp =>
      split at h
      · cases h
      next hn =>
        cases h
        exact .pollReturn active hp (fun ha => Nat.pos_of_ne_zero fun hz => hn ⟨ha, hz⟩)
    · cases h
  | handle =>
    simp only [control] at h
    split at h
    next active hp =>
      cases active with
      | nil => cases h
      | cons b rest =>
        cases b with
        | wakeupChannel => cases h; exact .handleRead rest hp
        | channel e => cases h; exact .handleChannel e rest hp
    · cases h
  | endHandling =>
    simp only [control] at h
    split at h
    next hp => cases h; exact .endHandling hp hw
    · cases h
  | swap =>
    simp only [control] at h
    split at h
    · cases h; exact .swap ‹_›
    · cases h
  | runFunctor =>
    simp only [control] at h
    split at h
    next task rest hp hf => cases h; exact .runFunctor task rest hp hf
    · cases h
  | endRunning =>
    simp only [control] at h
    split at h
    next hp hf => cases h; exact .endRunning hp hf hw
    · cases h
  | endDestroying =>
    simp only [control] at h
    split at h
    · cases h; exact .endDestroying ‹_›
    · cases h

theorem step_sound {s t : Loop F E} {a : Act F E} (h : s.step a = some (.ok t)) : Step s a t := by
  cases a with
  | push i f =>
    simp only [step] at h
    split at h
    · cases h; exact .push i f ‹_›
    · cases h
  | wakeup i =>
    simp only [step] at h
    split at h
    · cases h
    · cases h; exact .wakeup i ‹_›
  | quit i =>
    simp only [step] at h
    split at h
    · cases h; exact .quit i ‹_›
    · cases h
  | ownPush f =>
    simp only [step] at h
    split at h
    next hu => cases h; exact .ownPush f hu.1 hu.2
    · cases h
  | ownWakeup =>
    simp only [step] at h
    split at h
    · cases h; exact .ownWakeup ‹_›
    · cases h
  | ownQuit =>
    simp only [step] at h
    split at h
    next hu => cases h; exact .ownQuit hu.1
    · cases h
  | _ =>
    obtain ⟨hw, hc⟩ := control_of_step h
    exact control_sound hw hc

theorem control_error {s : Loop F E} {a : Act F E} {e : Assertion}
    (h : s.control a = some (.error e)) : s.phase = .outside ∧ s.looping = true := by
  cases a with
  | loop =>
    simp only [control] at h
    split at h
    next hp =>
      refine ⟨hp, ?_⟩
      by_contra hl
      rw [check_ok (Bool.eq_false_iff.mpr hl)] at h
      cases h
    · cases h
  | pollReturn active =>
    simp only [control] at h
    split at h
    · split at h <;> cases h
    · cases h
  | handle =>
    simp only [control] at h
    split at h
    next active _ =>
      cases active with
      | nil => cases h
      | cons b rest => cases b <;> cases h
    · cases h
  | push i f => cases h
  | wakeup i => cases h
  | quit i => cases h
  | ownPush f => cases h
  | ownWakeup => cases h
  | ownQuit => cases h
  | _ =>
    simp only [control] at h
    split at h <;> cases h

theorem step_error {s : Loop F E} {a : Act F E} {e : Assertion}
    (h : s.step a = some (.error e)) : s.phase = .outside ∧ s.looping = true := by
  cases a with
  | push i f =>
    simp only [step] at h
    split at h <;> cases h
  | wakeup i =>
    simp only [step] at h
    split at h <;> cases h
  | quit i =>
    simp only [step] at h
    split at h <;> cases h
  | ownPush f =>
    simp only [step] at h
    split at h <;> cases h
  | ownWakeup =>
    simp only [step] at h
    split at h <;> cases h
  | ownQuit =>
    simp only [step] at h
    split at h <;> cases h
  | _ => exact control_error (control_of_step h).2

/-! ### The queue of tasks -/

structure QueueInv (s : Loop F E) : Prop where
  order : s.executed ++ s.functors ++ s.pendingFunctors = s.pushes
  numbered : s.pushes.map Task.no = List.range s.pushes.length
  batch : s.phase ≠ .running → s.functors = []
  outside : s.phase = .outside → s.looping = false
  calling : s.callingPendingFunctors = true → s.phase = .swapping ∨ s.phase = .running
  waking : s.waking = true → s.phase = .running

theorem new_queueInv : (new : Loop F E).QueueInv :=
  ⟨rfl, rfl, fun _ => rfl, fun _ => rfl, (by intro h; cases h), (by intro h; cases h)⟩

theorem push_order {s : Loop F E} (hi : s.QueueInv) (c : Caller) (f : F) :
    (s.push c f).executed ++ (s.push c f).functors ++ (s.push c f).pendingFunctors =
      (s.push c f).pushes := by
  simp only [push, ← hi.order, List.append_assoc]

theorem push_numbered {s : Loop F E} (hi : s.QueueInv) (c : Caller) (f : F) :
    (s.push c f).pushes.map Task.no = List.range (s.push c f).pushes.length := by
  simp only [push, List.map_append, List.map_cons, List.map_nil, hi.numbered, List.length_append,
    List.length_cons, List.length_nil, List.range_succ, Nat.zero_add]

theorem QueueInv.move {s : Loop F E} (hi : s.QueueInv) (hr : s.phase ≠ .running)
    (hs : s.phase ≠ .swapping) (looping quit eventHandling : Bool) (wakeupFd : Nat) (p : Phase E)
    (ho : p = .outside → looping = false) :
    { s with
      looping := looping, quit := quit, eventHandling := eventHandling, wakeupFd := wakeupFd,
      phase := p }.QueueInv := by
  refine ⟨hi.order, hi.numbered, fun _ => hi.batch hr, ho, ?_, ?_⟩
  · intro hc
    rcases hi.calling hc with h | h
    · exact absurd h hs
    · exact absurd h hr
  · intro hw
    exact absurd (hi.waking hw) hr

theorem Step.queueInv {s t : Loop F E} {a : Act F E} (h : Step s a t) (hi : s.QueueInv) :
    t.QueueInv := by
  cases h with
  | push i f _ =>
    exact ⟨push_order hi _ f, push_numbered hi _ f, hi.batch, hi.outside, hi.calling, hi.waking⟩
  | wakeup i _ => exact ⟨hi.order, hi.numbered, hi.batch, hi.outside, hi.calling, hi.waking⟩
  | quit i _ => exact ⟨hi.order, hi.numbered, hi.batch, hi.outside, hi.calling, hi.waking⟩
  | ownPush f hu _ =>
    refine ⟨push_order hi _ f, push_numbered hi _ f, hi.batch, hi.outside, hi.calling, ?_⟩
    intro hc
    rcases hi.calling hc with hp | hp
    · rw [hp] at hu
      cases hu
    · exact hp
  | ownWakeup _ =>
    exact ⟨hi.order, hi.numbered, hi.batch, hi.outside, hi.calling, by intro h; cases h⟩
  | ownQuit _ => exact ⟨hi.order, hi.numbered, hi.batch, hi.outside, hi.calling, hi.waking⟩
  | loop hp =>
    exact hi.move (by simp [hp]) (by simp [hp]) true s.quit s.eventHandling s.wakeupFd .entered
      (by intro h; cases h)
  | resetQuit hp =>
    exact hi.move (by simp [hp]) (by simp [hp]) s.looping false s.eventHandling s.wakeupFd .testing
      (by intro h; cases h)
  | leave hp _ =>
    exact hi.move (by simp [hp]) (by simp [hp]) false s.quit s.eventHandling s.wakeupFd .outside
      (fun _ => rfl)
  | stay hp _ =>
    exact hi.move (by simp [hp]) (by simp [hp]) s.looping s.quit s.eventHandling s.wakeupFd .polling
      (by intro h; cases h)
  | pollReturn active hp _ =>
    exact hi.move (by simp [hp]) (by simp [hp]) s.looping s.quit true s.wakeupFd (.handling active)
      (by intro h; cases h)
  | handleRead rest hp =>
    exact hi.move (by simp [hp]) (by simp [hp]) s.looping s.quit s.eventHandling 0 (.handling rest)
      (by intro h; cases h)
  | handleChannel e rest hp =>
    exact hi.move (by simp [hp]) (by simp [hp]) s.looping s.quit s.eventHandling s.wakeupFd
      (.handling rest) (by intro h; cases h)
  | endHandling hp hw =>
    refine ⟨hi.order, hi.numbered, ?_, ?_, fun _ => .inl rfl, ?_⟩
    · intro _; exact hi.batch (by rw [hp]; simp)
    · intro h; cases h
    · intro h; rw [hw] at h; cases h
  | swap hp =>
    have hf : s.functors = [] := hi.batch (by rw [hp]; simp)
    refine ⟨?_, hi.numbered, fun h => absurd rfl h, ?_, fun _ => .inr rfl, fun _ => rfl⟩
    · have ho := hi.order
      simpa [hf] using ho
    · intro h; cases h
  | runFunctor task rest hp hf =>
    refine ⟨?_, hi.numbered, fun h => absurd hp h, hi.outside, hi.calling, hi.waking⟩
    have ho := hi.order
    simpa [hf] using ho
  | endRunning hp hf hw =>
    refine ⟨hi.order, hi.numbered, fun _ => hf, ?_, ?_, ?_⟩
    · intro h; cases h
    · intro h; cases h
    · intro h; rw [hw] at h; cases h
  | endDestroying hp =>
    exact hi.move (by simp [hp]) (by simp [hp]) s.looping s.quit s.eventHandling s.wakeupFd .testing
      (by intro h; cases h)

theorem step_queueInv (s : Loop F E) (a : Act F E) (x : Except Assertion (Loop F E))
    (hi : s.QueueInv) (h : s.step a = some x) : ∃ t, x = .ok t ∧ t.QueueInv := by
  cases x with
  | error e =>
    obtain ⟨hp, hl⟩ := step_error h
    rw [hi.outside hp] at hl
    cases hl
  | ok t => exact ⟨t, rfl, (step_sound h).queueInv hi⟩

/-! ### Wakeups -/

/- Something will make the next `poll` return: the eventfd is readable, or the
thread that pushed the task has yet to write it. -/
def Awake (s : Loop F E) (task : Task F) : Prop :=
  0 < s.wakeupFd ∨
    match task.caller with
    | .loop => s.waking = true
    | .other t => s.others t = .pushed

/- No task of a caller in `P` can be left behind by a `poll` that blocks. -/
def Covered (P : Caller → Prop) (s : Loop F E) : Prop :=
  s.phase.settled = true → ∀ task ∈ s.pendingFunctors, P task.caller → s.Awake task

/- The pushes that `queueInLoop` does not follow with a wakeup although no swap
comes before the next `poll`. -/
def Unheard (s : Loop F E) (a : Act F E) : Prop :=
  ∃ f, a = .ownPush f ∧ s.phase.settled = true ∧ s.callingPendingFunctors = false ∧
    s.wakeupFd = 0

theorem Awake.of_same {s t : Loop F E} {task : Task F} (h : s.Awake task)
    (hfd : t.wakeupFd = s.wakeupFd) (hw : t.waking = s.waking) (ho : t.others = s.others) :
    t.Awake task := by
  unfold Awake at h ⊢
  rw [hfd, hw, ho]
  exact h

theorem awake_of_pos {s : Loop F E} (h : 0 < s.wakeupFd) (task : Task F) : s.Awake task := .inl h

theorem Awake.setPc {s : Loop F E} {task : Task F} (h : s.Awake task) (i : Nat) (pc : CallerPc)
    (hp : s.others i = .pushed → pc = .pushed) : (s.setPc i pc).Awake task := by
  rcases h with h | h
  · exact .inl h
  · cases hc : task.caller with
    | loop =>
      rw [hc] at h
      exact .inr (by rw [hc]; exact h)
    | other t =>
      rw [hc] at h
      refine .inr ?_
      rw [hc]
      change Function.update s.others i pc t = .pushed
      by_cases ht : t = i
      · subst ht
        rw [Function.update_self]
        exact hp h
      · rw [Function.update_of_ne ht]
        exact h

theorem Step.covered {P : Caller → Prop} {s t : Loop F E} {a : Act F E} (h : Step s a t)
    (hg : P .loop → ¬ Unheard s a) (hc : Covered P s) : Covered P t := by
  intro hs task hm hP
  cases h with
  | push i f hidle =>
    rcases List.mem_append.mp hm with hm | hm
    · have ha : (s.push (.other i) f).Awake task := (hc hs task hm hP).of_same rfl rfl rfl
      exact ha.setPc i .pushed (fun _ => rfl)
    · obtain rfl := List.mem_singleton.mp hm
      exact .inr (Function.update_self ..)
  | wakeup i _ => exact awake_of_pos (eventfdWrite_pos s.wakeupFd) task
  | quit i hidle =>
    have ha : { s with quit := true }.Awake task := (hc hs task hm hP).of_same rfl rfl rfl
    exact ha.setPc i .quitting (fun h => by rw [show s.others i = .idle from hidle] at h; cases h)
  | ownPush f hu hw =>
    rcases List.mem_append.mp hm with hm | hm
    · -- the loop thread was not waking, so an older task of its own has the eventfd
      rcases hc hs task hm hP with ha | ha
      · exact .inl ha
      · cases hcl : task.caller with
        | loop => rw [hcl] at ha; rw [hw] at ha; cases ha
        | other i => rw [hcl] at ha; exact .inr (by rw [hcl]; exact ha)
    · obtain rfl := List.mem_singleton.mp hm
      cases hcall : s.callingPendingFunctors with
      | true => exact .inr rfl
      | false =>
        refine .inl (Nat.pos_of_ne_zero fun hz => hg hP ⟨f, rfl, hs, hcall, hz⟩)
  | ownWakeup _ => exact awake_of_pos (eventfdWrite_pos s.wakeupFd) task
  | ownQuit _ => exact (hc hs task hm hP).of_same rfl rfl rfl
  | loop hp => exact (hc (by rw [hp]; rfl) task hm hP).of_same rfl rfl rfl
  | resetQuit hp => exact (hc (by rw [hp]; rfl) task hm hP).of_same rfl rfl rfl
  | leave hp _ => exact (hc (by rw [hp]; rfl) task hm hP).of_same rfl rfl rfl
  | stay hp _ => exact (hc (by rw [hp]; rfl) task hm hP).of_same rfl rfl rfl
  | pollReturn active _ _ => cases hs
  | handleRead rest _ => cases hs
  | handleChannel e rest _ => cases hs
  | endHandling _ _ => cases hs
  | swap _ => cases hm
  | runFunctor _ rest hp _ => exact (hc (by rw [hp]; rfl) task hm hP).of_same rfl rfl rfl
  | endRunning hp _ _ => exact (hc (by rw [hp]; rfl) task hm hP).of_same rfl rfl rfl
  | endDestroying hp => exact (hc (by rw [hp]; rfl) task hm hP).of_same rfl rfl rfl

theorem new_covered (P : Caller → Prop) : Covered P (new : Loop F E) := by
  intro _ task hm
  cases hm

theorem QueueInv.nodup {s : Loop F E} (hi : s.QueueInv) : s.pushes.Nodup := by
  apply List.Nodup.of_map Task.no
  rw [hi.numbered]
  exact List.nodup_range

/-- Tasks run at most once and in push order, none is lost, and a `poll` that is
about to block is woken for every task of another thread. -/
theorem task_queue (F E : Type) (acts : List (Act F E)) (x : Except Assertion (Loop F E))
    (h : (machine F E).run new acts = some x) :
    ∃ s, x = .ok s ∧
      s.executed ++ s.functors ++ s.pendingFunctors = s.pushes ∧
      s.executed <+: s.pushes ∧ s.executed.Nodup ∧
      (s.phase = .polling → ∀ t, ∀ task ∈ s.pendingFunctors, task.caller = .other t →
        0 < s.wakeupFd ∨ s.others t = .pushed) := by
  have hstep : ∀ (s : Loop F E) a x, s.QueueInv ∧ Covered (· ≠ .loop) s →
      (machine F E).step s a = some x → ∃ t, x = .ok t ∧ t.QueueInv ∧ Covered (· ≠ .loop) t := by
    intro s a x hi hst
    obtain ⟨t, rfl, hq⟩ := step_queueInv s a x hi.1 hst
    exact ⟨t, rfl, hq, (step_sound hst).covered (fun hl => absurd rfl hl) hi.2⟩
  obtain ⟨s, rfl, hq, hc⟩ :=
    Machine.run_ok_all hstep ⟨new_queueInv, new_covered (· ≠ .loop)⟩ h
  have hpre : s.executed <+: s.pushes :=
    ⟨s.functors ++ s.pendingFunctors, by rw [← List.append_assoc]; exact hq.order⟩
  refine ⟨s, rfl, hq.order, hpre, hq.nodup.sublist hpre.sublist, ?_⟩
  intro hp t task hm ht
  have ha := hc (by rw [hp]; rfl) task hm (by rw [ht]; simp)
  unfold Awake at ha
  rw [ht] at ha
  exact ha

/- Two threads push during one iteration, the second one after the swap. -/
def sampleActs : List (Act Nat Unit) :=
  [.push 1 10, .loop, .resetQuit, .testQuit, .wakeup 1, .pollReturn [.wakeupChannel], .handle,
    .endHandling, .swap, .push 2 20, .ownPush 30, .ownWakeup, .runFunctor, .endRunning,
    .endDestroying, .testQuit]

theorem task_queue_sample :
    ∃ s, (machine Nat Unit).run new sampleActs = some (.ok s) ∧ s.phase = .polling ∧
      s.executed ++ s.functors ++ s.pendingFunctors = s.pushes := by
  have hr : (machine Nat Unit).runsTo new sampleActs
      (fun s => decide (s.phase = .polling)) = true := by
    decide +kernel
  obtain ⟨s, hs, hp⟩ := Machine.exists_of_runsTo hr
  obtain ⟨t, ht, ho, _⟩ := task_queue Nat Unit sampleActs _ hs
  cases ht
  exact ⟨s, hs, of_decide_eq_true hp, ho⟩

/-- On a run without unheard pushes, the loop thread never blocks in `poll` on a
task that it queued itself. -/
theorem own_task_wakes (F E : Type) (acts : List (Act F E)) (s : Loop F E)
    (hg : (machine F E).Along (fun s a => ¬ Unheard s a) new acts)
    (h : (machine F E).run new acts = some (.ok s)) (hp : s.phase = .polling) :
    ∀ task ∈ s.pendingFunctors, task.caller = .loop → 0 < s.wakeupFd := by
  have hstep : ∀ (s : Loop F E) a t, s.QueueInv ∧ Covered (· = .loop) s → ¬ Unheard s a →
      (machine F E).step s a = some (.ok t) → t.QueueInv ∧ Covered (· = .loop) t := by
    intro s a t hi hn hst
    exact ⟨(step_sound hst).queueInv hi.1, (step_sound hst).covered (fun _ => hn) hi.2⟩
  obtain ⟨hq, hc⟩ :=
    Machine.run_inv hstep ⟨new_queueInv, new_covered (· = .loop)⟩ hg h
  intro task hm ht
  rcases hc (by rw [hp]; rfl) task hm ht with ha | ha
  · exact ha
  · rw [ht] at ha
    have hr := hq.waking ha
    rw [hp] at hr
    cases hr

/- A handler queues a task before the swap, a functor queues one after it. -/
def heardActs : List (Act Nat Unit) :=
  [.loop, .resetQuit, .testQuit, .pollReturn [.channel ()], .ownPush 1, .handle, .endHandling,
    .swap, .ownPush 2, .ownWakeup, .runFunctor, .endRunning, .endDestroying, .testQuit]

instance (s : Loop Nat Unit) (a : Act Nat Unit) : Decidable (Unheard s a) := by
  cases a with
  | ownPush f =>
    exact decidable_of_iff (s.phase.settled = true ∧ s.callingPendingFunctors = false ∧
      s.wakeupFd = 0) ⟨fun h => ⟨f, rfl, h⟩, fun ⟨_, _, h⟩ => h⟩
  | _ => exact isFalse (by rintro ⟨_, h, _⟩; cases h)

theorem own_task_wakes_heard :
    ∃ s, (machine Nat Unit).run new heardActs = some (.ok s) ∧ s.phase = .polling ∧
      ∀ task ∈ s.pendingFunctors, task.caller = .loop → 0 < s.wakeupFd := by
  have hr : (machine Nat Unit).runsTo new heardActs
      (fun s => decide (s.phase = .polling)) = true := by
    decide +kernel
  obtain ⟨s, hs, hp⟩ := Machine.exists_of_runsTo hr
  exact ⟨s, hs, of_decide_eq_true hp,
    own_task_wakes Nat Unit heardActs s (by decide +kernel) hs (of_decide_eq_true hp)⟩

def stalled (s : Loop Nat Unit) : Bool :=
  decide (s.phase = .polling ∧ s.wakeupFd = 0) &&
    s.pendingFunctors.any fun task => decide (task.caller = .loop)

/- `EventLoopThread`'s init callback queues a task before `loop()` is entered. -/
def initCallbackActs : List (Act Nat Unit) := [.ownPush 1, .loop, .resetQuit, .testQuit]

/- The destructor of a functor queues a task after the flag is cleared. -/
def destructorActs : List (Act Nat Unit) :=
  [.push 1 1, .wakeup 1, .loop, .resetQuit, .testQuit, .pollReturn [.wakeupChannel], .handle,
    .endHandling, .swap, .runFunctor, .endRunning, .ownPush 2, .endDestroying, .testQuit]

theorem own_task_stalls :
    (∃ s, (machine Nat Unit).run new initCallbackActs = some (.ok s) ∧ stalled s = true) ∧
      ∃ s, (machine Nat Unit).run new destructorActs = some (.ok s) ∧ stalled s = true :=
  ⟨Machine.exists_of_runsTo (by decide +kernel), Machine.exists_of_runsTo (by decide +kernel)⟩

end Loop
end TstMuduo.Net
