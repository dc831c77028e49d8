import TstMuduo.Net.EventLoop

/-!
# EventLoopThread (muduo/net/EventLoopThread.cc)

An owner starts a thread that builds an `EventLoop` on its stack, publishes its
address and runs it; the owner's destructor calls `quit()` through that address
and joins the thread. The owner is thread 0 of the loop's other threads.
-/

namespace TstMuduo.Net
open TstMuduo.Lib

/- `threadFunc` (EventLoopThread.cc:75): the loop is built and `callback_` runs,
`loop_` is published, `loop()` was called, the thread function has returned. -/
inductive ThreadPc where
  | notStarted
  | callback
  | published
  | looping
  | finished
  deriving DecidableEq, Repr

/-- The owner: before `startLoop`, waiting in it, using the loop, in the
destructor after the test of `loop_`, between the store of `quit_` and the
wakeup, past `quit()` and joining, done. -/
inductive OwnerPc where
  | fresh
  | waiting
  | using
  | tested
  | stored
  | past
  | done
  deriving DecidableEq, Repr

structure LoopThread (F E : Type) where
  loop : Loop F E
  loopPtr : Bool
  exiting : Bool
  thread : ThreadPc
  owner : OwnerPc

variable {F E : Type}

namespace LoopThread

def new : LoopThread F E := ⟨Loop.new, false, false, .notStarted, .fresh⟩

/- `own` is a step of the created thread, `call` one of any other thread that
uses the loop, the owner included. -/
inductive Act (F E : Type) where
  | startLoop
  | publish
  | startLoopReturn
  | own (a : Loop.Act F E)
  | call (a : Loop.Act F E)
  | loopReturn
  | destruct
  | quitStore
  | quitWakeup
  | join

/- The created thread may take this step of the loop: user code in the init
callback, the one call of `loop()`, then whatever `loop()` does. -/
def mayOwn (s : LoopThread F E) : Loop.Act F E → Bool
  | .push _ _ => false
  | .wakeup _ => false
  | .quit _ => false
  | .ownPush _ => s.thread = .callback ∨ s.thread = .looping ∧ s.loop.looping = true
  | .ownWakeup => s.thread = .callback ∨ s.thread = .looping
  | .ownQuit => s.thread = .callback ∨ s.thread = .looping ∧ s.loop.looping = true
  | .loop => s.thread = .published
  | _ => s.thread = .looping

/- Other threads reach the loop through the pointer that `startLoop` returned. -/
def mayCall (s : LoopThread F E) : Loop.Act F E → Bool
  | .push t _ => s.owner = .using ∨ t ≠ 0 ∧ s.owner ≠ .fresh ∧ s.owner ≠ .waiting
  | .wakeup t => s.owner = .using ∨ t ≠ 0
  | .quit t => s.owner = .using ∨ t ≠ 0 ∧ s.owner ≠ .fresh ∧ s.owner ≠ .waiting
  | _ => false

/- The loop takes a step of its own; calling `loop()` moves `threadFunc` on. -/
def onLoop (s : LoopThread F E) (a : Loop.Act F E) (thread : ThreadPc) (owner : OwnerPc) :
    Option (Except Assertion (LoopThread F E)) :=
  (s.loop.step a).map fun r => do
    let l ← r
    return { s with loop := l, thread := thread, owner := owner }

def threadAfter (s : LoopThread F E) : Loop.Act F E → ThreadPc
  | .loop => .looping
  | _ => s.thread

def step (s : LoopThread F E) : Act F E → Option (Except Assertion (LoopThread F E))
  | .startLoop =>
    if s.owner = .fresh then some (.ok { s with owner := .waiting, thread := .callback }) else none
  | .publish =>
    if s.thread = .callback ∧ s.loop.waking = false then
      some (.ok { s with loopPtr := true, thread := .published })
    else none
  | .startLoopReturn =>
    if s.owner = .waiting ∧ s.loopPtr = true then some (.ok { s with owner := .using }) else none
  | .own a => if s.mayOwn a = true then s.onLoop a (s.threadAfter a) s.owner else none
  | .call a => if s.mayCall a = true then s.onLoop a s.thread s.owner else none
  | .loopReturn =>
    if s.thread = .looping ∧ s.loop.looping = false then
      some (.ok { s with loopPtr := false, thread := .finished })
    else none
  | .destruct =>
    if s.owner = .using ∧ s.loop.others 0 = .idle then
      some (.ok { s with exiting := true, owner := if s.loopPtr = true then .tested else .done })
    else none
  | .quitStore => if s.owner = .tested then s.onLoop (.quit 0) s.thread .stored else none
  | .quitWakeup => if s.owner = .stored then s.onLoop (.wakeup 0) s.thread .past else none
  | .join =>
    if s.owner = .past ∧ s.thread = .finished then some (.ok { s with owner := .done }) else none

def machine (F E : Type) : Machine (LoopThread F E) (Act F E) Assertion where
  init := new
  step := step

/- The owner has called `quit()`, and the created thread is about to block in
`poll` with nothing to wake it and nothing to make it leave. -/
def QuitLost (s : LoopThread F E) : Prop :=
  s.owner = .past ∧ s.loop.phase = .polling ∧ s.loop.wakeupFd = 0 ∧ s.loop.quit = false

/- The created thread has executed `quit_ = false`, the reset that `loop()`
starts with. -/
def PastReset (s : LoopThread F E) : Prop :=
  (s.thread = .looping ∨ s.thread = .finished) ∧ s.loop.phase ≠ .entered

/- The owner's store of `quit_` comes after the reset in `loop()`. -/
def InTime (s : LoopThread F E) (a : Act F E) : Prop := a = .quitStore → s.PastReset

theorem step_pastReset {l m : Loop F E} {a : Loop.Act F E} (h : Loop.Step l a m)
    (hp : l.phase ≠ .entered) (ha : a ≠ .loop) :
    m.phase ≠ .entered ∧ (l.quit = true → m.quit = true) := by
  cases h with
  | loop _ => exact absurd rfl ha
  | resetQuit he => exact absurd he hp
  | push i f _ => exact ⟨hp, id⟩
  | wakeup i _ => exact ⟨hp, id⟩
  | quit i _ => exact ⟨hp, fun _ => rfl⟩
  | ownPush f _ _ => exact ⟨hp, id⟩
  | ownWakeup _ => exact ⟨hp, id⟩
  | ownQuit _ => exact ⟨hp, fun _ => rfl⟩
  | runFunctor task rest hr _ => exact ⟨hp, id⟩
  | leave _ hq => exact ⟨(by intro hc; cases hc), id⟩
  | stay _ _ => exact ⟨(by intro hc; cases hc), id⟩
  | pollReturn active _ _ => exact ⟨(by intro hc; cases hc), id⟩
  | handleRead rest _ => exact ⟨(by intro hc; cases hc), id⟩
  | handleChannel e rest _ => exact ⟨(by intro hc; cases hc), id⟩
  | endHandling _ _ => exact ⟨(by intro hc; cases hc), id⟩
  | swap _ => exact ⟨(by intro hc; cases hc), id⟩
  | endRunning _ _ _ => exact ⟨(by intro hc; cases hc), id⟩
  | endDestroying _ => exact ⟨(by intro hc; cases hc), id⟩

theorem onLoop_ok {s t : LoopThread F E} {a : Loop.Act F E} {th : ThreadPc} {ow : OwnerPc}
    (h : s.onLoop a th ow = some (.ok t)) :
    ∃ l, Loop.Step s.loop a l ∧ t = { s with loop := l, thread := th, owner := ow } := by
  unfold onLoop at h
  obtain ⟨r, hr, hm⟩ := Option.map_eq_some_iff.mp h
  obtain ⟨l, hl, he⟩ := bind_eq_ok hm
  cases he
  exact ⟨l, Loop.step_sound (by rw [hr, hl]), rfl⟩

/- Once the owner has stored `quit_` in time, nothing takes it back. -/
def Kept (s : LoopThread F E) : Prop :=
  s.owner = .stored ∨ s.owner = .past → s.PastReset ∧ s.loop.quit = true

theorem kept_onLoop {s : LoopThread F E} {a : Loop.Act F E} {l : Loop F E}
    (hl : Loop.Step s.loop a l) (ha : a ≠ .loop) (hk : s.Kept) :
    LoopThread.Kept { s with loop := l } := by
  intro ho
  obtain ⟨⟨ht, hp⟩, hq⟩ := hk ho
  obtain ⟨h1, h2⟩ := step_pastReset hl hp ha
  exact ⟨⟨ht, h1⟩, h2 hq⟩

theorem step_kept (s : LoopThread F E) (a : Act F E) (t : LoopThread F E) (hk : s.Kept)
    (hg : s.InTime a) (h : s.step a = some (.ok t)) : t.Kept := by
  cases a with
  | startLoop =>
    simp only [step] at h
    split at h
    · cases h; intro ho; simp at ho
    · cases h
  | publish =>
    simp only [step] at h
    split at h
    next hc =>
      cases h
      intro ho
      obtain ⟨⟨ht, _⟩, _⟩ := hk ho
      rw [hc.1] at ht
      simp at ht
    · cases h
  | startLoopReturn =>
    simp only [step] at h
    split at h
    · cases h; intro ho; simp at ho
    · cases h
  | own b =>
    simp only [step] at h
    split at h
    next hm =>
      obtain ⟨l, hl, rfl⟩ := onLoop_ok h
      by_cases hb : b = .loop
      · -- `loop()` is called once, before the owner can be past the guarded store
        subst hb
        have hpub : s.thread = .published := by simpa [mayOwn] using hm
        intro ho
        obtain ⟨⟨ht, _⟩, _⟩ := hk ho
        rw [hpub] at ht
        simp at ht
      · have hth : s.threadAfter b = s.thread := by
          cases b with
          | loop => exact absurd rfl hb
          | _ => rfl
        rw [hth]
        exact kept_onLoop hl hb hk
    · cases h
  | call b =>
    simp only [step] at h
    split at h
    next hm =>
      obtain ⟨l, hl, rfl⟩ := onLoop_ok h
      have hb : b ≠ .loop := by
        intro hx
        subst hx
        simp [mayCall] at hm
      exact kept_onLoop hl hb hk
    · cases h
  | loopReturn =>
    simp only [step] at h
    split at h
    · cases h
      intro ho
      obtain ⟨⟨_, hp⟩, hq⟩ := hk ho
      exact ⟨⟨.inr rfl, hp⟩, hq⟩
    · cases h
  | destruct =>
    simp only [step] at h
    split at h
    · cases h
      intro ho
      dsimp only at ho
      split at ho <;> simp at ho
    · cases h
  | quitStore =>
    simp only [step] at h
    split at h
    · obtain ⟨l, hl, rfl⟩ := onLoop_ok h
      obtain ⟨ht, hp⟩ := hg rfl
      cases hl
      exact fun _ => ⟨⟨ht, hp⟩, rfl⟩
    · cases h
  | quitWakeup =>
    simp only [step] at h
    split at h
    next ho =>
      obtain ⟨l, hl, rfl⟩ := onLoop_ok h
      have hk' := kept_onLoop hl (by simp) hk
      exact fun _ => hk' (.inl ho)
    · cases h
  | join =>
    simp only [step] at h
    split at h
    · cases h; intro ho; simp at ho
    · cases h

theorem new_kept : (new : LoopThread F E).Kept := by
  intro ho
  simp [new] at ho

/-- If the destructor's store of `quit_` always comes after the reset in `loop()`,
no reachable state has lost the quit. -/
theorem quit_not_lost (F E : Type) (acts : List (Act F E)) (s : LoopThread F E)
    (hg : (machine F E).Along InTime new acts)
    (h : (machine F E).run new acts = some (.ok s)) : ¬ s.QuitLost := by
  have hk : s.Kept := Machine.run_inv step_kept new_kept hg h
  intro hx
  obtain ⟨ho, _, _, hq⟩ := hx
  rw [(hk (.inr ho)).2] at hq
  cases hq

def isEntered : Phase E → Bool
  | .entered => true
  | _ => false

theorem isEntered_eq_false {p : Phase E} : isEntered p = false ↔ p ≠ .entered := by
  cases p <;> simp [isEntered]

instance (s : LoopThread F E) : Decidable s.PastReset :=
  decidable_of_iff
    ((s.thread = .looping ∨ s.thread = .finished) ∧ isEntered s.loop.phase = false)
    (and_congr_right fun _ => isEntered_eq_false)

instance (s : LoopThread F E) (a : Act F E) : Decidable (s.InTime a) :=
  match a with
  | .quitStore => decidable_of_iff s.PastReset ⟨fun h _ => h, fun h => h rfl⟩
  | .startLoop | .publish | .startLoopReturn | .own _ | .call _ | .loopReturn | .destruct
  | .quitWakeup | .join => isTrue (fun h => by cases h)

def iteration : List (Act Nat Unit) :=
  [.own (.pollReturn [.wakeupChannel]), .own .handle, .own .endHandling, .own .swap,
    .own .endRunning, .own .endDestroying, .own .testQuit]

/- The thread reaches `poll` before the owner destroys the `EventLoopThread`. -/
def promptActs : List (Act Nat Unit) :=
  [.startLoop, .publish, .startLoopReturn, .own .loop, .own .resetQuit, .own .testQuit,
    .destruct, .quitStore, .quitWakeup] ++ iteration ++ [.loopReturn, .join]

theorem quit_not_lost_prompt :
    ∃ s, (machine Nat Unit).run new promptActs = some (.ok s) ∧ s.owner = .done ∧ ¬ s.QuitLost := by
  have hr : (machine Nat Unit).runsTo new promptActs
      (fun s => decide (s.owner = .done)) = true := by
    decide +kernel
  obtain ⟨s, hs, hp⟩ := Machine.exists_of_runsTo hr
  exact ⟨s, hs, of_decide_eq_true hp, quit_not_lost Nat Unit promptActs s (by decide +kernel) hs⟩

/- The whole `quit()` runs between the publication of `loop_` and the reset. -/
def earlyActs : List (Act Nat Unit) :=
  [.startLoop, .publish, .startLoopReturn, .destruct, .quitStore, .quitWakeup, .own .loop,
    .own .resetQuit, .own .testQuit] ++ iteration

theorem quit_lost :
    ∃ s, (machine Nat Unit).run new earlyActs = some (.ok s) ∧ s.QuitLost := by
  have hr : (machine Nat Unit).runsTo new earlyActs (fun s => decide (s.owner = .past ∧
      s.loop.phase = .polling ∧ s.loop.wakeupFd = 0 ∧ s.loop.quit = false)) = true := by
    decide +kernel
  obtain ⟨s, hs, hp⟩ := Machine.exists_of_runsTo hr
  have hq : s.owner = .past ∧ s.loop.phase = .polling ∧ s.loop.wakeupFd = 0 ∧
      s.loop.quit = false := of_decide_eq_true hp
  exact ⟨s, hs, hq⟩

end LoopThread
end TstMuduo.Net
