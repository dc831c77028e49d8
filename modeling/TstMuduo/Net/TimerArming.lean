import TstMuduo.Net.TimerRuns

/-!
# The timerfd is armed in time

`timerfd_settime` is called when a timer becomes the earliest one and at the end
of `handleRead`. Between two `handleRead`s that is enough for every timer. Inside
one, the timers that are not past are left to its end, which skips a `nextExpire`
that is not valid; such a timer was added by a callback and armed then.
-/

namespace TstMuduo.Net
open TstMuduo.Lib

namespace TimerQueue

/- The timerfd fires no later than `time`, or 100 microseconds after it was last
armed. -/
def FiresBy (q : TimerQueue) (time : Int) : Prop :=
  ∃ fire, q.timerfd = some fire ∧ fire ≤ max time (q.lastArm + 100)

theorem FiresBy.mono {q : TimerQueue} {x y : Int} (h : q.FiresBy x) (hxy : x ≤ y) :
    q.FiresBy y := by
  obtain ⟨fire, hf, hle⟩ := h
  exact ⟨fire, hf, by omega⟩

theorem resetTimerfd_firesBy (q : TimerQueue) (expiration now : Int) :
    (q.resetTimerfd expiration now).FiresBy expiration := by
  refine ⟨_, rfl, ?_⟩
  have hm := (howMuchTimeFromNow_spec expiration now).2
  have hl : (q.resetTimerfd expiration now).lastArm = now := rfl
  rw [hm, hl]
  omega

/- Every value given to `timerfd_settime` arms it. -/
def ValuesArm (q : TimerQueue) : Prop := ∀ ts ∈ q.settimes, ts.Arms

theorem ValuesArm.resetTimerfd {q : TimerQueue} (h : q.ValuesArm) (expiration now : Int) :
    (q.resetTimerfd expiration now).ValuesArm := by
  intro ts hts
  rcases List.mem_append.mp hts with hts | hts
  · exact h ts hts
  · rw [List.mem_singleton.mp hts]
    exact (howMuchTimeFromNow_spec expiration now).1

theorem earliest_false {q : TimerQueue} {time : Int} (h : ¬ q.earliest time = true) :
    ∃ e, e ∈ q.timers ∧ e.expiration ≤ time := by
  rw [earliest_iff] at h
  push Not at h
  exact h

theorem next_le {q : TimerQueue} {e : Entry} (he : e ∈ q.timers) :
    ∃ f, f ∈ q.timers ∧ q.next = f.expiration ∧ f.expiration ≤ e.expiration := by
  unfold next
  cases hf : q.timers.first with
  | none => exact absurd he (OrderedSet.first_eq_none.mp hf e)
  | some f =>
    obtain ⟨hm, hle⟩ := OrderedSet.first_spec hf
    exact ⟨f, hm, rfl, Entry.expiration_le (hle e he)⟩

end TimerQueue

namespace TimerSystem

structure Arming (s : TimerSystem) : Prop where
  values : s.queue.ValuesArm
  started : ∀ b, s.batch = some b → 0 < b.now
  covered : s.batch = none → ∀ e, e ∈ s.queue.timers → s.queue.FiresBy e.expiration
  past : ∀ e, e ∈ s.queue.timers → e.expiration ≤ 0 → s.queue.FiresBy e.expiration

theorem added_firesBy {q : TimerQueue} {a : Nat} {t : Timer} {now bound : Int}
    (h : ∀ e, e ∈ q.timers → e.expiration ≤ bound → q.FiresBy e.expiration) {e : Entry}
    (he : e ∈ (added q a t now).timers) (hb : e.expiration ≤ bound) :
    (added q a t now).FiresBy e.expiration := by
  have hmem : e = ⟨t.expiration, a⟩ ∨ e ∈ q.timers := by
    unfold added at he
    split at he <;> exact OrderedSet.mem_insert.mp he
  unfold added
  split
  next hearly =>
    have hlt := (q.earliest_iff t.expiration).mp hearly
    have hle : t.expiration ≤ e.expiration := by
      rcases hmem with rfl | hm
      · exact le_refl _
      · exact (hlt e hm).le
    exact (TimerQueue.resetTimerfd_firesBy _ _ _).mono hle
  next hlate =>
    rcases hmem with rfl | hm
    · obtain ⟨f, hf, hle⟩ := TimerQueue.earliest_false hlate
      have hfb : f.expiration ≤ bound := le_trans hle hb
      exact TimerQueue.FiresBy.mono (h f hf hfb) hle
    · exact h e hm hb

theorem added_values {q : TimerQueue} (h : q.ValuesArm) (a : Nat) (t : Timer) (now : Int) :
    (added q a t now).ValuesArm := by
  unfold added
  split
  · exact TimerQueue.ValuesArm.resetTimerfd (q := q.inserted a t) h _ _
  · exact h

theorem Step.arming {s t : TimerSystem} {a : Act} (h : Step s a t) (hw : s.Wf) (hi : s.Arming) :
    t.Arming := by
  obtain ⟨hvalues, hstarted, hcovered, hpast⟩ := hi
  cases h with
  | tick d => exact ⟨hvalues, hstarted, hcovered, hpast⟩
  | created => exact ⟨hvalues, hstarted, hcovered, hpast⟩
  | newTimer a when_ interval hn => exact ⟨hvalues, hstarted, hcovered, hpast⟩
  | addTimerInLoop a t hl ht =>
    refine ⟨added_values hvalues a t _, hstarted, ?_, ?_⟩
    · intro hb e he
      have hc : ∀ f, f ∈ s.queue.timers → f.expiration ≤ e.expiration →
          s.queue.FiresBy f.expiration := fun f hf _ => hcovered hb f hf
      exact added_firesBy hc he (le_refl _)
    · intro e he hz
      exact added_firesBy hpast he hz
  | cancelActive id t ht hs hq =>
    refine ⟨hvalues, hstarted, ?_, ?_⟩
    · intro hb e he
      exact hcovered hb e (OrderedSet.mem_erase.mp he).2
    · intro e he hz
      exact hpast e (OrderedSet.mem_erase.mp he).2 hz
  | cancelOther id hs hid =>
    dsimp only
    split
    · exact ⟨hvalues, hstarted, hcovered, hpast⟩
    · exact ⟨hvalues, hstarted, hcovered, hpast⟩
  | handleRead act hb =>
    have hpos := s.clock.running
    refine ⟨hvalues, ?_, ?_, ?_⟩
    · intro b hb'
      cases hb'
      exact hpos
    · intro hb'
      cases hb'
    · -- what is left expires after the reading of the clock
      intro e he hz
      have hlt := (hw.queue.mem_notBefore.mp he).2
      omega
  | run now ran e rest t hb ht =>
    refine ⟨hvalues, ?_, ?_, hpast⟩
    · intro b hb'
      cases hb'
      have hnow : 0 < now := hstarted _ hb
      exact hnow
    · intro hb'
      cases hb'
  | endRead now ran r hb hwr hr =>
    have hnow : 0 < now := hstarted _ hb
    have hfd : r.timerfd = s.queue.timerfd := by rw [hr.frame]
    have harm : r.lastArm = s.queue.lastArm := by rw [hr.frame]
    have hset : r.settimes = s.queue.settimes := by rw [hr.frame]
    have hval : r.ValuesArm := by
      unfold TimerQueue.ValuesArm
      rw [hset]
      exact hvalues
    have hall : ∀ e, e ∈ r.timers → (r.rearmed s.clock.now).FiresBy e.expiration := by
      intro e he
      obtain ⟨f, hf, hnext, hle⟩ := TimerQueue.next_le he
      unfold TimerQueue.rearmed
      split
      · rw [hnext]
        exact (TimerQueue.resetTimerfd_firesBy _ _ _).mono hle
      next hinvalid =>
        have hz : f.expiration ≤ 0 := by
          rw [hnext] at hinvalid
          simpa [Timestamp.valid] using hinvalid
        have hold : f ∈ s.queue.timers := by
          rcases hr.later f hf with h | h
          · exact h
          · omega
        obtain ⟨fire, hfire, hfle⟩ := hpast f hold hz
        have hfb : r.FiresBy f.expiration :=
          ⟨fire, by rw [hfd]; exact hfire, by rw [harm]; exact hfle⟩
        exact hfb.mono hle
    have htimers : (r.rearmed s.clock.now).timers = r.timers := by
      unfold TimerQueue.rearmed
      split <;> rfl
    refine ⟨?_, ?_, ?_, ?_⟩
    · dsimp only
      unfold TimerQueue.rearmed
      split
      · exact hval.resetTimerfd _ _
      · exact hval
    · intro b hb'
      cases hb'
    · intro _ e he
      exact hall e (htimers ▸ he)
    · intro e he _
      exact hall e (htimers ▸ he)

theorem new_arming (clock : Clock) (n : Nat) : (new clock n).Arming := by
  refine ⟨?_, ?_, ?_, ?_⟩
  · intro ts hts
    cases hts
  · intro b hb
    cases hb
  · intro _ e he
    exact absurd he OrderedSet.mem_empty
  · intro e he
    exact absurd he OrderedSet.mem_empty

/-- While no `handleRead` runs and timers are there, the timerfd is armed to become
readable no later than the earliest of them, or 100 microseconds after the last
arming; and every value given to `timerfd_settime` arms it. -/
theorem timers_not_lost (clock : Clock) (n : Nat) (acts : List Act)
    (x : Except TimerFault TimerSystem) (h : (machine clock n).run (new clock n) acts = some x) :
    ∃ s, x = .ok s ∧
      (s.batch = none → ∀ e, s.queue.timers.first = some e →
        ∃ fire, s.queue.timerfd = some fire ∧ fire ≤ max e.expiration (s.queue.lastArm + 100)) ∧
      ∀ ts ∈ s.queue.settimes,
        (ts.tv_sec ≠ 0 ∨ ts.tv_nsec ≠ 0) ∧ 0 ≤ ts.tv_nsec ∧ ts.tv_nsec < 10 ^ 9 := by
  have hstep : ∀ s a x, s.Wf ∧ s.Arming → (machine clock n).step s a = some x →
      ∃ t, x = .ok t ∧ t.Wf ∧ t.Arming := by
    intro s a x hi hst
    obtain ⟨t, hx, hs, ht⟩ := step_sound s a x hi.1 hst
    exact ⟨t, hx, ht, hs.arming hi.1 hi.2⟩
  obtain ⟨s, hx, _, hi⟩ := Machine.run_ok_all hstep ⟨new_wf clock n, new_arming clock n⟩ h
  refine ⟨s, hx, ?_, hi.values⟩
  intro hb e he
  exact hi.covered hb e (OrderedSet.first_spec he).1

/- A callback adds a timer that is already past and one that is not; then the one
that armed the timerfd is cancelled. -/
def armingActs : List Act :=
  [.newTimer 8 5 (every 10), .addTimerInLoop 8, .tick 10, .handleRead, .run,
    .newTimer 16 (-7) oneShot, .addTimerInLoop 16, .newTimer 24 (-5) oneShot, .addTimerInLoop 24,
    .cancelInLoop ⟨16, 2⟩, .tick 3, .endRead]

theorem timers_not_lost_sample :
    ∃ s, (machine epoch 0).run (new epoch 0) armingActs = some (.ok s) ∧ s.batch.isNone = true ∧
      s.queue.timers.first = some ⟨-5, 24⟩ ∧
      ∃ fire, s.queue.timerfd = some fire ∧ fire ≤ s.queue.lastArm + 100 := by
  have hr : (machine epoch 0).runsTo (new epoch 0) armingActs
      (fun s => s.batch.isNone && decide (s.queue.timers.first = some ⟨-5, 24⟩ ∧
        -5 ≤ s.queue.lastArm)) = true := by
    decide +kernel
  obtain ⟨s, hs, hp⟩ := Machine.exists_of_runsTo hr
  simp only [Bool.and_eq_true, decide_eq_true_eq] at hp
  obtain ⟨t, ht, hc, _⟩ := timers_not_lost epoch 0 armingActs _ hs
  cases ht
  obtain ⟨fire, hf, hle⟩ := hc (Option.isNone_iff_eq_none.mp hp.1) ⟨-5, 24⟩ hp.2.1
  exact ⟨s, hs, hp.1, hp.2.1, fire, hf, by have := hp.2.2; dsimp only at hle; omega⟩

end TimerSystem
end TstMuduo.Net
