import TstMuduo.Net.TimerRuns

/-!
# Which callbacks run, and when

A timer that has run is either gone, or held by the `handleRead` that ran it, or
in `timers_` again with an expiration one interval after that `handleRead`. A
timer that has been cancelled is gone, or has run and is held by a `handleRead`
that deletes it.
-/

namespace TstMuduo.Net
open TstMuduo.Lib

namespace TimerRun

def entry (r : TimerRun) : Entry := ⟨r.expiration, r.id.timer⟩

end TimerRun

namespace TimerSystem

def runs : List TimerEvent → List TimerRun
  | [] => []
  | .run r :: tr => r :: runs tr
  | .cancel _ :: tr => runs tr

theorem runs_append (tr us : List TimerEvent) : runs (tr ++ us) = runs tr ++ runs us := by
  induction tr with
  | nil => rfl
  | cons e tr ih => cases e <;> simp [runs, ih]

theorem mem_runs {tr : List TimerEvent} {r : TimerRun} : r ∈ runs tr ↔ .run r ∈ tr := by
  induction tr with
  | nil => simp [runs]
  | cons e tr ih => cases e <;> simp [runs, ih]

def ranTimers (s : TimerSystem) : List Nat :=
  match s.batch with
  | none => []
  | some b => b.ran.map Entry.timer

theorem Wf.next_not_ran {s : TimerSystem} (hw : s.Wf) {now : Int} {ran : List Entry} {e : Entry}
    {rest : List Entry} (hb : s.batch = some ⟨now, ran, e :: rest⟩) : e.timer ∉ s.ranTimers := by
  have hnd := hw.queue.once
  simp only [held, hb, List.map_append, List.map_cons] at hnd
  simp only [ranTimers, hb]
  intro hm
  exact (List.nodup_append.mp hnd).2.2 _ hm _ List.mem_cons_self rfl

/-! ### The firing discipline -/

def Apart (r r' : TimerRun) : Prop :=
  r.id.sequence = r'.id.sequence →
    r.interval.repeats = true ∧ r.now + r.interval.delta ≤ r'.now

structure Firing (s : TimerSystem) : Prop where
  past : ∀ r ∈ runs s.trace, r.now ≤ s.clock.now
  batch : ∀ b, s.batch = some b → b.now ≤ s.clock.now ∧ (∀ r ∈ runs s.trace, r.now ≤ b.now) ∧
    ∀ e ∈ b.rest, e.expiration ≤ b.now
  due : ∀ r ∈ runs s.trace, r.expiration ≤ r.now ∧ r.now ≤ r.time
  numbered : ∀ r ∈ runs s.trace, r.id.sequence ≤ s.numCreated
  same : ∀ r ∈ runs s.trace, ∀ a t, s.queue.heap a = some t → t.sequence = r.id.sequence →
    t.interval = r.interval
  again : ∀ r ∈ runs s.trace, ∀ a t, s.queue.heap a = some t → t.sequence = r.id.sequence →
    a ∉ s.ranTimers → r.interval.repeats = true ∧ r.now + r.interval.delta ≤ t.expiration
  apart : (runs s.trace).Pairwise Apart

theorem Firing.frame {s t : TimerSystem} (hi : s.Firing) (htr : runs t.trace = runs s.trace)
    (hclock : s.clock.now ≤ t.clock.now) (hbatch : t.batch = s.batch)
    (hn : s.numCreated ≤ t.numCreated)
    (hheap : ∀ a u, t.queue.heap a = some u →
      s.queue.heap a = some u ∨ s.numCreated < u.sequence) : t.Firing := by
  obtain ⟨hpast, hb, hdue, hnum, hsame, hagain, hapart⟩ := hi
  have hran : t.ranTimers = s.ranTimers := by
    unfold ranTimers
    rw [hbatch]
  refine ⟨?_, ?_, ?_, ?_, ?_, ?_, ?_⟩
  · rw [htr]
    intro r hr
    exact (hpast r hr).trans hclock
  · rw [hbatch, htr]
    intro b hbb
    obtain ⟨h1, h2⟩ := hb b hbb
    exact ⟨h1.trans hclock, h2⟩
  · rw [htr]
    exact hdue
  · rw [htr]
    intro r hr
    exact (hnum r hr).trans hn
  · rw [htr]
    intro r hr a u hu hs
    rcases hheap a u hu with h | h
    · exact hsame r hr a u h hs
    · have := hnum r hr
      omega
  · rw [htr, hran]
    intro r hr a u hu hs
    rcases hheap a u hu with h | h
    · exact hagain r hr a u h hs
    · have := hnum r hr
      omega
  · rw [htr]
    exact hapart

theorem heap_allocated {q : TimerQueue} {a b : Nat} {t u : Timer}
    (h : (allocated q a t).heap b = some u) : q.heap b = some u ∨ u = t := by
  by_cases hb : b = a
  · subst hb
    have hself : (allocated q b t).heap b = some t := Function.update_self ..
    rw [hself] at h
    cases h
    exact .inr rfl
  · have hne : (allocated q a t).heap b = q.heap b := Function.update_of_ne hb _ _
    rw [hne] at h
    exact .inl h

theorem heap_deleted {q : TimerQueue} {a b : Nat} {u : Timer}
    (h : (deleted q a).heap b = some u) : b ≠ a ∧ q.heap b = some u := by
  by_cases hb : b = a
  · subst hb
    have hself : (deleted q b).heap b = none := Function.update_self ..
    rw [hself] at h
    cases h
  · have hne : (deleted q a).heap b = q.heap b := Function.update_of_ne hb _ _
    rw [hne] at h
    exact ⟨hb, h⟩

@[simp]
theorem added_heap (q : TimerQueue) (a : Nat) (t : Timer) (now : Int) :
    (added q a t now).heap = q.heap := by
  unfold added
  split <;> rfl

theorem rearmed_heap (r : TimerQueue) (clock : Int) : (r.rearmed clock).heap = r.heap := by
  unfold TimerQueue.rearmed
  split <;> rfl

theorem heap_refreshed {s : TimerSystem} (hw : s.Wf) {now : Int} {ran : List Entry}
    {r : TimerQueue} (hb : s.batch = some ⟨now, ran, []⟩)
    (hr : TimerQueue.Refreshed { s.queue with callingExpiredTimers := false } r now ran)
    {a : Nat} {u : Timer} (hu : r.heap a = some u) :
    a ∉ s.ranTimers ∧ s.queue.heap a = some u ∨
      ∃ t, a ∈ s.ranTimers ∧ s.queue.heap a = some t ∧ t.interval.repeats = true ∧
        ¬ ⟨a, t.sequence⟩ ∈ s.queue.cancelingTimers ∧ u = t.restart now := by
  have hran : s.ranTimers = ran.map Entry.timer := by simp only [ranTimers, hb]
  rw [hran]
  by_cases ha : a ∈ ran.map Entry.timer
  · obtain ⟨e, he, rfl⟩ := List.mem_map.mp ha
    obtain ⟨_, t, ht, _⟩ := hw.queue.expired e (by simp only [held, hb]; simp [he])
    have hx := hr.each e he t ht
    rw [hu, TimerQueue.refreshed] at hx
    split at hx
    next hc =>
      cases hx
      exact .inr ⟨t, ha, ht, hc.1, hc.2, rfl⟩
    · cases hx
  · rw [hr.other a ha] at hu
    exact .inl ⟨ha, hu⟩

theorem Firing.endRead {s : TimerSystem} (hi : s.Firing) (hw : s.Wf) {now : Int}
    {ran : List Entry} {r : TimerQueue} (hb : s.batch = some ⟨now, ran, []⟩)
    (hr : TimerQueue.Refreshed { s.queue with callingExpiredTimers := false } r now ran) :
    Firing { s with queue := r.rearmed s.clock.now, batch := none } := by
  refine ⟨hi.past, ?_, hi.due, hi.numbered, ?_, ?_, hi.apart⟩
  · intro b hb'
    cases hb'
  · intro q hq a u hu hs
    rw [rearmed_heap] at hu
    rcases heap_refreshed hw hb hr hu with ⟨_, hold⟩ | ⟨t, _, ht, _, _, rfl⟩
    · exact hi.same q hq a u hold hs
    · rw [Timer.restart_sequence] at hs
      rw [Timer.restart_interval]
      exact hi.same q hq a t ht hs
  · intro q hq a u hu hs _
    rw [rearmed_heap] at hu
    rcases heap_refreshed hw hb hr hu with ⟨hnot, hold⟩ | ⟨t, _, ht, hrep, _, rfl⟩
    · exact hi.again q hq a u hold hs hnot
    · rw [Timer.restart_sequence] at hs
      have hint : t.interval = q.interval := hi.same q hq a t ht hs
      have hnow : q.now ≤ now := (hi.batch _ hb).2.1 q hq
      rw [t.restart_expiration now hrep, ← hint]
      exact ⟨hrep, by omega⟩

theorem Wf.next_expiration {s : TimerSystem} (hw : s.Wf) {now : Int} {ran : List Entry} {e : Entry}
    {rest : List Entry} {t : Timer} (hb : s.batch = some ⟨now, ran, e :: rest⟩)
    (ht : s.queue.heap e.timer = some t) : t.expiration = e.expiration := by
  obtain ⟨_, u, hu, hx⟩ := hw.queue.expired e (by simp only [held, hb]; simp)
  rw [ht] at hu
  cases hu
  exact hx

theorem Firing.run {s : TimerSystem} (hi : s.Firing) (hw : s.Wf) {now : Int} {ran : List Entry}
    {e : Entry} {rest : List Entry} {t : Timer} (hb : s.batch = some ⟨now, ran, e :: rest⟩)
    (ht : s.queue.heap e.timer = some t) :
    Firing { s with
      batch := some ⟨now, ran ++ [e], rest⟩
      trace := s.trace ++ [.run (runOf e t now s.clock.now)] } := by
  obtain ⟨hpast, hbatch, hdue, hnum, hsame, hagain, hapart⟩ := hi
  obtain ⟨hclock, hnows, hexp⟩ := hbatch _ hb
  have hnext : e.timer ∉ s.ranTimers := hw.next_not_ran hb
  have hte : t.expiration = e.expiration := hw.next_expiration hb ht
  have hle : e.expiration ≤ now := hexp e List.mem_cons_self
  have hrun : runs (s.trace ++ [.run (runOf e t now s.clock.now)]) =
      runs s.trace ++ [runOf e t now s.clock.now] := runs_append _ _
  have hmem : ∀ r, r ∈ runs (s.trace ++ [.run (runOf e t now s.clock.now)]) →
      r ∈ runs s.trace ∨ r = runOf e t now s.clock.now := by
    intro r hr
    rw [hrun] at hr
    simpa using hr
  refine ⟨?_, ?_, ?_, ?_, ?_, ?_, ?_⟩
  · intro r hr
    rcases hmem r hr with hr | rfl
    · exact hpast r hr
    · exact hclock
  · intro b hb'
    cases hb'
    refine ⟨hclock, ?_, fun f hf => hexp f (List.mem_cons_of_mem _ hf)⟩
    intro r hr
    rcases hmem r hr with hr | rfl
    · exact hnows r hr
    · exact le_refl now
  · intro r hr
    rcases hmem r hr with hr | rfl
    · exact hdue r hr
    · exact ⟨le_of_eq_of_le hte hle, hclock⟩
  · intro r hr
    rcases hmem r hr with hr | rfl
    · exact hnum r hr
    · exact hw.queue.numbered _ t ht
  · intro r hr a u hu hs
    rcases hmem r hr with hr | rfl
    · exact hsame r hr a u hu hs
    · have ha : a = e.timer := hw.queue.distinct a e.timer u t hu ht hs
      rw [ha, ht] at hu
      cases hu
      rfl
  · intro r hr a u hu hs hnot
    have hran : a ∉ s.ranTimers ∧ a ≠ e.timer := by
      simp only [ranTimers, hb]
      simpa [ranTimers] using hnot
    rcases hmem r hr with hr | rfl
    · exact hagain r hr a u hu hs hran.1
    · exact absurd (hw.queue.distinct a e.timer u t hu ht hs) hran.2
  · rw [hrun]
    refine List.pairwise_append.mpr ⟨hapart, List.pairwise_singleton _ _, ?_⟩
    intro r hr r' hr' hs
    obtain rfl := List.mem_singleton.mp hr'
    obtain ⟨hrep, hsep⟩ := hagain r hr e.timer t ht hs.symm hnext
    refine ⟨hrep, ?_⟩
    change r.now + r.interval.delta ≤ now
    omega

theorem Step.firing {s t : TimerSystem} {a : Act} (h : Step s a t) (hw : s.Wf) (hi : s.Firing) :
    t.Firing := by
  cases h with
  | tick d =>
    refine hi.frame rfl ?_ rfl (le_refl _) (fun a u hu => .inl hu)
    have hc : (s.clock.tick d).now = s.clock.now + d := rfl
    change s.clock.now ≤ (s.clock.tick d).now
    omega
  | created => exact hi.frame rfl (le_refl _) rfl (Nat.le_succ _) (fun a u hu => .inl hu)
  | newTimer a when_ interval hn =>
    refine hi.frame rfl (le_refl _) rfl (Nat.le_succ _) ?_
    intro b u hu
    rcases heap_allocated hu with h | rfl
    · exact .inl h
    · exact .inr (Nat.lt_succ_self _)
  | addTimerInLoop a t hl ht =>
    refine hi.frame rfl (le_refl _) rfl (le_refl _) ?_
    intro b u hu
    exact .inl ((added_heap ..) ▸ hu)
  | cancelActive id t ht hs hq =>
    refine hi.frame (by simp [runs_append, runs]) (le_refl _) rfl (le_refl _) ?_
    intro b u hu
    exact .inl (heap_deleted hu).2
  | cancelOther id hs hid =>
    refine hi.frame (by simp [runs_append, runs]) (le_refl _) rfl (le_refl _) ?_
    intro b u hu
    dsimp only at hu
    split at hu <;> exact .inl hu
  | handleRead act hb =>
    obtain ⟨hpast, hbatch, hdue, hnum, hsame, hagain, hapart⟩ := hi
    have hran : s.ranTimers = [] := by simp only [ranTimers, hb]
    refine ⟨hpast, ?_, hdue, hnum, hsame, ?_, hapart⟩
    · intro b hb'
      cases hb'
      exact ⟨le_refl _, hpast, fun e he => (hw.queue.mem_before.mp he).2⟩
    · intro r hr a u hu hs _
      exact hagain r hr a u hu hs (by rw [hran]; exact List.not_mem_nil)
  | run now ran e rest t hb ht => exact hi.run hw hb ht
  | endRead now ran r hb hwr hr => exact hi.endRead hw hb hr

theorem new_firing (clock : Clock) (n : Nat) : (new clock n).Firing := by
  refine ⟨?_, ?_, ?_, ?_, ?_, ?_, List.Pairwise.nil⟩
  · intro r hr; cases hr
  · intro b hb; cases hb
  · intro r hr; cases hr
  · intro r hr; cases hr
  · intro r hr; cases hr
  · intro r hr; cases hr

/- A `handleRead` that took `expired` at `now`, when `before` had run, and has not
ended: its own runs are the first timers of `expired`, in order. -/
def InBatch (now : Int) (expired : List Entry) (before : List TimerRun) (s : TimerSystem) : Prop :=
  ∃ ran rest rs, s.batch = some ⟨now, ran, rest⟩ ∧ ran ++ rest = expired ∧
    runs s.trace = before ++ rs ∧ rs.map TimerRun.entry = ran ∧ ∀ r ∈ rs, r.now = now

theorem Step.inBatch {now : Int} {expired : List Entry} {before : List TimerRun}
    {s t : TimerSystem} {a : Act} (h : Step s a t) (hw : s.Wf) (ha : a ≠ .endRead)
    (hi : InBatch now expired before s) : InBatch now expired before t := by
  obtain ⟨ran, rest, rs, hb, hsplit, hruns, hentries, hnow⟩ := hi
  cases h with
  | tick d => exact ⟨ran, rest, rs, hb, hsplit, hruns, hentries, hnow⟩
  | created => exact ⟨ran, rest, rs, hb, hsplit, hruns, hentries, hnow⟩
  | newTimer a when_ interval hn => exact ⟨ran, rest, rs, hb, hsplit, hruns, hentries, hnow⟩
  | addTimerInLoop a t hl ht => exact ⟨ran, rest, rs, hb, hsplit, hruns, hentries, hnow⟩
  | cancelActive id t ht hs hq =>
    exact ⟨ran, rest, rs, hb, hsplit, by simpa [runs_append, runs] using hruns, hentries, hnow⟩
  | cancelOther id hs hid =>
    exact ⟨ran, rest, rs, hb, hsplit, by simpa [runs_append, runs] using hruns, hentries, hnow⟩
  | handleRead act hb' =>
    rw [hb] at hb'
    cases hb'
  | run now' ran' e rest' t hb' ht =>
    rw [hb] at hb'
    cases hb'
    have hte : t.expiration = e.expiration := hw.next_expiration hb ht
    refine ⟨ran ++ [e], rest', rs ++ [runOf e t now s.clock.now], rfl, ?_, ?_, ?_, ?_⟩
    · rw [← hsplit, List.append_assoc]
      rfl
    · rw [runs_append, hruns, List.append_assoc]
      rfl
    · have hentry : (runOf e t now s.clock.now).entry = e := by
        simp only [TimerRun.entry, runOf, hte]
      rw [List.map_append, hentries]
      simp [hentry]
    · intro r hr
      rcases List.mem_append.mp hr with hr | hr
      · exact hnow r hr
      · rw [List.mem_singleton.mp hr]
        rfl
  | endRead now' ran' r hb' hwr hr => exact absurd rfl ha

theorem run_inBatch {clock : Clock} {n : Nat} {now : Int} {expired : List Entry}
    {before : List TimerRun} {s t : TimerSystem} {mid : List Act} (hw : s.Wf)
    (hi : InBatch now expired before s) (hm : .endRead ∉ mid)
    (h : (machine clock n).run s mid = some (.ok t)) : t.Wf ∧ InBatch now expired before t := by
  have hstep : ∀ s a t, s.Wf ∧ InBatch now expired before s → a ≠ .endRead →
      (machine clock n).step s a = some (.ok t) → t.Wf ∧ InBatch now expired before t := by
    intro s a t hs ha hst
    obtain ⟨u, hu, hsu, hwu⟩ := step_sound s a _ hs.1 hst
    cases hu
    exact ⟨hwu, hsu.inBatch hs.1 ha hs.2⟩
  have hguard : (machine clock n).Along (fun _ a => a ≠ .endRead) s mid := by
    apply Machine.along_of_forall
    intro a ha _ he
    exact hm (he ▸ ha)
  exact Machine.run_inv (P := fun s => s.Wf ∧ InBatch now expired before s) hstep ⟨hw, hi⟩ hguard h

theorem handleRead_runs {clock : Clock} {n : Nat} {s u : TimerSystem} {mid : List Act}
    (hw : s.Wf) (hm : .endRead ∉ mid)
    (h : (machine clock n).run s (.handleRead :: (mid ++ [.endRead])) = some (.ok u)) :
    ∃ rs, runs u.trace = runs s.trace ++ rs ∧
      rs.map TimerRun.entry = s.queue.timers.before (TimerQueue.sentry s.clock.now) ∧
      ∀ r ∈ rs, r.now = s.clock.now := by
  obtain ⟨t, ht, h⟩ := Machine.run_cons_ok h
  obtain ⟨v, hv, h⟩ := Machine.run_append_ok h
  have hend := Machine.run_singleton_ok h
  obtain ⟨t', he, hst, hwt⟩ := step_sound s .handleRead (.ok t) hw ht
  cases he
  have hstart : InBatch s.clock.now (s.queue.timers.before (TimerQueue.sentry s.clock.now))
      (runs s.trace) t := by
    cases hst with
    | handleRead act hb =>
      refine ⟨[], _, [], rfl, rfl, (List.append_nil _).symm, rfl, ?_⟩
      intro r hr
      cases hr
  obtain ⟨hwv, ran, rest, rs, hb, hsplit, hruns, hentries, hnow⟩ := run_inBatch hwt hstart hm hv
  obtain ⟨u', he, hsu, _⟩ := step_sound v .endRead (.ok u) hwv hend
  cases he
  refine ⟨rs, ?_, ?_, hnow⟩
  · cases hsu
    exact hruns
  · cases hsu with
    | endRead now' ran' r hb' hwr hr =>
      rw [hb] at hb'
      cases hb'
      rw [hentries, ← hsplit, List.append_nil]

theorem before_eq_filter {q : TimerQueue} {held : List Entry} {limbo : Set Nat} {n : Nat}
    (hw : q.Wf held limbo n) (now : Int) :
    q.timers.before (TimerQueue.sentry now) = q.timers.keys.filter (·.expiration ≤ now) := by
  rw [OrderedSet.before_eq_filter]
  apply List.filter_congr
  intro e he
  obtain ⟨t, ht, _⟩ := hw.timers e he
  exact decide_eq_decide.mpr (Entry.lt_sentry (hw.range _ t ht))

/-- In every run, no callback runs before its expiration, and a timer runs again only
if it repeats and one interval later. A whole `handleRead` runs exactly the timers
that were in `timers_` and due when it read the clock, each once, the earlier ones
first. -/
theorem firing_discipline (clock : Clock) (n : Nat) (acts : List Act) (s : TimerSystem)
    (h : (machine clock n).run (new clock n) acts = some (.ok s)) :
    (∀ r ∈ runs s.trace, r.expiration ≤ r.now ∧ r.now ≤ r.time) ∧
      (runs s.trace).Pairwise (fun r r' => r.id.sequence = r'.id.sequence →
        r.interval.repeats = true ∧ r.now + r.interval.delta ≤ r'.now) ∧
      ∀ mid u, .endRead ∉ mid →
        (machine clock n).run s (.handleRead :: (mid ++ [.endRead])) = some (.ok u) →
        ∃ rs, runs u.trace = runs s.trace ++ rs ∧
          rs.map TimerRun.entry = s.queue.timers.keys.filter (·.expiration ≤ s.clock.now) ∧
          (rs.map TimerRun.entry).Nodup ∧
          rs.Pairwise (fun r r' => r.expiration ≤ r'.expiration) ∧
          ∀ r ∈ rs, r.now = s.clock.now := by
  have hstep : ∀ s a t, s.Wf ∧ s.Firing → (machine clock n).step s a = some (.ok t) →
      t.Wf ∧ t.Firing := by
    intro s a t hi hst
    obtain ⟨u, hu, hsu, hwu⟩ := step_sound s a _ hi.1 hst
    cases hu
    exact ⟨hwu, hsu.firing hi.1 hi.2⟩
  obtain ⟨hw, hi⟩ := Machine.run_inv_all hstep ⟨new_wf clock n, new_firing clock n⟩ h
  refine ⟨hi.due, hi.apart, ?_⟩
  intro mid u hm hu
  obtain ⟨rs, hruns, hentries, hnow⟩ := handleRead_runs hw hm hu
  have hinc : (rs.map TimerRun.entry).Pairwise (· < ·) := by
    rw [hentries]
    exact OrderedSet.before_increasing _ _
  refine ⟨rs, hruns, ?_, hinc.imp ne_of_lt, ?_, hnow⟩
  · rw [hentries]
    exact before_eq_filter hw.queue s.clock.now
  · have hle : rs.Pairwise (fun r r' => r.entry < r'.entry) := List.pairwise_map.mp hinc
    exact hle.imp fun hlt => Entry.expiration_le (le_of_lt hlt)

/- A one-shot and a repeating timer expire together and run in one `handleRead`. -/
def firingActs : List Act :=
  [.newTimer 8 5 oneShot, .addTimerInLoop 8, .newTimer 16 4 (every 10), .addTimerInLoop 16,
    .newTimer 24 90 oneShot, .addTimerInLoop 24, .tick 10]

def firingMid : List Act := [.run, .tick 2, .run]

theorem firing_discipline_sample :
    ∃ s u, (machine epoch 0).run (new epoch 0) firingActs = some (.ok s) ∧
      (machine epoch 0).run s (.handleRead :: (firingMid ++ [.endRead])) = some (.ok u) ∧
      ∃ rs, runs u.trace = runs s.trace ++ rs ∧ rs.map TimerRun.entry = [⟨4, 16⟩, ⟨5, 8⟩] := by
  have hr : (machine epoch 0).runsTo (new epoch 0) firingActs (fun s => decide
      (s.queue.timers.keys.filter (·.expiration ≤ s.clock.now) = [⟨4, 16⟩, ⟨5, 8⟩]) &&
      (machine epoch 0).runsTo s (.handleRead :: (firingMid ++ [.endRead])) (fun _ => true)) =
      true := by
    decide +kernel
  obtain ⟨s, hs, hp⟩ := Machine.exists_of_runsTo hr
  rw [Bool.and_eq_true] at hp
  obtain ⟨u, hu, _⟩ := Machine.exists_of_runsTo hp.2
  have hm : .endRead ∉ firingMid := by simp [firingMid]
  obtain ⟨rs, hruns, hentries, _⟩ :=
    (firing_discipline epoch 0 firingActs s hs).2.2 firingMid u hm hu
  exact ⟨s, u, hs, hu, rs, hruns, hentries.trans (of_decide_eq_true hp.1)⟩

/-! ### Cancelling -/

/- No callback of a timer runs after a cancellation of that timer. -/
def Final (tr : List TimerEvent) : Prop :=
  tr.Pairwise fun x y => ∀ id r, x = .cancel id → y = .run r → r.id ≠ id

/- A cancellation that comes before the timer is inserted, or while the timer waits
in the expired vector for its turn. -/
def Missed (s : TimerSystem) (a : Act) : Prop :=
  ∃ id t, a = .cancelInLoop id ∧ s.queue.heap id.timer = some t ∧ t.sequence = id.sequence ∧
    (id.timer ∈ s.limbo ∨ ∃ b, s.batch = some b ∧ id.timer ∈ b.rest.map Entry.timer)

structure Cancelled (s : TimerSystem) : Prop where
  final : Final s.trace
  numbered : ∀ id, .cancel id ∈ s.trace → id.sequence ≤ s.numCreated
  gone : ∀ id, .cancel id ∈ s.trace → ∀ t, s.queue.heap id.timer = some t →
    t.sequence = id.sequence → id.timer ∈ s.ranTimers ∧ id ∈ s.queue.cancelingTimers

theorem Final.cancel {tr : List TimerEvent} (h : Final tr) (id : ActiveTimer) :
    Final (tr ++ [.cancel id]) := by
  refine List.pairwise_append.mpr ⟨h, List.pairwise_singleton _ _, ?_⟩
  intro x _ y hy _ r _ hr
  rw [List.mem_singleton.mp hy] at hr
  cases hr

theorem Final.run {tr : List TimerEvent} (h : Final tr) (r : TimerRun)
    (hn : .cancel r.id ∉ tr) : Final (tr ++ [.run r]) := by
  refine List.pairwise_append.mpr ⟨h, List.pairwise_singleton _ _, ?_⟩
  intro x hx y hy id r' hxc hyr he
  rw [List.mem_singleton.mp hy] at hyr
  cases hyr
  rw [he] at hn
  exact hn (hxc ▸ hx)

theorem Cancelled.frame {s t : TimerSystem} (hi : s.Cancelled) (htr : t.trace = s.trace)
    (hn : s.numCreated ≤ t.numCreated)
    (hheap : ∀ a u, t.queue.heap a = some u →
      s.queue.heap a = some u ∨ s.numCreated < u.sequence)
    (hran : t.ranTimers = s.ranTimers)
    (hcan : t.queue.cancelingTimers = s.queue.cancelingTimers) : t.Cancelled := by
  obtain ⟨hfinal, hnum, hgone⟩ := hi
  refine ⟨?_, ?_, ?_⟩
  · rw [htr]
    exact hfinal
  · intro id hid
    rw [htr] at hid
    exact (hnum id hid).trans hn
  · intro id hid u hu hs
    rw [htr] at hid
    rw [hran, hcan]
    rcases hheap _ u hu with h | h
    · exact hgone id hid u h hs
    · have := hnum id hid
      omega

@[simp]
theorem added_canceling (q : TimerQueue) (a : Nat) (t : Timer) (now : Int) :
    (added q a t now).cancelingTimers = q.cancelingTimers := by
  unfold added
  split <;> rfl

theorem Wf.missed {s : TimerSystem} (hw : s.Wf) {id : ActiveTimer} {t : Timer}
    (hid : ¬ id ∈ s.queue.activeTimers) (ht : s.queue.heap id.timer = some t)
    (hs : t.sequence = id.sequence) (hg : ¬ Missed s (.cancelInLoop id)) :
    id.timer ∈ s.ranTimers ∧ s.queue.callingExpiredTimers = true := by
  have hq : ¬ s.queue.Queued id.timer := by
    intro hq
    have hact := (hw.queue.active_iff ht).mpr hq
    rw [hs] at hact
    exact hid hact
  rcases hw.queue.owned _ t ht with h | h | h
  · exact absurd h hq
  · cases hb : s.batch with
    | none =>
      simp only [held, hb] at h
      cases h
    | some b =>
      simp only [held, hb, List.map_append, List.mem_append] at h
      rcases h with h | h
      · refine ⟨by simpa only [ranTimers, hb] using h, ?_⟩
        rw [hw.calling, hb]
        rfl
      · exact absurd ⟨id, t, rfl, ht, hs, .inr ⟨b, hb, h⟩⟩ hg
  · exact absurd ⟨id, t, rfl, ht, hs, .inl h⟩ hg

theorem Step.cancelled {s t : TimerSystem} {a : Act} (h : Step s a t) (hw : s.Wf)
    (hg : ¬ Missed s a) (hi : s.Cancelled) : t.Cancelled := by
  cases h with
  | tick d => exact hi.frame rfl (le_refl _) (fun a u hu => .inl hu) rfl rfl
  | created => exact hi.frame rfl (Nat.le_succ _) (fun a u hu => .inl hu) rfl rfl
  | newTimer a when_ interval hn =>
    refine hi.frame rfl (Nat.le_succ _) ?_ rfl rfl
    intro b u hu
    rcases heap_allocated hu with h | rfl
    · exact .inl h
    · exact .inr (Nat.lt_succ_self _)
  | addTimerInLoop a t hl ht =>
    refine hi.frame rfl (le_refl _) ?_ rfl (added_canceling ..)
    intro b u hu
    exact .inl ((added_heap ..) ▸ hu)
  | cancelActive id t ht hs hq =>
    obtain ⟨hfinal, hnum, hgone⟩ := hi
    refine ⟨hfinal.cancel id, ?_, ?_⟩
    · intro id' hid
      rcases List.mem_append.mp hid with hid | hid
      · exact hnum id' hid
      · cases List.mem_singleton.mp hid
        have := hw.queue.numbered _ t ht
        dsimp only
        omega
    · intro id' hid u hu hs'
      obtain ⟨hne, hu⟩ := heap_deleted hu
      rcases List.mem_append.mp hid with hid | hid
      · exact hgone id' hid u hu hs'
      · cases List.mem_singleton.mp hid
        exact absurd rfl hne
  | cancelOther id hs hid =>
    obtain ⟨hfinal, hnum, hgone⟩ := hi
    refine ⟨hfinal.cancel id, ?_, ?_⟩
    · intro id' hid'
      rcases List.mem_append.mp hid' with hid' | hid'
      · exact hnum id' hid'
      · cases List.mem_singleton.mp hid'
        exact hs
    · intro id' hid' u hu hs'
      have hu' : s.queue.heap id'.timer = some u := by
        dsimp only at hu
        split at hu <;> exact hu
      rcases List.mem_append.mp hid' with hold | hnew
      · obtain ⟨h1, h2⟩ := hgone id' hold u hu' hs'
        refine ⟨h1, ?_⟩
        dsimp only
        split
        · exact OrderedSet.mem_insert.mpr (.inr h2)
        · exact h2
      · cases List.mem_singleton.mp hnew
        obtain ⟨h1, h2⟩ := hw.missed hid hu' hs' hg
        refine ⟨h1, ?_⟩
        dsimp only
        rw [if_pos h2]
        exact OrderedSet.mem_insert.mpr (.inl rfl)
  | handleRead act hb =>
    obtain ⟨hfinal, hnum, hgone⟩ := hi
    refine ⟨hfinal, hnum, ?_⟩
    intro id hid u hu hs
    have hran := (hgone id hid u hu hs).1
    simp only [ranTimers, hb] at hran
    cases hran
  | run now ran e rest t hb ht =>
    obtain ⟨hfinal, hnum, hgone⟩ := hi
    have hnext : e.timer ∉ s.ranTimers := hw.next_not_ran hb
    refine ⟨hfinal.run _ ?_, ?_, ?_⟩
    · intro hid
      exact hnext (hgone _ hid t ht rfl).1
    · intro id hid
      rcases List.mem_append.mp hid with hid | hid
      · exact hnum id hid
      · simp at hid
    · intro id hid u hu hs
      rcases List.mem_append.mp hid with hid | hid
      · obtain ⟨h1, h2⟩ := hgone id hid u hu hs
        refine ⟨?_, h2⟩
        simp only [ranTimers, hb] at h1
        simp only [ranTimers, List.map_append]
        exact List.mem_append_left _ h1
      · simp at hid
  | endRead now ran r hb hwr hr =>
    obtain ⟨hfinal, hnum, hgone⟩ := hi
    refine ⟨hfinal, hnum, ?_⟩
    -- a cancelled timer that is still there has run, and `reset` deletes it
    intro id hid u hu hs
    rw [rearmed_heap] at hu
    rcases heap_refreshed hw hb hr hu with ⟨hnot, hold⟩ | ⟨t, _, ht, _, hncan, rfl⟩
    · exact absurd (hgone id hid u hold hs).1 hnot
    · rw [Timer.restart_sequence] at hs
      have hcan := (hgone id hid t ht hs).2
      rw [hs] at hncan
      exact absurd hcan hncan

theorem new_cancelled (clock : Clock) (n : Nat) : (new clock n).Cancelled := by
  refine ⟨List.Pairwise.nil, ?_, ?_⟩
  · intro id hid; cases hid
  · intro id hid; cases hid

/-- In a run whose cancellations all come after the timer is inserted and not while
it waits for its turn in a running `handleRead`, no cancelled timer runs again. -/
theorem cancel_final (clock : Clock) (n : Nat) (acts : List Act) (s : TimerSystem)
    (hg : (machine clock n).Along (fun s a => ¬ Missed s a) (new clock n) acts)
    (h : (machine clock n).run (new clock n) acts = some (.ok s)) :
    ∀ pre post id, s.trace = pre ++ .cancel id :: post → ∀ r ∈ runs post, r.id ≠ id := by
  have hstep : ∀ s a t, s.Wf ∧ s.Cancelled → ¬ Missed s a →
      (machine clock n).step s a = some (.ok t) → t.Wf ∧ t.Cancelled := by
    intro s a t hi hn hst
    obtain ⟨u, hu, hsu, hwu⟩ := step_sound s a _ hi.1 hst
    cases hu
    exact ⟨hwu, hsu.cancelled hi.1 hn hi.2⟩
  obtain ⟨_, hi⟩ := Machine.run_inv hstep ⟨new_wf clock n, new_cancelled clock n⟩ hg h
  intro pre post id htr r hr
  have hfinal := hi.final
  rw [Final, htr] at hfinal
  have htail := (List.pairwise_append.mp hfinal).2.1
  exact (List.pairwise_cons.mp htail).1 _ (mem_runs.mp hr) id r rfl rfl

def missedBool (s : TimerSystem) (id : ActiveTimer) : Bool :=
  (match s.queue.heap id.timer with
    | some t => decide (t.sequence = id.sequence)
    | none => false) &&
  (decide (id.timer ∈ s.limbo) ||
    match s.batch with
    | some b => decide (id.timer ∈ b.rest.map Entry.timer)
    | none => false)

theorem missedBool_iff (s : TimerSystem) (id : ActiveTimer) :
    missedBool s id = true ↔ Missed s (.cancelInLoop id) := by
  unfold missedBool Missed
  constructor
  · intro h
    rw [Bool.and_eq_true, Bool.or_eq_true] at h
    obtain ⟨h1, h2⟩ := h
    split at h1
    next t ht =>
      refine ⟨id, t, rfl, ht, of_decide_eq_true h1, ?_⟩
      rcases h2 with h2 | h2
      · exact .inl (of_decide_eq_true h2)
      · split at h2
        next b hb => exact .inr ⟨b, hb, of_decide_eq_true h2⟩
        · cases h2
    · cases h1
  · intro h
    obtain ⟨id', t, hid, ht, hs, h⟩ := h
    cases hid
    rw [ht]
    rcases h with h | ⟨b, hb, h⟩
    · simp [hs, h]
    · rw [hb]
      simp only [hs, decide_true, Bool.true_and, Bool.or_eq_true]
      exact .inr (decide_eq_true h)

instance (s : TimerSystem) (a : Act) : Decidable (Missed s a) := by
  cases a with
  | cancelInLoop id => exact decidable_of_iff _ (missedBool_iff s id)
  | _ => exact isFalse (by intro h; obtain ⟨_, _, h, _⟩ := h; cases h)

/- Three repeating timers: the first cancels itself, the second is cancelled by the
third after it has run. -/
def finalActs : List Act :=
  [.newTimer 8 3 (every 10), .addTimerInLoop 8, .newTimer 16 4 (every 10), .addTimerInLoop 16,
    .newTimer 24 5 (every 10), .addTimerInLoop 24, .tick 10, .handleRead, .run,
    .cancelInLoop ⟨8, 1⟩, .run, .run, .cancelInLoop ⟨16, 2⟩, .endRead, .tick 10, .handleRead,
    .run, .endRead]

theorem cancel_final_sample :
    ∃ s, (machine epoch 0).run (new epoch 0) finalActs = some (.ok s) ∧
      (runs s.trace).map TimerRun.id = [⟨8, 1⟩, ⟨16, 2⟩, ⟨24, 3⟩, ⟨24, 3⟩] ∧
      ∀ pre post id, s.trace = pre ++ .cancel id :: post → ∀ r ∈ runs post, r.id ≠ id := by
  have hr : (machine epoch 0).runsTo (new epoch 0) finalActs (fun s => decide
      ((runs s.trace).map TimerRun.id = [⟨8, 1⟩, ⟨16, 2⟩, ⟨24, 3⟩, ⟨24, 3⟩])) = true := by
    decide +kernel
  obtain ⟨s, hs, hp⟩ := Machine.exists_of_runsTo hr
  exact ⟨s, hs, of_decide_eq_true hp,
    cancel_final epoch 0 finalActs s (by decide +kernel) hs⟩

/- Two timers expire together, and the callback of the first cancels the second. -/
def laterInBatchActs : List Act :=
  [.newTimer 8 4 oneShot, .addTimerInLoop 8, .newTimer 16 5 oneShot, .addTimerInLoop 16, .tick 10,
    .handleRead, .run, .cancelInLoop ⟨16, 2⟩, .run]

/- Another thread adds a timer; the loop thread gets the id and cancels it before the
queued `addTimerInLoop` runs. -/
def notYetAddedActs : List Act :=
  [.newTimer 8 4 oneShot, .cancelInLoop ⟨8, 1⟩, .addTimerInLoop 8, .tick 10, .handleRead, .run]

def runsCancelled : List TimerEvent → Bool
  | [] => false
  | .run _ :: tr => runsCancelled tr
  | .cancel id :: tr => (runs tr).any (fun r => decide (r.id = id)) || runsCancelled tr

theorem runsCancelled_spec {tr : List TimerEvent} (h : runsCancelled tr = true) :
    ∃ pre post id r, tr = pre ++ .cancel id :: post ∧ r ∈ runs post ∧ r.id = id := by
  induction tr with
  | nil => cases h
  | cons e tr ih =>
    have later (h : runsCancelled tr = true) : ∃ pre post id r,
        e :: tr = pre ++ .cancel id :: post ∧ r ∈ runs post ∧ r.id = id := by
      obtain ⟨pre, post, id, r, htr, hr⟩ := ih h
      exact ⟨e :: pre, post, id, r, by rw [htr]; rfl, hr⟩
    cases e with
    | run r => exact later h
    | cancel id =>
      rcases Bool.or_eq_true _ _ ▸ h with h | h
      · obtain ⟨r, hr, hid⟩ := List.any_eq_true.mp h
        exact ⟨[], tr, id, r, rfl, hr, of_decide_eq_true hid⟩
      · exact later h

theorem cancelled_runs :
    (∃ s, (machine epoch 0).run (new epoch 0) laterInBatchActs = some (.ok s) ∧
      ∃ pre post id r, s.trace = pre ++ .cancel id :: post ∧ r ∈ runs post ∧ r.id = id) ∧
    ∃ s, (machine epoch 0).run (new epoch 0) notYetAddedActs = some (.ok s) ∧
      ∃ pre post id r, s.trace = pre ++ .cancel id :: post ∧ r ∈ runs post ∧ r.id = id := by
  have h1 : (machine epoch 0).runsTo (new epoch 0) laterInBatchActs
      (fun s => runsCancelled s.trace) = true := by decide +kernel
  have h2 : (machine epoch 0).runsTo (new epoch 0) notYetAddedActs
      (fun s => runsCancelled s.trace) = true := by decide +kernel
  obtain ⟨s, hs, hp⟩ := Machine.exists_of_runsTo h1
  obtain ⟨u, hu, hq⟩ := Machine.exists_of_runsTo h2
  exact ⟨⟨s, hs, runsCancelled_spec hp⟩, ⟨u, hu, runsCancelled_spec hq⟩⟩

end TimerSystem
end TstMuduo.Net
