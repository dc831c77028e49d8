import TstMuduo.LevelWheel.Placement

/-!
# The periods of the timers (examples/tsttimewheel/timewheel.cpp)

`DealTimeWheeling` takes the time since the start of a period modulo a round that is one
minute longer than the wheel's own. As long as no timer is in the wheel when the minutes
start over, every timer fires once each interval.
-/

namespace TstMuduo.LevelWheel
open TstMuduo.Lib

namespace WheelRun

/-! ### The invariant -/

def Tracks (c : Config) (s : WheelRun) (cur : Int) (e : EventInfo) (t : Timer) : Prop :=
  t.key = e.callBack ∧ t.deleted = none ∧ t.interval = e.interval ∧
    ∃ k r : Nat, s.steps = t.since + k * t.period c.stepMs + r ∧
      c.startOf e + r * c.stepMs = cur ∧
      s.fired.filter (fun f => f.1 = t.key) = t.times c.stepMs k

/-- Every timer in the lists is waiting for its time, in the list for it unless its period
straddles the end of the round; the timers in the lists are those that are not deleted, each
in one place; and all have fired when they should. -/
structure Inv (c : Config) (s : WheelRun) (cur : Int) : Prop where
  place : c.At s.wheel cur
  waiting : ∀ i < s.wheel.nCount.toNat, ∀ e ∈ s.wheel.pCallbackList i,
    c.Waiting cur e ∧ cur < c.due e ∧ (c.due e < c.round → c.home cur e = i)
  tracked : ∀ i < s.wheel.nCount.toNat, ∀ e ∈ s.wheel.pCallbackList i,
    ∃ t ∈ s.timers, Tracks c s cur e t
  nodup : ∀ i < s.wheel.nCount.toNat, ((s.wheel.pCallbackList i).map EventInfo.callBack).Nodup
  apart : ∀ i < s.wheel.nCount.toNat, ∀ j < s.wheel.nCount.toNat,
    ∀ e ∈ s.wheel.pCallbackList i, ∀ f ∈ s.wheel.pCallbackList j, e.callBack = f.callBack → i = j
  present : ∀ t ∈ s.timers, t.deleted = none →
    ∃ i < s.wheel.nCount.toNat, ∃ e ∈ s.wheel.pCallbackList i, e.callBack = t.key
  keys : (s.timers.map Timer.key).Nodup
  fresh : ∀ t ∈ s.timers, t.key < s.timers.length
  past : ∀ t ∈ s.timers, ∀ d, t.deleted = some d →
    s.fired.filter (fun f => f.1 = t.key) = t.firings c.stepMs d
  known : ∀ f ∈ s.fired, ∃ t ∈ s.timers, t.key = f.1

variable {c : Config} {s : WheelRun} {cur : Int}

theorem new_inv (c : Config) : Inv c (new c) 0 where
  place := c.wheel_at
  waiting := fun _ _ _ he => (List.not_mem_nil he).elim
  tracked := fun _ _ _ he => (List.not_mem_nil he).elim
  nodup := fun _ _ => List.nodup_nil
  apart := fun _ _ _ _ _ he => (List.not_mem_nil he).elim
  present := fun _ ht => (List.not_mem_nil ht).elim
  keys := List.nodup_nil
  fresh := fun _ ht => (List.not_mem_nil ht).elim
  past := fun _ ht => (List.not_mem_nil ht).elim
  known := fun _ hf => (List.not_mem_nil hf).elim

theorem Inv.timer_unique (h : Inv c s cur) {t u : Timer} (ht : t ∈ s.timers) (hu : u ∈ s.timers)
    (htu : t.key = u.key) : t = u :=
  List.inj_on_of_nodup_map h.keys ht hu htu

theorem Inv.slotted (h : Inv c s cur) :
    Slotted EventInfo.callBack s.wheel.nCount.toNat s.wheel.pCallbackList := ⟨h.nodup, h.apart⟩

theorem period_mul {e : EventInfo} {t : Timer} (he : c.Waiting cur e)
    (hti : t.interval = e.interval) : (t.period c.stepMs : Int) * c.stepMs = e.interval := by
  have hnonneg : 0 ≤ e.interval / c.stepMs :=
    Int.ediv_nonneg (Int.le_of_lt he.interval_pos) (Int.le_of_lt c.pos)
  unfold Timer.period
  rw [hti, Int.toNat_of_nonneg hnonneg, Int.ediv_mul_cancel he.interval_dvd]

theorem Tracks.firings {e : EventInfo} {t : Timer} (h : Tracks c s cur e t)
    (he : c.Waiting cur e) (hlt : cur < c.due e) :
    s.fired.filter (fun f => f.1 = t.key) = t.firings c.stepMs s.steps := by
  obtain ⟨_, _, hti, k, r, hsteps, hcur, hfired⟩ := h
  have hmul := period_mul he hti
  have hdue : c.due e = c.startOf e + e.interval := rfl
  have hr : (r : Int) * c.stepMs < t.period c.stepMs * c.stepMs := by omega
  have hlt : r < t.period c.stepMs := by
    exact_mod_cast Int.lt_of_mul_lt_mul_right hr (Int.le_of_lt c.pos)
  have hk : (s.steps - t.since) / t.period c.stepMs = k := by
    have hsub : s.steps - t.since = k * t.period c.stepMs + r := by omega
    rw [hsub, Nat.add_comm, Nat.add_mul_div_right _ _ (by omega), Nat.div_eq_of_lt hlt,
      Nat.zero_add]
  rw [hfired, Timer.firings, hk]

/-! ### `AddTimer` -/

theorem round_eq {w : TimeWheel} (h : c.At w cur) :
    w.stepMs * w.lowCount * w.midCount * w.highCount = c.round := by
  rw [h.step, h.low, h.mid, h.high, c.step_mul]
  unfold Config.round
  omega

theorem home_lt {w : TimeWheel} (h : c.At w cur) {e : EventInfo} (he : c.Waiting cur e)
    (hlt : cur < c.due e) : c.home cur e < w.nCount.toNat := by
  have hbounds := c.slot_bounds cur (he.target hlt h.lt).1
  rw [← h.nCount] at hbounds
  unfold Config.home
  omega

theorem home_of_due_lt {e : EventInfo} (h : c.due e < c.round) :
    c.home cur e = (c.slot cur (c.due e)).toNat := by
  unfold Config.home Config.wrap
  rw [if_pos h]

theorem Inv.addRefused (h : Inv c s cur) {interval timerId : Int} (hint : interval ≤ 2147483647)
    (hno : ¬ (c.stepMs ≤ interval ∧ c.stepMs ∣ interval ∧ interval < c.round)) :
    s.call (.addTimer interval timerId) = .ok s := by
  have hadd : s.wheel.addTimer interval s.timers.length timerId = .ok (none, s.wheel) := by
    unfold TimeWheel.addTimer
    rw [h.place.step]
    by_cases hstep : interval < c.stepMs ∨ interval.tmod c.stepMs ≠ 0
    · rw [if_pos hstep]
      rfl
    · have hmin := c.minutes
      have hround : c.round = 60000 * c.maxMin := rfl
      obtain ⟨hle, hmod⟩ := not_or.mp hstep
      have hdvd : c.stepMs ∣ interval := Int.dvd_of_tmod_eq_zero (not_not.mp hmod)
      have hlong : c.round ≤ interval :=
        Int.not_lt.mp fun hlt => hno ⟨Int.not_lt.mp hle, hdvd, hlt⟩
      rw [if_neg hstep, ← h.place.step, round_eq h.place, arith_ok ⟨by omega, by omega⟩, ok_bind,
        if_pos hlong]
      rfl
  simp only [call, hadd, ok_bind]
  rfl

theorem waiting_new {w : TimeWheel} (h : c.At w cur) {e : EventInfo} (hpos : e.timePos = w.timePos)
    (hyes : c.stepMs ≤ e.interval ∧ c.stepMs ∣ e.interval ∧ e.interval < c.round)
    (hroom : e.interval + (c.maxMin + 1) * 60 * 1000 ≤ 2147483647) :
    c.startOf e = cur ∧ c.due e = cur + e.interval ∧ c.Waiting cur e := by
  obtain ⟨hle, hdvd, hlt⟩ := hyes
  have hspos := c.pos
  have hpos' : e.timePos = posOf c.stepMs cur := hpos.trans h.pos
  have hstart : c.startOf e = cur := startOf_posOf h.dvd hpos'
  have hdue : c.due e = cur + e.interval := by rw [Config.due, hstart]
  refine ⟨hstart, hdue, by rw [hstart]; exact hpos', ?_, ?_, ?_, ?_, hlt, hdvd, hroom, ?_⟩
  · exact hstart ▸ h.nonneg
  · exact Int.le_of_eq hstart
  · exact hstart ▸ h.dvd
  · omega
  · omega

theorem addTimer_ok {w : TimeWheel} (h : c.At w cur) {e : EventInfo} (hpos : e.timePos = w.timePos)
    (hyes : c.stepMs ≤ e.interval ∧ c.stepMs ∣ e.interval ∧ e.interval < c.round)
    (hroom : e.interval + (c.maxMin + 1) * 60 * 1000 ≤ 2147483647) :
    w.addTimer e.interval e.callBack e.timerId = .ok (some e.timerId,
      { w with pCallbackList := pushSlot w.pCallbackList (c.home cur e) e }) := by
  obtain ⟨-, hdue, hwait⟩ := waiting_new h hpos hyes hroom
  obtain ⟨hle, hdvd, hlt⟩ := hyes
  have hspos := c.pos
  have hround : c.round = 60000 * c.maxMin := rfl
  have hmin := c.minutes
  have hinsert := h.insertTimer hwait (by omega) hdue.symm
  have hstep : ¬ (e.interval < w.stepMs ∨ e.interval.tmod w.stepMs ≠ 0) := by
    rw [h.step]
    intro hbad
    rcases hbad with hbad | hbad
    · omega
    · exact hbad (Int.tmod_eq_zero_of_dvd hdvd)
  have hself : (⟨e.interval, e.callBack, w.timePos, e.timerId⟩ : EventInfo) = e := by rw [← hpos]
  unfold TimeWheel.addTimer
  rw [if_neg hstep, round_eq h, arith_ok ⟨by omega, by omega⟩, ok_bind, if_neg (by omega), hself,
    hinsert]
  rfl

theorem Inv.addTimer (h : Inv c s cur) {interval : Int} (timerId : Int)
    (hyes : c.stepMs ≤ interval ∧ c.stepMs ∣ interval ∧ interval < c.round)
    (hroom : interval + (c.maxMin + 1) * 60 * 1000 ≤ 2147483647) :
    ∃ t, s.call (.addTimer interval timerId) = .ok t ∧ Inv c t cur := by
  generalize he : (⟨interval, s.timers.length, s.wheel.timePos, timerId⟩ : EventInfo) = e
  have hkey : e.callBack = s.timers.length := by rw [← he]
  have hiv : e.interval = interval := by rw [← he]
  have hid : e.timerId = timerId := by rw [← he]
  have hpos : e.timePos = s.wheel.timePos := by rw [← he]
  rw [← hiv] at hyes hroom
  obtain ⟨hstart, hdue, hwait⟩ := waiting_new h.place hpos hyes hroom
  have hadd := addTimer_ok h.place hpos hyes hroom
  have hlater : cur < c.due e := by
    have hspos := c.pos
    omega
  have hhome := home_lt h.place hwait hlater
  rw [hiv, hkey, hid] at hadd
  have hnew : ∀ i < s.wheel.nCount.toNat, ∀ f ∈ s.wheel.pCallbackList i,
      f.callBack ≠ e.callBack := by
    intro i hi f hf hfe
    obtain ⟨t, ht, htf, _⟩ := h.tracked i hi f hf
    have hfresh := h.fresh t ht
    omega
  have hslotted := h.slotted.push (c.home cur e) hnew
  refine ⟨{ s with
      wheel := { s.wheel with
        pCallbackList := pushSlot s.wheel.pCallbackList (c.home cur e) e }
      timers := ⟨s.timers.length, interval, s.steps, none⟩ :: s.timers },
    by simp only [call, hadd, ok_bind]; rfl, h.place.relist _, ?_, ?_, hslotted.nodup,
    hslotted.apart, ?_, ?_, ?_, ?_, ?_⟩
  · intro i hi f hf
    rcases mem_pushSlot.mp hf with hf | ⟨rfl, rfl⟩
    · exact h.waiting i hi f hf
    · exact ⟨hwait, hlater, fun _ => rfl⟩
  · intro i hi f hf
    rcases mem_pushSlot.mp hf with hf | ⟨rfl, rfl⟩
    · obtain ⟨t, ht, htracks⟩ := h.tracked i hi f hf
      exact ⟨t, List.mem_cons_of_mem _ ht, htracks⟩
    · refine ⟨_, List.mem_cons_self, hkey.symm, rfl, hiv.symm, 0, 0, by simp, by simp [hstart], ?_⟩
      refine List.filter_eq_nil_iff.mpr fun f hf hfe => ?_
      obtain ⟨t, ht, htf⟩ := h.known f hf
      have hfresh := h.fresh t ht
      have hsame : f.1 = s.timers.length := of_decide_eq_true hfe
      omega
  · intro t ht hlive
    rcases List.mem_cons.mp ht with rfl | ht
    · exact ⟨c.home cur e, hhome, e, mem_pushSlot.mpr (.inr ⟨rfl, rfl⟩), hkey⟩
    · obtain ⟨i, hi, f, hf, hft⟩ := h.present t ht hlive
      exact ⟨i, hi, f, mem_pushSlot.mpr (.inl hf), hft⟩
  · refine List.nodup_cons.mpr ⟨?_, h.keys⟩
    intro hmem
    obtain ⟨t, ht, htk⟩ := List.mem_map.mp hmem
    have hfresh := h.fresh t ht
    simp only at htk
    omega
  · intro t ht
    rcases List.mem_cons.mp ht with rfl | ht
    · exact Nat.lt_succ_self _
    · exact Nat.lt_succ_of_lt (h.fresh t ht)
  · intro t ht d hd
    rcases List.mem_cons.mp ht with rfl | ht
    · cases hd
    · exact h.past t ht d hd
  · intro f hf
    obtain ⟨t, ht, htf⟩ := h.known f hf
    exact ⟨t, List.mem_cons_of_mem _ ht, htf⟩

/-! ### `DeleteTimer` -/

theorem deleteLoop_spec (w : TimeWheel) (timeId : Int) (n i : Nat) :
    w.deleteLoop timeId n i = (none, w) ∨
      ∃ item j before after, j < i + n ∧ w.pCallbackList j = before ++ item :: after ∧
        w.deleteLoop timeId n i = (some item, { w with
          pCallbackList := Function.update w.pCallbackList j (before ++ after) }) := by
  induction n generalizing i with
  | zero => exact .inl rfl
  | succ n ih =>
    unfold TimeWheel.deleteLoop
    cases hfind : (w.pCallbackList i).find? fun item => item.timerId = timeId with
    | none =>
      rcases ih (i + 1) with hnone | ⟨item, j, before, after, hj, hrest⟩
      · exact .inl hnone
      · exact .inr ⟨item, j, before, after, by omega, hrest⟩
    | some item =>
      obtain ⟨hitem, before, after, hsplit, hbefore⟩ := List.find?_eq_some_iff_append.mp hfind
      have herase : (w.pCallbackList i).eraseP (fun item => item.timerId = timeId) =
          before ++ after := by
        have hfirst : (item :: after).eraseP (fun item => item.timerId = timeId) = after :=
          List.eraseP_cons_of_pos hitem
        rw [hsplit, List.eraseP_append_right _ fun b hb => by simpa using hbefore b hb, hfirst]
      exact .inr ⟨item, i, before, after, by omega, hsplit, by simp only [herase]⟩

theorem markDeleted_key (now key : Nat) (t : Timer) : (markDeleted now key t).key = t.key := by
  unfold markDeleted
  split <;> rfl

theorem Inv.deleteTimer (h : Inv c s cur) (timeId : Int) :
    ∃ t, s.call (.deleteTimer timeId) = .ok t ∧ Inv c t cur := by
  rcases deleteLoop_spec s.wheel timeId s.wheel.nCount.toNat 0 with
    hnone | ⟨item, j, before, after, hj, hsplit, hsome⟩
  · exact ⟨s, by simp only [call, TimeWheel.deleteTimer, hnone], h⟩
  rw [Nat.zero_add] at hj
  have hitem : item ∈ s.wheel.pCallbackList j := by
    rw [hsplit]
    exact List.mem_append_right _ List.mem_cons_self
  obtain ⟨hwait, hlater, _⟩ := h.waiting j hj item hitem
  obtain ⟨t0, ht0, htracks0⟩ := h.tracked j hj item hitem
  have hslotted := h.slotted.remove hj hsplit
  -- the timers that stay are those with other callbacks
  have hmem := fun {i : Nat} (hi : i < s.wheel.nCount.toNat) {f : EventInfo} =>
    h.slotted.mem_remove (b := f) hi hj hsplit
  have hmark : ∀ t : Timer, t.key ≠ item.callBack → markDeleted s.steps item.callBack t = t :=
    fun t ht => if_neg ht
  refine ⟨{ s with
      wheel := { s.wheel with
        pCallbackList := Function.update s.wheel.pCallbackList j (before ++ after) }
      timers := s.timers.map (markDeleted s.steps item.callBack) },
    by simp only [call, TimeWheel.deleteTimer, hsome], h.place.relist _, ?_, ?_, hslotted.nodup,
    hslotted.apart, ?_, ?_, ?_, ?_, ?_⟩
  · intro i hi f hf
    exact h.waiting i hi f ((hmem hi).mp hf).1
  · intro i hi f hf
    obtain ⟨hfi, hne⟩ := (hmem hi).mp hf
    obtain ⟨t, ht, htracks⟩ := h.tracked i hi f hfi
    have hsame := hmark t (htracks.1 ▸ hne)
    exact ⟨t, List.mem_map.mpr ⟨t, ht, hsame⟩, htracks⟩
  · intro t ht hlive
    obtain ⟨u, hu, rfl⟩ := List.mem_map.mp ht
    by_cases hkey : u.key = item.callBack
    · unfold markDeleted at hlive
      rw [if_pos hkey] at hlive
      cases hlive
    · rw [hmark u hkey] at hlive ⊢
      obtain ⟨i, hi, f, hf, hfu⟩ := h.present u hu hlive
      exact ⟨i, hi, f, (hmem hi).mpr ⟨hf, hfu ▸ hkey⟩, hfu⟩
  · have hkeys : (s.timers.map (markDeleted s.steps item.callBack)).map Timer.key =
        s.timers.map Timer.key := by
      rw [List.map_map]
      exact List.map_congr_left fun t _ => markDeleted_key _ _ t
    rw [hkeys]
    exact h.keys
  · intro t ht
    obtain ⟨u, hu, rfl⟩ := List.mem_map.mp ht
    rw [markDeleted_key, List.length_map]
    exact h.fresh u hu
  · intro t ht d hd
    obtain ⟨u, hu, rfl⟩ := List.mem_map.mp ht
    by_cases hkey : u.key = item.callBack
    · cases h.timer_unique hu ht0 (hkey.trans htracks0.1.symm)
      unfold markDeleted at hd ⊢
      rw [if_pos hkey] at hd ⊢
      cases hd
      exact htracks0.firings hwait hlater
    · rw [hmark u hkey] at hd ⊢
      exact h.past u hu d hd
  · intro f hf
    obtain ⟨t, ht, htf⟩ := h.known f hf
    exact ⟨_, List.mem_map_of_mem ht, (markDeleted_key _ _ t).trans htf⟩

/-! ### `DoLoop` -/

theorem filter_called {items : List EventInfo} {p : EventInfo → Bool} {m : Nat}
    (hnodup : (items.map EventInfo.callBack).Nodup) {e : EventInfo} (he : e ∈ items) :
    (((items.filter p).map EventInfo.callBack).map fun key => (key, m)).filter
        (fun f => f.1 = e.callBack) = if p e then [(e.callBack, m)] else [] := by
  induction items with
  | nil => cases he
  | cons f rest ih =>
    rw [List.map_cons, List.nodup_cons] at hnodup
    have hcons : (((f :: rest).filter p).map EventInfo.callBack).map (fun key => (key, m)) =
        (if p f then [(f.callBack, m)] else []) ++
          ((rest.filter p).map EventInfo.callBack).map fun key => (key, m) := by
      rw [List.filter_cons]
      split <;> rfl
    rw [hcons, List.filter_append]
    rcases List.mem_cons.mp he with rfl | he
    · have hnone : (((rest.filter p).map EventInfo.callBack).map fun key => (key, m)).filter
          (fun f => f.1 = e.callBack) = [] := by
        refine List.filter_eq_nil_iff.mpr fun x hx hxe => hnodup.1 ?_
        obtain ⟨key, hkey, rfl⟩ := List.mem_map.mp hx
        obtain ⟨g, hg, rfl⟩ := List.mem_map.mp hkey
        rw [← of_decide_eq_true hxe]
        exact List.mem_map_of_mem (List.mem_filter.mp hg).1
      rw [hnone, List.append_nil]
      split
      · exact List.filter_cons_of_pos (decide_eq_true rfl)
      · rfl
    · have hne : f.callBack ≠ e.callBack := fun hfe => hnodup.1 (hfe ▸ List.mem_map_of_mem he)
      rw [ih hnodup.2 he]
      have hskip : (if p f then [(f.callBack, m)] else []).filter (fun f => f.1 = e.callBack) =
          [] := by
        split
        · exact List.filter_cons_of_neg (by simpa using hne)
        · rfl
      rw [hskip, List.nil_append]

theorem filter_not_called {items : List EventInfo} {p : EventInfo → Bool} {m key : Nat}
    (hkey : ∀ e ∈ items, e.callBack ≠ key) :
    (((items.filter p).map EventInfo.callBack).map fun key => (key, m)).filter
      (fun f => f.1 = key) = [] := by
  refine List.filter_eq_nil_iff.mpr fun x hx hxe => ?_
  obtain ⟨k, hk, rfl⟩ := List.mem_map.mp hx
  obtain ⟨e, he, rfl⟩ := List.mem_map.mp hk
  exact hkey e (List.mem_filter.mp he).1 (of_decide_eq_true hxe)

/-- A timer whose list comes up is tracked on: it has fired once more, or waits on. -/
theorem Tracks.visited {e : EventInfo} {t : Timer} {g : Int} {fired : List (Nat × Nat)}
    {w : TimeWheel} (h : Tracks c s cur e t) (he : c.Waiting cur e) (hdvd : c.stepMs ∣ g)
    (hstep : cur + c.stepMs = g)
    (hfired : fired.filter (fun f => f.1 = t.key) = s.fired.filter (fun f => f.1 = t.key) ++
      if c.due e = g then [(t.key, s.steps + 1)] else []) :
    Tracks c { s with wheel := w, steps := s.steps + 1, fired := fired } g (c.next g e) t := by
  obtain ⟨hkey, hlive, hti, k, r, hsteps, hcur, hlog⟩ := h
  refine ⟨hkey.trans (Config.next_callBack g e).symm, hlive,
    hti.trans (Config.next_interval g e).symm, ?_⟩
  have hdue : c.due e = c.startOf e + e.interval := rfl
  by_cases hnow : c.due e = g
  · have hmul := period_mul he hti
    have hlength : ((r + 1 : Nat) : Int) * c.stepMs = t.period c.stepMs * c.stepMs := by
      push_cast
      rw [Int.add_mul, Int.one_mul]
      omega
    have hperiod : r + 1 = t.period c.stepMs := by
      exact_mod_cast Int.eq_of_mul_eq_mul_right (by have := c.pos; omega) hlength
    have hnext : c.next g e = { e with timePos := posOf c.stepMs g } := if_pos hnow
    refine ⟨k + 1, 0, ?_, ?_, ?_⟩
    · show s.steps + 1 = t.since + (k + 1) * t.period c.stepMs + 0
      rw [Nat.add_mul, Nat.one_mul]
      omega
    · rw [hnext, startOf_posOf hdvd rfl]
      simp
    · show fired.filter _ = _
      rw [hfired, hlog, if_pos hnow]
      unfold Timer.times
      rw [List.range_succ, List.map_append, List.map_cons, List.map_nil]
      have hwhen : t.since + (k + 1) * t.period c.stepMs = s.steps + 1 := by
        rw [Nat.add_mul, Nat.one_mul]
        omega
      rw [hwhen]
  · have hnext : c.next g e = e := if_neg hnow
    refine ⟨k, r + 1, ?_, ?_, ?_⟩
    · show s.steps + 1 = t.since + k * t.period c.stepMs + (r + 1)
      omega
    · rw [hnext]
      push_cast
      rw [Int.add_mul, Int.one_mul]
      omega
    · show fired.filter _ = _
      rw [hfired, hlog, if_neg hnow, List.append_nil]

theorem Tracks.passed {e : EventInfo} {t : Timer} {g : Int} {fired : List (Nat × Nat)}
    {w : TimeWheel} (h : Tracks c s cur e t) (hstep : cur + c.stepMs = g)
    (hfired : fired.filter (fun f => f.1 = t.key) = s.fired.filter (fun f => f.1 = t.key)) :
    Tracks c { s with wheel := w, steps := s.steps + 1, fired := fired } g e t := by
  obtain ⟨hkey, hlive, hti, k, r, hsteps, hcur, hlog⟩ := h
  refine ⟨hkey, hlive, hti, k, r + 1, ?_, ?_, ?_⟩
  · show s.steps + 1 = t.since + k * t.period c.stepMs + (r + 1)
    omega
  · push_cast
    rw [Int.add_mul, Int.one_mul]
    omega
  · exact hfired.trans hlog

theorem Inv.waiting_forward (h : Inv c s cur) {g : Int} (hcur : cur + c.stepMs = g) {i : Nat}
    (hi : i < s.wheel.nCount.toNat) {e : EventInfo} (he : e ∈ s.wheel.pCallbackList i) :
    c.Waiting g e := by
  obtain ⟨hwait, hlt, _⟩ := h.waiting i hi e he
  have hpos := c.pos
  have hle := hwait.start_le
  have hdue := step_le_of_lt h.place.dvd (Int.dvd_add hwait.start_dvd hwait.interval_dvd) hlt
  exact ⟨hwait.pos, hwait.start_nonneg, by omega, hwait.start_dvd, hwait.interval_pos,
    hwait.interval_lt, hwait.interval_dvd, hwait.room, hcur ▸ hdue⟩

theorem Inv.waiting_passed (h : Inv c s cur) {g : Int} (hg : 0 ≤ g ∧ g < c.round)
    (hcur : cur + c.stepMs = g) {i : Nat} (hi : i < s.wheel.nCount.toNat)
    (hij : i ≠ (c.slot cur g).toNat) {e : EventInfo} (he : e ∈ s.wheel.pCallbackList i) :
    c.Waiting g e ∧ g < c.due e ∧ (c.due e < c.round → c.home g e = i) := by
  obtain ⟨_, _, hhomed⟩ := h.waiting i hi e he
  have hwait := h.waiting_forward hcur hi he
  have hpos := c.pos
  -- a timer that is due now would have been in the list that comes up
  have hlater : g < c.due e := by
    refine lt_of_le_of_ne hwait.cur_le fun he => hij ?_
    rw [← hhomed (he ▸ hg.2), home_of_due_lt (he ▸ hg.2), ← he]
  refine ⟨hwait, hlater, fun hdue => ?_⟩
  have hin := hhomed hdue
  rw [home_of_due_lt hdue] at hin ⊢
  have hdiff : c.slot cur (c.due e) ≠ c.slot cur g := fun he => hij (hin.symm.trans (he ▸ rfl))
  have hforward : cur < g := by omega
  rw [Config.slot_stays hforward (Int.le_of_lt hlater) hdiff, hin]

theorem home_next {w : TimeWheel} {g : Int} (h : c.At w g) {e : EventInfo} (he : c.Waiting g e)
    (cur : Int) : c.home g (c.next g e) ≠ (c.slot cur g).toNat ∧
      c.home g (c.next g e) < w.nCount.toNat := by
  obtain ⟨hwait, hlt⟩ := he.next h.dvd
  obtain ⟨hbounds, htdvd, hne, _⟩ := hwait.target hlt h.lt
  have hslots := c.slot_bounds g hbounds
  have hown := c.slot_bounds cur ⟨h.nonneg, h.lt⟩
  have hdiff := Config.slot_ne cur h.dvd htdvd ⟨h.nonneg, hbounds.1⟩ hne
  refine ⟨?_, home_lt h hwait hlt⟩
  unfold Config.home
  omega

/-- A step of the loop to the time `g`. If the minutes start over, no timer is in the wheel. -/
theorem Inv.doLoop (h : Inv c s cur) {g : Int} (hg : 0 ≤ g ∧ g < c.round)
    (hstep : cur + c.stepMs = g ∨ cur + c.stepMs = g + c.round ∧
      ∀ i < s.wheel.nCount.toNat, s.wheel.pCallbackList i = [])
    (hint : cur + c.stepMs ≤ 2147483647) :
    ∃ t, s.call .doLoop = .ok t ∧ Inv c t g := by
  have hnext : ∀ i < s.wheel.nCount.toNat, ∀ e ∈ s.wheel.pCallbackList i, cur + c.stepMs = g := by
    intro i hi e he
    refine hstep.resolve_right fun hwrap => ?_
    rw [hwrap.2 i hi] at he
    cases he
  have hwaits : ∀ i < s.wheel.nCount.toNat, ∀ e ∈ s.wheel.pCallbackList i, c.Waiting g e :=
    fun i hi e he => h.waiting_forward (hnext i hi e he) hi he
  have hindex := c.slot_bounds cur hg
  rw [← h.place.nCount] at hindex
  have hjlt : (c.slot cur g).toNat < s.wheel.nCount.toNat := by omega
  obtain ⟨hloop, hplace⟩ := h.place.doLoop hg (hstep.imp_right And.left) hint (hwaits _ hjlt)
  have hpass := fun {i : Nat} (hi : i < s.wheel.nCount.toNat) (hij : i ≠ (c.slot cur g).toNat)
    {e : EventInfo} (he : e ∈ s.wheel.pCallbackList i) =>
    h.waiting_passed hg (hnext i hi e he) hi hij he
  have hgoes := fun {e : EventInfo} (he : e ∈ s.wheel.pCallbackList (c.slot cur g).toNat) =>
    home_next hplace (hwaits _ hjlt e he) cur
  generalize (c.slot cur g).toNat = j at hjlt hloop hpass hgoes
  have hdvd := hplace.dvd
  have hslotted := h.slotted.deal hjlt (c.home g) (Config.next_callBack (c := c) g)
  generalize hcalled : ((s.wheel.pCallbackList j).filter fun e => c.due e = g).map
    EventInfo.callBack = called at hloop
  have hfilter : ∀ key, (s.fired ++ called.map fun key => (key, s.steps + 1)).filter
      (fun f => f.1 = key) = s.fired.filter (fun f => f.1 = key) ++
        (called.map fun key => (key, s.steps + 1)).filter fun f => f.1 = key :=
    fun key => List.filter_append _ _
  have hsilent : ∀ key, (∀ e ∈ s.wheel.pCallbackList j, e.callBack ≠ key) →
      (s.fired ++ called.map fun key => (key, s.steps + 1)).filter (fun f => f.1 = key) =
        s.fired.filter fun f => f.1 = key := by
    intro key hkey
    rw [hfilter, ← hcalled, filter_not_called hkey, List.append_nil]
  refine ⟨{ s with
      wheel := { s.wheel with
        timePos := posOf c.stepMs g
        pCallbackList := dealSlot s.wheel.pCallbackList j (c.next g) (c.home g) }
      steps := s.steps + 1
      fired := s.fired ++ called.map fun key => (key, s.steps + 1) },
    by simp only [call, hloop, ok_bind]; rfl, hplace.relist _, ?_, ?_, hslotted.nodup,
    hslotted.apart, ?_, h.keys, h.fresh, ?_, ?_⟩
  · intro i hi f hf
    obtain ⟨hij, hf | ⟨e, he, rfl, hfi⟩⟩ := mem_dealSlot.mp hf
    · exact hpass hi hij hf
    · obtain ⟨hwait, hlater⟩ := (hwaits j hjlt e he).next hdvd
      exact ⟨hwait, hlater, fun _ => hfi⟩
  · intro i hi f hf
    obtain ⟨hij, hf | ⟨e, he, rfl, hfi⟩⟩ := mem_dealSlot.mp hf
    · obtain ⟨t, ht, htracks⟩ := h.tracked i hi f hf
      refine ⟨t, ht, htracks.passed (hnext i hi f hf) (hsilent t.key fun e he hek => hij ?_)⟩
      exact h.apart i hi j hjlt f hf e he (htracks.1.symm.trans hek.symm)
    · obtain ⟨t, ht, htracks⟩ := h.tracked j hjlt e he
      refine ⟨t, ht, htracks.visited (h.waiting j hjlt e he).1 hdvd (hnext j hjlt e he) ?_⟩
      rw [hfilter, ← hcalled, htracks.1, filter_called (h.nodup j hjlt) he]
      simp only [decide_eq_true_eq]
  · intro t ht hlive
    obtain ⟨i, hi, e, he, het⟩ := h.present t ht hlive
    by_cases hij : i = j
    · subst hij
      obtain ⟨hne, hlt⟩ := hgoes he
      exact ⟨_, hlt, c.next g e, mem_dealSlot.mpr ⟨hne, .inr ⟨e, he, rfl, rfl⟩⟩,
        (Config.next_callBack g e).trans het⟩
    · exact ⟨i, hi, e, mem_dealSlot.mpr ⟨hij, .inl he⟩, het⟩
  · intro t ht d hd
    refine (hsilent t.key fun e he hek => ?_).trans (h.past t ht d hd)
    obtain ⟨u, hu, huk, hlive, _⟩ := h.tracked j hjlt e he
    cases h.timer_unique hu ht (huk.trans hek)
    cases hd.symm.trans hlive
  · intro f hf
    rcases List.mem_append.mp hf with hf | hf
    · exact h.known f hf
    · obtain ⟨key, hkey, rfl⟩ := List.mem_map.mp hf
      rw [← hcalled] at hkey
      obtain ⟨e, he, rfl⟩ := List.mem_map.mp hkey
      obtain ⟨t, ht, htk, _⟩ := h.tracked j hjlt e (List.mem_filter.mp he).1
      exact ⟨t, ht, htk⟩

/-! ### Runs -/

theorem Inv.right (h : Inv c s cur) : s.Right where
  keys := h.keys
  punctual := by
    intro t ht
    rw [h.place.step]
    cases hd : t.deleted with
    | some d => exact h.past t ht d hd
    | none =>
      obtain ⟨i, hi, e, he, het⟩ := h.present t ht hd
      obtain ⟨u, hu, htracks⟩ := h.tracked i hi e he
      cases h.timer_unique hu ht (htracks.1.trans het)
      obtain ⟨hwait, hlt, _⟩ := h.waiting i hi e he
      exact htracks.firings hwait hlt
  known := h.known

/-- Every interval that is accepted leaves room in an `int` for a round; and when the minutes
start over, no timer is in the wheel. -/
def Guard (s : WheelRun) : WheelCall → Prop
  | .addTimer interval _ => s.wheel.stepMs ≤ interval → s.wheel.stepMs ∣ interval →
      interval < 60000 * s.wheel.highCount →
      interval + (s.wheel.highCount + 1) * 60 * 1000 ≤ 2147483647
  | .deleteTimer _ => True
  | .doLoop => s.wheel.getMS s.wheel.timePos + s.wheel.stepMs ≤ 2147483647 ∧
      (s.wheel.getMS s.wheel.timePos + s.wheel.stepMs = 60000 * s.wheel.highCount →
        ∀ i < s.wheel.nCount.toNat, s.wheel.pCallbackList i = [])

instance (s : WheelRun) (a : WheelCall) : Decidable (Guard s a) :=
  match a with
  | .addTimer interval _ => inferInstanceAs (Decidable (s.wheel.stepMs ≤ interval →
      s.wheel.stepMs ∣ interval → interval < 60000 * s.wheel.highCount →
      interval + (s.wheel.highCount + 1) * 60 * 1000 ≤ 2147483647))
  | .deleteTimer _ => inferInstanceAs (Decidable True)
  | .doLoop => inferInstanceAs (Decidable
      (s.wheel.getMS s.wheel.timePos + s.wheel.stepMs ≤ 2147483647 ∧
        (s.wheel.getMS s.wheel.timePos + s.wheel.stepMs = 60000 * s.wheel.highCount →
          ∀ i < s.wheel.nCount.toNat, s.wheel.pCallbackList i = [])))

theorem step_good {a : WheelCall} {x : Except WheelFault WheelRun} (hs : ∃ cur, Inv c s cur)
    (hg : Guard s a) (h : (machine c).step s a = some x) :
    ∃ t, x = .ok t ∧ ∃ cur, Inv c t cur := by
  obtain ⟨cur, hinv⟩ := hs
  unfold machine at h
  simp only at h
  split at h
  next hasked =>
    obtain rfl := Option.some.inj h
    cases a with
    | addTimer interval timerId =>
      have hround : c.round = 60000 * c.maxMin := rfl
      by_cases hyes : c.stepMs ≤ interval ∧ c.stepMs ∣ interval ∧ interval < c.round
      · unfold Guard at hg
        rw [hinv.place.step, hinv.place.high] at hg
        obtain ⟨t, ht, hti⟩ := hinv.addTimer timerId hyes
          (hg hyes.1 hyes.2.1 hyes.2.2)
        exact ⟨t, ht, cur, hti⟩
      · exact ⟨s, hinv.addRefused hasked.2 hyes, cur, hinv⟩
    | deleteTimer timeId =>
      obtain ⟨t, ht, hti⟩ := hinv.deleteTimer timeId
      exact ⟨t, ht, cur, hti⟩
    | doLoop =>
      obtain ⟨hint, hwrap⟩ := hg
      rw [hinv.place.getMS, hinv.place.step] at hint hwrap
      rw [hinv.place.high] at hwrap
      have hround : c.round = 60000 * c.maxMin := rfl
      have hlt := hinv.place.lt
      have hpos := c.pos
      have hnonneg := hinv.place.nonneg
      have hrounds : c.stepMs ∣ c.round :=
        Int.dvd_trans c.dvd ⟨60 * c.maxMin, by omega⟩
      have hle := step_le_of_lt hinv.place.dvd hrounds hlt
      by_cases hend : cur + c.stepMs = c.round
      · obtain ⟨t, ht, hti⟩ := hinv.doLoop (g := 0) ⟨by omega, by omega⟩
          (.inr ⟨by omega, hwrap (by omega)⟩) hint
        exact ⟨t, ht, 0, hti⟩
      · obtain ⟨t, ht, hti⟩ := hinv.doLoop (g := cur + c.stepMs) ⟨by omega, by omega⟩ (.inl rfl)
          hint
        exact ⟨t, ht, _, hti⟩
  · cases h

def smallConfig : Config := ⟨500, 2, by decide, by decide, by decide, by decide⟩

/- A timer of a second and a half that fires twice and is deleted, and one of a minute. -/
def twoTimers : List WheelCall :=
  [.addTimer 1500 7, .addTimer 60000 8] ++ List.replicate 7 .doLoop ++ [.deleteTimer 7] ++
    List.replicate 3 .doLoop

/- A timer of a minute that is added when the first minute is over. -/
def straddlingCalls : List WheelCall :=
  List.replicate 120 .doLoop ++ [.addTimer 60000 7] ++ List.replicate 120 .doLoop

end WheelRun

end TstMuduo.LevelWheel
