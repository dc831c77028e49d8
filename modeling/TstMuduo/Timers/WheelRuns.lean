import Mathlib.Data.List.Perm.Subperm
import TstMuduo.Timers.TimeWheel

/-!
# When the timers of the wheel fire (examples/tst-tw-timer/timewheel.cpp)

`add_timer` does not take the slot of a new timer modulo the number of slots. As long as no
timeout reaches the end of the wheel, each timer waits in a slot that is still to come in
this round, and the lists stay what they should be.
-/

namespace TstMuduo.Timers
open TstMuduo.Lib

namespace TimeWheel

/-! ### The steps of the wheel on chains -/

theorem read_of_chain {h : LinkHeap TwTimer} {prev head : Option Nat} {l : List (Nat × TwTimer)}
    (hl : h.Chain prev head l) {x : Nat × TwTimer} (hx : x ∈ l) :
    ∃ c, read h (some x.1) = .ok c ∧ h x.1 = some c ∧ c.value = x.2 := by
  obtain ⟨p, n, hc⟩ := hl.cell hx
  exact ⟨_, by simp only [read, hc], hc, rfl⟩

/-- A timer in a chain is taken out as `unlink` says, wherever it is. -/
theorem removeTimer_spec {w : TimeWheel} {slot : Nat} {before after : List (Nat × TwTimer)}
    {x : Nat × TwTimer} {c : LinkCell TwTimer}
    (hl : w.timers.Chain none (w.slots slot) (before ++ x :: after))
    (hnodup : ((before ++ x :: after).map Prod.fst).Nodup) (hc : w.timers x.1 = some c) :
    w.removeTimer slot x.1 c = .ok { w with
      slots := Function.update w.slots slot (if before = [] then c.next else w.slots slot)
      timers := w.timers.unlink x.1 c } := by
  obtain ⟨c', hc', _, hprev, hnext, hafter, hfirst⟩ := LinkHeap.Chain.split hl
  cases hc.symm.trans hc'
  cases before with
  | nil =>
    have hhead := hfirst rfl
    rw [if_pos rfl] at hprev
    unfold removeTimer
    rw [if_pos hhead, if_pos rfl]
    cases after with
    | nil =>
      have hn : c.next = none := hnext
      simp only [hn, setPrev, ok_bind, LinkHeap.unlink, hprev, LinkHeap.setNext, LinkHeap.setPrev]
      rfl
    | cons y after =>
      obtain ⟨d, hd, _⟩ := read_of_chain hafter List.mem_cons_self
      have hn : c.next = some y.1 := hnext
      simp only [hn, setPrev, hd, ok_bind, LinkHeap.unlink, hprev, LinkHeap.setNext]
      rfl
  | cons y before =>
    have hhead : w.slots slot = some y.1 := hl.1
    rw [List.map_append, List.nodup_append] at hnodup
    have hyx : w.slots slot ≠ some x.1 := by
      rw [hhead]
      intro he
      exact hnodup.2.2 y.1 (by simp) x.1 (by simp) (Option.some.inj he)
    obtain ⟨z, hz⟩ : ∃ z, (y :: before).getLast? = some z :=
      Option.isSome_iff_exists.mp (by simp)
    have hzmem : z ∈ y :: before := List.mem_of_getLast? hz
    rw [if_neg (by simp), hz, Option.map_some] at hprev
    obtain ⟨d, hd, _⟩ := read_of_chain hl (List.mem_append_left _ hzmem)
    unfold removeTimer
    rw [if_neg hyx, if_neg (by simp), Function.update_eq_self]
    cases after with
    | nil =>
      have hn : c.next = none := hnext
      simp only [hprev, hd, ok_bind, hn, setPrev, LinkHeap.unlink, LinkHeap.setPrev]
      rfl
    | cons v after =>
      have hn : c.next = some v.1 := hnext
      obtain ⟨e, _, he, _⟩ := read_of_chain hafter List.mem_cons_self
      have hzv : (some z.1 : Option Nat) ≠ some v.1 := by
        intro hzv
        exact hnodup.2.2 z.1 (List.mem_map_of_mem hzmem) v.1 (by simp) (Option.some.inj hzv)
      have hread : read (w.timers.setNext (some z.1) (some v.1)) (some v.1) = .ok e := by
        simp only [read, LinkHeap.setNext_of_ne hzv, he]
      simp only [hprev, hd, ok_bind, hn, setPrev, hread, LinkHeap.unlink]
      rfl

/-- The loop of `tick` on a slot whose timers have no rotation to wait: all of them fire, in
the order of the list, and no cell but theirs is touched. -/
theorem tickLoop_spec (w : TimeWheel) {l : List (Nat × TwTimer)} (fired : List Nat) {fuel : Nat}
    (hl : w.timers.Chain none (w.slots w.curSlot) l) (hnodup : (l.map Prod.fst).Nodup)
    (hrot : ∀ x ∈ l, x.2.rotation = 0) (hfuel : l.length ≤ fuel) :
    ∃ v, tickLoop fuel w (w.slots w.curSlot) fired = .ok (v, fired ++ l.map Prod.fst) ∧
      v.curSlot = w.curSlot ∧ v.next = w.next ∧
      v.slots = Function.update w.slots w.curSlot none ∧
      ∀ j, j ∉ l.map Prod.fst → v.timers j = w.timers j := by
  induction l generalizing w fired fuel with
  | nil =>
    have hnone : w.slots w.curSlot = none := hl
    refine ⟨w, ?_, rfl, rfl, ?_, fun _ _ => rfl⟩
    · rw [hnone, tickLoop, List.map_nil, List.append_nil]
    · rw [← hnone, Function.update_eq_self]
  | cons x rest ih =>
    obtain ⟨hhead, next, hx, hrest⟩ := hl
    cases fuel with
    | zero => simp at hfuel
    | succ fuel =>
      have hchain : w.timers.Chain none (w.slots w.curSlot) ([] ++ x :: rest) :=
        ⟨hhead, next, hx, hrest⟩
      have hremove := removeTimer_spec hchain hnodup hx
      have hunlink := hchain.unlink hx hnodup fun _ _ he => by cases he
      rw [if_pos rfl] at hremove hunlink
      have hnodup' := (List.nodup_cons.mp hnodup).2
      have hself : Function.update w.slots w.curSlot next w.curSlot = next :=
        Function.update_self _ _ _
      obtain ⟨v, hv, hcur, hnext, hslots, hframe⟩ := ih
        { w with
          slots := Function.update w.slots w.curSlot next
          timers := w.timers.unlink x.1 ⟨x.2, none, next⟩ }
        (fired ++ [x.1])
        (by simp only [hself]; exact hunlink) hnodup'
        (fun y hy => hrot y (List.mem_cons_of_mem _ hy)) (Nat.le_of_succ_le_succ hfuel)
      refine ⟨v, ?_, hcur, hnext, ?_, ?_⟩
      · have hzero : ¬ 0 < x.2.rotation := by
          rw [hrot x List.mem_cons_self]
          exact Nat.lt_irrefl 0
        have hread : read w.timers (some x.1) = .ok ⟨x.2, none, next⟩ := by
          simp only [read, hx]
        rw [hhead, tickLoop, hread, ok_bind, if_neg hzero, hremove, ok_bind, if_pos hhead]
        rw [List.append_assoc] at hv
        exact hv
      · rw [hslots, Function.update_idem]
      · intro j hj
        rw [List.map_cons, List.mem_cons, not_or] at hj
        rw [hframe j hj.2]
        refine hchain.unlink_of_notMem hx ?_
        rw [List.nil_append, List.map_cons, List.mem_cons, not_or]
        exact hj

theorem ticksOf_eq {timeout : Int} (h : 0 ≤ timeout) :
    ticksOf timeout = WheelRun.waitOf timeout := by
  unfold ticksOf WheelRun.waitOf TI
  split <;> omega

theorem addTimer_spec {w : TimeWheel} {timeout : Int} {l : List (Nat × TwTimer)}
    (h : 0 ≤ timeout) (hfit : w.curSlot + WheelRun.waitOf timeout < N)
    (hl : w.timers.Chain none (w.slots (w.curSlot + WheelRun.waitOf timeout)) l) :
    w.addTimer timeout = .ok (some w.next, { w with
      slots := Function.update w.slots (w.curSlot + WheelRun.waitOf timeout) (some w.next)
      timers := w.timers.push w.next ⟨0, w.curSlot + WheelRun.waitOf timeout⟩
        (w.slots (w.curSlot + WheelRun.waitOf timeout))
      next := w.next + 1 }) := by
  have hrot : WheelRun.waitOf timeout / N = 0 := Nat.div_eq_of_lt (by omega)
  unfold addTimer
  rw [if_neg (by omega), ticksOf_eq h]
  simp only [check_ok hfit, ok_bind, hrot]
  cases l with
  | nil =>
    have hnone : w.slots (w.curSlot + WheelRun.waitOf timeout) = none := hl
    simp only [hnone]
    rfl
  | cons x rest =>
    obtain ⟨c, hc, _⟩ := read_of_chain hl List.mem_cons_self
    simp only [hl.1, hc, ok_bind]
    rfl

end TimeWheel

namespace WheelRun

/-! ### The invariant of the runs that stay inside the wheel -/

/-- Every pending timer waits, with no rotation left, in the slot that comes up after the
ticks that it still waits. -/
structure Inv (s : WheelRun) (l : Nat → List (Nat × TwTimer)) : Prop where
  cur : s.wheel.curSlot < N
  chain : ∀ i < N, s.wheel.timers.Chain none (s.wheel.slots i) (l i)
  nodup : ∀ i < N, ((l i).map Prod.fst).Nodup
  waiting : ∀ i < N, ∀ x ∈ l i, x.2 = ⟨0, i⟩ ∧ s.Pending x.1 ∧ ∃ a ∈ s.added, a.id = x.1 ∧
    s.wheel.curSlot ≤ i ∧ a.since + a.wait = s.ticks + (i - s.wheel.curSlot)
  placed : ∀ p, s.Pending p → ∃ i < N, p ∈ (l i).map Prod.fst
  ids : (s.added.map Added.id).Nodup
  fresh : ∀ a ∈ s.added, a.id < s.wheel.next
  once : (s.fired.map Prod.fst).Nodup
  onTime : ∀ f ∈ s.fired, ∃ a ∈ s.added, a.id = f.1 ∧ f.2 = a.since + a.wait + 1 ∧ f.2 ≤ s.ticks
  gone : ∀ p ∈ s.deleted, p ∈ s.added.map Added.id ∧ p ∉ s.fired.map Prod.fst

theorem new_inv : new.Inv fun _ => [] where
  cur := by decide
  chain := fun _ _ => rfl
  nodup := fun _ _ => List.nodup_nil
  waiting := fun _ _ _ hx => (List.not_mem_nil hx).elim
  placed := fun _ hp => (List.not_mem_nil hp.1).elim
  ids := List.nodup_nil
  fresh := fun _ ha => (List.not_mem_nil ha).elim
  once := List.nodup_nil
  onTime := fun _ hf => (List.not_mem_nil hf).elim
  gone := fun _ hp => (List.not_mem_nil hp).elim

variable {s : WheelRun} {l : Nat → List (Nat × TwTimer)}

theorem Inv.slot_unique (h : s.Inv l) {i j p : Nat} (hi : i < N) (hj : j < N)
    (hpi : p ∈ (l i).map Prod.fst) (hpj : p ∈ (l j).map Prod.fst) : i = j := by
  obtain ⟨x, hx, rfl⟩ := List.mem_map.mp hpi
  obtain ⟨y, hy, hyx⟩ := List.mem_map.mp hpj
  obtain ⟨p, n, hcx⟩ := (h.chain i hi).cell hx
  obtain ⟨q, m, hcy⟩ := (h.chain j hj).cell hy
  rw [hyx, hcx] at hcy
  have hvalue : x.2 = y.2 := congrArg LinkCell.value (Option.some.inj hcy)
  rw [(h.waiting i hi x hx).1, (h.waiting j hj y hy).1] at hvalue
  exact congrArg TwTimer.timeSolt hvalue

theorem Inv.pending_iff (h : s.Inv l) (p : Nat) :
    s.Pending p ↔ ∃ i < N, p ∈ (l i).map Prod.fst := by
  constructor
  · exact h.placed p
  · intro hp
    obtain ⟨i, hi, hpi⟩ := hp
    obtain ⟨x, hx, rfl⟩ := List.mem_map.mp hpi
    exact (h.waiting i hi x hx).2.1

theorem Inv.id_lt (h : s.Inv l) {p : Nat} (hp : s.Pending p) : p < s.wheel.next := by
  obtain ⟨a, ha, rfl⟩ := List.mem_map.mp hp.1
  exact h.fresh a ha

theorem Inv.added_unique (h : s.Inv l) {a b : Added} (ha : a ∈ s.added) (hb : b ∈ s.added)
    (hab : a.id = b.id) : a = b :=
  List.inj_on_of_nodup_map h.ids ha hb hab

/-! ### One slot changes -/

section
variable {ts : Nat} {head : Option Nat} {timers : LinkHeap TwTimer} {new : List (Nat × TwTimer)}

theorem Inv.chain_update (h : s.Inv l) (hts : ts < N) (hnew : timers.Chain none head new)
    (hframe : ∀ i < N, ∀ x ∈ l i, x.1 ∉ (l ts).map Prod.fst →
      timers x.1 = s.wheel.timers x.1) :
    ∀ i < N, timers.Chain none (Function.update s.wheel.slots ts head i)
      (Function.update l ts new i) := by
  intro i hi
  by_cases his : i = ts
  · subst his
    simp only [Function.update_self]
    exact hnew
  · simp only [Function.update_of_ne his]
    refine (h.chain i hi).frame fun x hx => hframe i hi x hx ?_
    intro hmem
    exact his (h.slot_unique hi hts (List.mem_map_of_mem hx) hmem)

theorem Inv.nodup_update (h : s.Inv l) (hnew : (new.map Prod.fst).Nodup) :
    ∀ i < N, ((Function.update l ts new i).map Prod.fst).Nodup := by
  intro i hi
  by_cases his : i = ts
  · subst his
    rw [Function.update_self]
    exact hnew
  · rw [Function.update_of_ne his]
    exact h.nodup i hi

theorem mem_update {i p : Nat} (hp : p ∈ (l i).map Prod.fst)
    (hnew : i = ts → p ∈ new.map Prod.fst) : p ∈ (Function.update l ts new i).map Prod.fst := by
  by_cases his : i = ts
  · rw [his, Function.update_self]
    exact hnew his
  · rwa [Function.update_of_ne his]

end

/-! ### The calls keep it -/

theorem Inv.addTimer (h : s.Inv l) {timeout : Int} (hpos : 0 ≤ timeout)
    (hfit : s.wheel.curSlot + waitOf timeout < N) :
    ∃ t l', s.call (.addTimer timeout) = .ok t ∧ t.Inv l' := by
  have hadd := TimeWheel.addTimer_spec hpos hfit (h.chain _ hfit)
  generalize hts : s.wheel.curSlot + waitOf timeout = ts at hfit hadd
  refine ⟨_, Function.update l ts ((s.wheel.next, ⟨0, ts⟩) :: l ts),
    by simp only [call, hadd, ok_bind]; rfl, ?_⟩
  have hnew : ∀ i < N, ∀ x ∈ l i, x.1 ≠ s.wheel.next := by
    intro i hi x hx
    exact Nat.ne_of_lt (h.id_lt (h.waiting i hi x hx).2.1)
  have hnotDeleted : s.wheel.next ∉ s.deleted := by
    intro hd
    obtain ⟨a, ha, he⟩ := List.mem_map.mp (h.gone _ hd).1
    exact Nat.ne_of_lt (h.fresh a ha) he
  have hnotFired : s.wheel.next ∉ s.fired.map Prod.fst := by
    intro hf
    obtain ⟨f, hf, he⟩ := List.mem_map.mp hf
    obtain ⟨a, ha, haf, _⟩ := h.onTime f hf
    exact Nat.ne_of_lt (h.fresh a ha) (haf.trans he)
  refine ⟨h.cur, ?_, ?_, ?_, ?_, ?_, ?_, h.once, ?_, ?_⟩
  · refine h.chain_update hfit ((h.chain ts hfit).push (hnew ts hfit) (h.nodup ts hfit)) ?_
    intro i hi x hx hnot
    exact LinkHeap.push_of_ne (hnew i hi x hx) fun he => hnot ((h.chain ts hfit).head_mem he)
  · refine h.nodup_update (List.nodup_cons.mpr ⟨?_, h.nodup ts hfit⟩)
    intro hmem
    obtain ⟨x, hx, he⟩ := List.mem_map.mp hmem
    exact hnew ts hfit x hx he
  · intro i hi x hx
    have hkeep : ∀ y ∈ l i, y.2 = ⟨0, i⟩ ∧ (y.1 ∈ s.wheel.next :: s.added.map Added.id ∧
        y.1 ∉ s.deleted ∧ y.1 ∉ s.fired.map Prod.fst) ∧
        ∃ a ∈ ⟨s.wheel.next, waitOf timeout, s.ticks⟩ :: s.added, a.id = y.1 ∧
          s.wheel.curSlot ≤ i ∧ a.since + a.wait = s.ticks + (i - s.wheel.curSlot) := by
      intro y hy
      obtain ⟨hy2, hp, a, ha, hrest⟩ := h.waiting i hi y hy
      exact ⟨hy2, ⟨List.mem_cons_of_mem _ hp.1, hp.2⟩, a, List.mem_cons_of_mem _ ha, hrest⟩
    by_cases his : i = ts
    · subst his
      rw [Function.update_self] at hx
      rcases List.mem_cons.mp hx with rfl | hx
      · refine ⟨rfl, ⟨List.mem_cons_self, hnotDeleted, hnotFired⟩, _, List.mem_cons_self, rfl,
          ?_, ?_⟩
        · exact Nat.le.intro hts
        · show s.ticks + waitOf timeout = s.ticks + (i - s.wheel.curSlot)
          omega
      · exact hkeep x hx
    · rw [Function.update_of_ne his] at hx
      exact hkeep x hx
  · intro p hp
    rcases List.mem_cons.mp hp.1 with rfl | hmem
    · exact ⟨ts, hfit, by rw [Function.update_self]; exact List.mem_cons_self⟩
    · obtain ⟨i, hi, hpi⟩ := h.placed p ⟨hmem, hp.2⟩
      exact ⟨i, hi, mem_update hpi fun his => List.mem_cons_of_mem _ (his ▸ hpi)⟩
  · refine List.nodup_cons.mpr ⟨?_, h.ids⟩
    intro hmem
    obtain ⟨a, ha, he⟩ := List.mem_map.mp hmem
    exact Nat.ne_of_lt (h.fresh a ha) he
  · intro a ha
    rcases List.mem_cons.mp ha with rfl | ha
    · exact Nat.lt_succ_self _
    · exact Nat.lt_succ_of_lt (h.fresh a ha)
  · intro f hf
    obtain ⟨a, ha, hrest⟩ := h.onTime f hf
    exact ⟨a, List.mem_cons_of_mem _ ha, hrest⟩
  · intro p hp
    exact ⟨List.mem_cons_of_mem _ (h.gone p hp).1, (h.gone p hp).2⟩

theorem Inv.delTimer (h : s.Inv l) {p : Nat} (hp : s.Pending p) :
    ∃ t l', s.call (.delTimer p) = .ok t ∧ t.Inv l' := by
  obtain ⟨ts, hts, hmem⟩ := h.placed p hp
  obtain ⟨x, hx, rfl⟩ := List.mem_map.mp hmem
  obtain ⟨before, after, hsplit⟩ := List.append_of_mem hx
  have hchain := h.chain ts hts
  have hnodup := h.nodup ts hts
  obtain ⟨c, hread, hc, hvalue⟩ := TimeWheel.read_of_chain hchain hx
  have hslot : c.value.timeSolt = ts := by
    rw [hvalue, (h.waiting ts hts x hx).1]
  rw [hsplit] at hchain hnodup
  have hremove := TimeWheel.removeTimer_spec hchain hnodup hc
  have hids : ∀ {q}, q ∈ (before ++ after).map Prod.fst ↔ q ∈ (l ts).map Prod.fst ∧ q ≠ x.1 := by
    intro q
    have hmid : ((before ++ x :: after).map Prod.fst).Perm
        (x.1 :: (before ++ after).map Prod.fst) := (List.perm_middle).map Prod.fst
    rw [hsplit, hmid.mem_iff, List.mem_cons]
    have hx1 := (List.nodup_cons.mp (hmid.nodup_iff.mp hnodup)).1
    constructor
    · intro hq
      exact ⟨.inr hq, fun he => hx1 (he ▸ hq)⟩
    · intro hq
      exact hq.1.resolve_left hq.2
  refine ⟨_, Function.update l ts (before ++ after), by
    simp only [call, TimeWheel.delTimer, hread, ok_bind, hslot, check_ok hts, hremove]; rfl, ?_⟩
  have hsub : ∀ i < N, ∀ y ∈ Function.update l ts (before ++ after) i, y ∈ l i ∧ y.1 ≠ x.1 := by
    intro i hi y hy
    by_cases his : i = ts
    · subst his
      rw [Function.update_self] at hy
      refine ⟨?_, (hids.mp (List.mem_map_of_mem hy)).2⟩
      rw [hsplit]
      rcases List.mem_append.mp hy with hy | hy
      · exact List.mem_append_left _ hy
      · exact List.mem_append_right _ (List.mem_cons_of_mem _ hy)
    · rw [Function.update_of_ne his] at hy
      refine ⟨hy, fun he => his (h.slot_unique hi hts (List.mem_map_of_mem hy) (he ▸ hmem))⟩
  refine ⟨h.cur, ?_, ?_, ?_, ?_, h.ids, h.fresh, h.once, h.onTime, ?_⟩
  · refine h.chain_update hts (hchain.unlink hc hnodup fun _ _ he => by cases he) ?_
    intro i hi y _ hnot
    exact hchain.unlink_of_notMem hc (hsplit ▸ hnot)
  · exact h.nodup_update
      (hnodup.sublist (((List.sublist_cons_self x after).append_left before).map Prod.fst))
  · intro i hi y hy
    obtain ⟨hyl, hne⟩ := hsub i hi y hy
    obtain ⟨hy2, hpend, ha⟩ := h.waiting i hi y hyl
    refine ⟨hy2, ⟨hpend.1, ?_, hpend.2.2⟩, ha⟩
    intro hd
    rcases List.mem_cons.mp hd with hd | hd
    · exact hne hd
    · exact hpend.2.1 hd
  · intro q hq
    obtain ⟨i, hi, hqi⟩ := h.placed q ⟨hq.1, fun hd => hq.2.1 (List.mem_cons_of_mem _ hd), hq.2.2⟩
    refine ⟨i, hi, mem_update hqi ?_⟩
    intro his
    exact hids.mpr ⟨his ▸ hqi, fun he => hq.2.1 (he ▸ List.mem_cons_self)⟩
  · intro q hq
    rcases List.mem_cons.mp hq with rfl | hq
    · exact ⟨hp.1, hp.2.2⟩
    · exact h.gone q hq

theorem Inv.length_le (h : s.Inv l) {i : Nat} (hi : i < N) : (l i).length ≤ s.wheel.next := by
  have hsub : (l i).map Prod.fst ⊆ List.range s.wheel.next := by
    intro p hp
    exact List.mem_range.mpr (h.id_lt ((h.pending_iff p).mpr ⟨i, hi, hp⟩))
  have hle := ((h.nodup i hi).subperm hsub).length_le
  rwa [List.length_map, List.length_range] at hle

theorem Inv.tick (h : s.Inv l) : ∃ t l', s.call .tick = .ok t ∧ t.Inv l' := by
  have hcur := h.cur
  generalize hslot : s.wheel.curSlot = cur at hcur
  have hchain := h.chain cur hcur
  rw [← hslot] at hchain
  obtain ⟨v, hv, hvcur, hvnext, hvslots, hframe⟩ := TimeWheel.tickLoop_spec s.wheel []
    hchain (hslot ▸ h.nodup cur hcur)
    (fun x hx => by rw [(h.waiting cur hcur x (hslot ▸ hx)).1]) (hslot ▸ h.length_le hcur)
  rw [hslot] at hv hframe hvslots hvcur
  have hfires : ∀ x ∈ l cur, s.Pending x.1 := fun x hx => (h.waiting cur hcur x hx).2.1
  refine ⟨_, Function.update l cur [], by
    simp only [call, TimeWheel.tick, hslot, check_ok hcur, ok_bind, hv]; rfl, ?_⟩
  have hfst : ((l cur).map Prod.fst).map (fun p => (p, s.ticks + 1)) =
      (l cur).map fun x => (x.1, s.ticks + 1) := by
    rw [List.map_map]
    rfl
  have hids : (((l cur).map Prod.fst).map fun p => (p, s.ticks + 1)).map Prod.fst =
      (l cur).map Prod.fst := by
    rw [List.map_map]
    exact List.map_id' _
  have hcurSlot : (v.curSlot + 1) % N < N := Nat.mod_lt _ (by decide)
  refine ⟨hcurSlot, ?_, ?_, ?_, ?_, h.ids, ?_, ?_, ?_, ?_⟩
  · simp only [hvslots]
    exact h.chain_update hcur rfl fun _ _ x _ hnot => hframe x.1 hnot
  · exact h.nodup_update List.nodup_nil
  · intro i hi x hx
    by_cases hic : i = cur
    · subst hic
      rw [Function.update_self] at hx
      cases hx
    · rw [Function.update_of_ne hic] at hx
      obtain ⟨hx2, hp, a, ha, hid, hle, htime⟩ := h.waiting i hi x hx
      refine ⟨hx2, ⟨hp.1, hp.2.1, ?_⟩, a, ha, hid, ?_⟩
      · rw [List.nil_append, List.map_append, hids, List.mem_append, not_or]
        exact ⟨hp.2.2, fun hmem => hic (h.slot_unique hi hcur (List.mem_map_of_mem hx) hmem)⟩
      · -- the wheel does not turn around while a timer waits
        have hmod : (v.curSlot + 1) % N = cur + 1 := by
          rw [hvcur]
          exact Nat.mod_eq_of_lt (by omega)
        show (v.curSlot + 1) % N ≤ i ∧
          a.since + a.wait = s.ticks + 1 + (i - (v.curSlot + 1) % N)
        omega
  · intro p hp
    rw [Pending, List.nil_append, List.map_append, hids, List.mem_append, not_or] at hp
    obtain ⟨i, hi, hpi⟩ := h.placed p ⟨hp.1, hp.2.1, hp.2.2.1⟩
    exact ⟨i, hi, mem_update hpi fun he => absurd (he ▸ hpi) hp.2.2.2⟩
  · intro a ha
    show a.id < v.next
    rw [hvnext]
    exact h.fresh a ha
  · rw [List.nil_append, List.map_append, hids]
    refine List.nodup_append.mpr ⟨h.once, h.nodup cur hcur, ?_⟩
    intro p hp q hq hpq
    obtain ⟨x, hx, rfl⟩ := List.mem_map.mp hq
    exact (hfires x hx).2.2 (hpq ▸ hp)
  · intro f hf
    rw [List.nil_append, hfst] at hf
    rcases List.mem_append.mp hf with hf | hf
    · obtain ⟨a, ha, hid, htime, hle⟩ := h.onTime f hf
      exact ⟨a, ha, hid, htime, Nat.le_succ_of_le hle⟩
    · obtain ⟨x, hx, rfl⟩ := List.mem_map.mp hf
      obtain ⟨_, _, a, ha, hid, hle, htime⟩ := h.waiting cur hcur x hx
      refine ⟨a, ha, hid, ?_, Nat.le_refl _⟩
      show s.ticks + 1 = a.since + a.wait + 1
      omega
  · intro p hp
    refine ⟨(h.gone p hp).1, ?_⟩
    rw [List.nil_append, List.map_append, hids, List.mem_append, not_or]
    refine ⟨(h.gone p hp).2, ?_⟩
    intro hmem
    obtain ⟨x, hx, rfl⟩ := List.mem_map.mp hmem
    exact (hfires x hx).2.1 hp

/-! ### What the invariant says -/

theorem filter_fst_of_mem {l : List (Nat × Nat)} (hnodup : (l.map Prod.fst).Nodup)
    {f : Nat × Nat} (hf : f ∈ l) : l.filter (fun g => g.1 = f.1) = [f] := by
  induction l with
  | nil => cases hf
  | cons g rest ih =>
    rw [List.map_cons, List.nodup_cons] at hnodup
    rcases List.mem_cons.mp hf with rfl | hf
    · rw [List.filter_cons_of_pos (by simp), List.filter_eq_nil_iff.mpr]
      intro g hg he
      exact hnodup.1 (of_decide_eq_true he ▸ List.mem_map_of_mem hg)
    · have hne : g.1 ≠ f.1 := by
        intro he
        exact hnodup.1 (he ▸ List.mem_map_of_mem hf)
      rw [List.filter_cons_of_neg (by simpa using hne), ih hnodup.2 hf]

theorem Inv.right (h : s.Inv l) : s.Right where
  lists := ⟨l, fun i hi => ⟨h.chain i hi, h.nodup i hi⟩,
    fun _ _ _ hi hj hpi hpj => h.slot_unique hi hj hpi hpj, h.pending_iff⟩
  punctual := by
    intro a ha hkept
    by_cases hfired : a.id ∈ s.fired.map Prod.fst
    · obtain ⟨f, hf, hfa⟩ := List.mem_map.mp hfired
      obtain ⟨b, hb, hbf, htime, hle⟩ := h.onTime f hf
      cases h.added_unique ha hb (hfa.symm.trans hbf.symm)
      rw [if_pos (htime ▸ hle), ← hfa, filter_fst_of_mem h.once hf, ← htime]
    · obtain ⟨i, hi, hmem⟩ := h.placed a.id ⟨List.mem_map_of_mem ha, hkept, hfired⟩
      obtain ⟨x, hx, hxa⟩ := List.mem_map.mp hmem
      obtain ⟨_, _, b, hb, hbx, _, htime⟩ := h.waiting i hi x hx
      cases h.added_unique ha hb (hxa.symm.trans hbx.symm)
      rw [if_neg (by omega), List.filter_eq_nil_iff.mpr]
      intro f hf he
      exact hfired (of_decide_eq_true he ▸ List.mem_map_of_mem hf)
  silent := fun p hp => (h.gone p hp).2

/-- The new timer's slot is one of the wheel's. -/
def Guard (s : WheelRun) : WheelCall → Prop
  | .addTimer timeout => s.wheel.curSlot + waitOf timeout < N
  | _ => True

instance (s : WheelRun) (a : WheelCall) : Decidable (Guard s a) :=
  match a with
  | .addTimer timeout => inferInstanceAs (Decidable (s.wheel.curSlot + waitOf timeout < N))
  | .delTimer _ | .tick => inferInstanceAs (Decidable True)

theorem step_asked {a : WheelCall} {x : Except WheelFault WheelRun}
    (h : machine.step s a = some x) : s.Asked a ∧ s.call a = x := by
  unfold machine at h
  simp only at h
  split at h
  next ha => exact ⟨ha, Option.some.inj h⟩
  · cases h

theorem step_good {a : WheelCall} {x : Except WheelFault WheelRun} (hs : ∃ l, s.Inv l)
    (hg : Guard s a) (h : machine.step s a = some x) : ∃ t, x = .ok t ∧ ∃ l, t.Inv l := by
  obtain ⟨l, hl⟩ := hs
  obtain ⟨hasked, rfl⟩ := step_asked h
  cases a with
  | addTimer timeout =>
    obtain ⟨t, l', ht, hinv⟩ := hl.addTimer hasked hg
    exact ⟨t, ht, l', hinv⟩
  | delTimer p =>
    obtain ⟨t, l', ht, hinv⟩ := hl.delTimer hasked
    exact ⟨t, ht, l', hinv⟩
  | tick =>
    obtain ⟨t, l', ht, hinv⟩ := hl.tick
    exact ⟨t, ht, l', hinv⟩

theorem step_bad {a : WheelCall} {t : WheelRun} (hg : ¬ Guard s a)
    (h : machine.step s a = some (.ok t)) : ¬ t.Right := by
  obtain ⟨hasked, hcall⟩ := step_asked h
  cases a with
  | addTimer timeout =>
    have hpos : 0 ≤ timeout := hasked
    obtain ⟨r, hr, _⟩ := bind_eq_ok hcall
    unfold TimeWheel.addTimer at hr
    rw [if_neg (by omega), TimeWheel.ticksOf_eq hpos] at hr
    have hcheck : check (s.wheel.curSlot + waitOf timeout < N) WheelFault.slotIndex =
        .error .slotIndex := if_neg hg
    simp only [hcheck] at hr
    cases hr
  | delTimer p => exact absurd trivial hg
  | tick => exact absurd trivial hg

/-- The wheel is right in every state of a run exactly if each timer that is added fits into
what is left of the wheel's round. -/
theorem wheel_right_iff (calls : List WheelCall) {x : Except WheelFault WheelRun}
    (h : machine.run new calls = some x) :
    (∀ before, before <+: calls → ∃ t, machine.run new before = some (.ok t) ∧ t.Right) ↔
      machine.Along Guard new calls :=
  have hright : ∀ s : WheelRun, (∃ l, s.Inv l) → s.Right := by
    intro s hs
    obtain ⟨l, hl⟩ := hs
    exact hl.right
  Machine.run_always_iff hright (fun _ _ _ hs hg hx => step_good hs hg hx)
    (fun _ _ _ _ hg hx => step_bad hg hx) ⟨fun _ => [], new_inv⟩ h

/- A run with a timer in the last slot, one deleted and one that fires at once. -/
def fittingCalls : List WheelCall :=
  [.addTimer 59, .addTimer 3, .tick, .addTimer 0, .addTimer 2, .delTimer 1, .tick, .tick, .tick]

theorem wheel_right_iff_fitting :
    ∃ t, machine.run new fittingCalls = some (.ok t) ∧ t.Right := by
  have hruns : machine.runsTo new fittingCalls (fun t => t.fired = [(2, 3), (3, 4)]) = true := by
    decide +kernel
  obtain ⟨t, ht, _⟩ := Machine.exists_of_runsTo hruns
  exact (wheel_right_iff fittingCalls ht).mpr (by decide +kernel) fittingCalls List.prefix_rfl

/-- A timer of a minute in a new wheel: `m_slots[60]` is behind the last slot. -/
theorem wheel_slot_past_end :
    machine.failsWith new [.addTimer 60] .slotIndex = true ∧
      ¬ ∀ before, before <+: [.addTimer 60] →
        ∃ t, machine.run new before = some (.ok t) ∧ t.Right := by
  have hfails : machine.failsWith new [.addTimer 60] .slotIndex = true := by decide +kernel
  refine ⟨hfails, ?_⟩
  intro h
  obtain ⟨t, ht, _⟩ := h _ List.prefix_rfl
  cases (Machine.run_of_failsWith hfails).symm.trans ht

end WheelRun

end TstMuduo.Timers
