import Mathlib.Data.Set.Insert
import TstMuduo.Net.TimerQueue

/-!
# Who owns a Timer

Every live `Timer` object has one place. The member functions of `TimerQueue` move
timers between the places; each move keeps the representation invariant, and from
the moves follows what each function does, without a fault.
-/

namespace TstMuduo.Net
open TstMuduo.Lib

namespace TimerQueue

theorem earliest_iff (q : TimerQueue) (time : Int) :
    q.earliest time = true ↔ ∀ e, e ∈ q.timers → time < e.expiration := by
  unfold earliest
  cases hf : q.timers.first with
  | none =>
    have hn := OrderedSet.first_eq_none.mp hf
    exact ⟨fun _ e he => absurd he (hn e), fun _ => rfl⟩
  | some f =>
    obtain ⟨hm, hle⟩ := OrderedSet.first_spec hf
    simp only [decide_eq_true_eq]
    constructor
    · intro h e he
      have := Entry.expiration_le (hle e he)
      omega
    · intro h
      exact h f hm

def Queued (q : TimerQueue) (a : Nat) : Prop := ∃ e, e ∈ q.timers ∧ e.timer = a

/-- The pointers to `Timer` objects. Each live object is in `timers_`, in the vector
of expired timers that `handleRead` holds, or in limbo: allocated by `addTimer`
and not yet inserted. -/
structure Wf (q : TimerQueue) (held : List Entry) (limbo : Set Nat) (numCreated : Nat) : Prop where
  sizes : q.timers.size = q.activeTimers.size
  timers : ∀ e, e ∈ q.timers → ∃ t, q.heap e.timer = some t ∧ t.expiration = e.expiration ∧
    ⟨e.timer, t.sequence⟩ ∈ q.activeTimers
  active : ∀ p, p ∈ q.activeTimers → ∃ t, q.heap p.timer = some t ∧ t.sequence = p.sequence ∧
    ⟨t.expiration, p.timer⟩ ∈ q.timers
  expired : ∀ e ∈ held,
    ¬ q.Queued e.timer ∧ ∃ t, q.heap e.timer = some t ∧ t.expiration = e.expiration
  once : (held.map Entry.timer).Nodup
  waiting : ∀ a ∈ limbo, ¬ q.Queued a ∧ a ∉ held.map Entry.timer ∧ ∃ t, q.heap a = some t
  owned : ∀ a t, q.heap a = some t → q.Queued a ∨ a ∈ held.map Entry.timer ∨ a ∈ limbo
  range : ∀ a t, q.heap a = some t → a < UINTPTR_MAX
  numbered : ∀ a t, q.heap a = some t → t.sequence ≤ numCreated
  distinct : ∀ a b t u, q.heap a = some t → q.heap b = some u → t.sequence = u.sequence → a = b

theorem new_wf (n : Nat) : new.Wf [] ∅ n := by
  refine ⟨rfl, ?_, ?_, ?_, List.nodup_nil, ?_, ?_, ?_, ?_, ?_⟩
  · intro e he; exact absurd he OrderedSet.mem_empty
  · intro p hp; exact absurd hp OrderedSet.mem_empty
  · intro e he; cases he
  · intro a ha; cases ha
  · intro a t ht; cases ht
  · intro a t ht; cases ht
  · intro a t ht; cases ht
  · intro a b t u ht; cases ht

section moves

variable {q : TimerQueue} {held : List Entry} {limbo : Set Nat} {n : Nat} {a : Nat} {t : Timer}

theorem Wf.entry_unique (hw : q.Wf held limbo n) {e f : Entry} (he : e ∈ q.timers)
    (hf : f ∈ q.timers) (h : e.timer = f.timer) : e = f := by
  obtain ⟨t, ht, hte, _⟩ := hw.timers e he
  obtain ⟨u, hu, huf, _⟩ := hw.timers f hf
  rw [h, hu] at ht
  cases ht
  cases e
  cases f
  simp_all

theorem Wf.active_iff (hw : q.Wf held limbo n) (ht : q.heap a = some t) :
    ⟨a, t.sequence⟩ ∈ q.activeTimers ↔ q.Queued a := by
  constructor
  · intro hp
    obtain ⟨u, hu, _, hm⟩ := hw.active _ hp
    exact ⟨_, hm, rfl⟩
  · intro hx
    obtain ⟨e, he, rfl⟩ := hx
    obtain ⟨u, hu, _, hm⟩ := hw.timers e he
    rw [ht] at hu
    cases hu
    exact hm

theorem Wf.unhold {e : Entry} {es : List Entry} (hw : q.Wf (e :: es) limbo n) :
    q.Wf es (Insert.insert e.timer limbo) n := by
  have hnd : e.timer ∉ es.map Entry.timer ∧ (es.map Entry.timer).Nodup :=
    List.nodup_cons.mp hw.once
  refine ⟨hw.sizes, hw.timers, hw.active, ?_, hnd.2, ?_, ?_, hw.range, hw.numbered, hw.distinct⟩
  · intro f hf
    exact hw.expired f (List.mem_cons_of_mem _ hf)
  · intro a ha
    rcases ha with rfl | ha
    · obtain ⟨hq, t, ht, _⟩ := hw.expired e List.mem_cons_self
      exact ⟨hq, hnd.1, t, ht⟩
    · obtain ⟨hq, hh, hl⟩ := hw.waiting a ha
      exact ⟨hq, fun hm => hh (List.mem_cons_of_mem _ hm), hl⟩
  · intro a t ht
    rcases hw.owned a t ht with h | h | h
    · exact .inl h
    · rcases List.mem_cons.mp h with rfl | h
      · exact .inr (.inr (Set.mem_insert _ _))
      · exact .inr (.inl h)
    · exact .inr (.inr (Set.mem_insert_of_mem _ h))

theorem Wf.apart (hw : q.Wf held limbo n) (ha : a ∈ limbo) {heap : Nat → Option Timer}
    (hheap : ∀ b, b ≠ a → heap b = q.heap b) :
    (∀ e, e ∈ q.timers → ∃ t, heap e.timer = some t ∧ t.expiration = e.expiration ∧
      ⟨e.timer, t.sequence⟩ ∈ q.activeTimers) ∧
    (∀ p, p ∈ q.activeTimers → ∃ t, heap p.timer = some t ∧ t.sequence = p.sequence ∧
      ⟨t.expiration, p.timer⟩ ∈ q.timers) ∧
    ∀ e ∈ held, ¬ q.Queued e.timer ∧ ∃ t, heap e.timer = some t ∧
      t.expiration = e.expiration := by
  obtain ⟨hnq, hnh, _⟩ := hw.waiting a ha
  refine ⟨?_, ?_, ?_⟩
  · intro e he
    rw [hheap _ fun h => hnq ⟨e, he, h⟩]
    exact hw.timers e he
  · intro p hp
    obtain ⟨v, hv, hs, hm⟩ := hw.active p hp
    rw [hheap _ fun h => hnq ⟨_, hm, h⟩]
    exact ⟨v, hv, hs, hm⟩
  · intro e he
    rw [hheap _ fun h => hnh (h ▸ List.mem_map_of_mem he)]
    exact hw.expired e he

theorem Wf.restart (hw : q.Wf held limbo n) (ha : a ∈ limbo) (ht : q.heap a = some t) {u : Timer}
    (hu : u.sequence = t.sequence) :
    { q with heap := Function.update q.heap a (some u) }.Wf held limbo n := by
  have heap_ne : ∀ b, b ≠ a → Function.update q.heap a (some u) b = q.heap b :=
    fun b hb => Function.update_of_ne hb _ _
  -- every live timer after the change has a live timer of that number before it
  have back : ∀ b v, Function.update q.heap a (some u) b = some v →
      ∃ w, q.heap b = some w ∧ w.sequence = v.sequence := by
    intro b v hv
    by_cases hb : b = a
    · subst hb
      rw [Function.update_self] at hv
      cases hv
      exact ⟨t, ht, hu.symm⟩
    · rw [heap_ne b hb] at hv
      exact ⟨v, hv, rfl⟩
  obtain ⟨htimers, hactive, hexpired⟩ := hw.apart ha heap_ne
  refine ⟨hw.sizes, htimers, hactive, hexpired, hw.once, ?_, ?_, ?_, ?_, ?_⟩
  · intro b hb
    obtain ⟨h1, h2, v, hv⟩ := hw.waiting b hb
    refine ⟨h1, h2, ?_⟩
    by_cases hba : b = a
    · exact ⟨u, by rw [hba]; exact Function.update_self ..⟩
    · exact ⟨v, by simp only [heap_ne _ hba]; exact hv⟩
  · intro b v hv
    obtain ⟨w, hw', _⟩ := back b v hv
    exact hw.owned b w hw'
  · intro b v hv
    obtain ⟨w, hw', _⟩ := back b v hv
    exact hw.range b w hw'
  · intro b v hv
    obtain ⟨w, hw', hs⟩ := back b v hv
    rw [← hs]
    exact hw.numbered b w hw'
  · intro b c v w hv hw' hs
    obtain ⟨v', hv', hsv⟩ := back b v hv
    obtain ⟨w', hw'', hsw⟩ := back c w hw'
    exact hw.distinct b c v' w' hv' hw'' (by rw [hsv, hsw, hs])

def inserted (q : TimerQueue) (a : Nat) (t : Timer) : TimerQueue :=
  { q with
    timers := q.timers.insert ⟨t.expiration, a⟩
    activeTimers := q.activeTimers.insert ⟨a, t.sequence⟩ }

theorem Wf.fresh (hw : q.Wf held limbo n) (ha : a ∈ limbo) (ht : q.heap a = some t) :
    ¬ ⟨t.expiration, a⟩ ∈ q.timers ∧ ¬ ⟨a, t.sequence⟩ ∈ q.activeTimers := by
  obtain ⟨hnq, _, _⟩ := hw.waiting a ha
  exact ⟨fun h => hnq ⟨_, h, rfl⟩, fun h => hnq ((hw.active_iff ht).mp h)⟩

theorem queued_inserted (q : TimerQueue) (a : Nat) (t : Timer) (b : Nat) :
    (q.inserted a t).Queued b ↔ b = a ∨ q.Queued b := by
  simp only [Queued, inserted, OrderedSet.mem_insert]
  constructor
  · intro hx
    obtain ⟨e, rfl | he, rfl⟩ := hx
    · exact .inl rfl
    · exact .inr ⟨e, he, rfl⟩
  · intro hx
    rcases hx with rfl | ⟨e, he, rfl⟩
    · exact ⟨_, .inl rfl, rfl⟩
    · exact ⟨e, .inr he, rfl⟩

theorem Wf.insert (hw : q.Wf held limbo n) (ha : a ∈ limbo) (ht : q.heap a = some t) :
    (q.inserted a t).Wf held (limbo \ {a}) n := by
  obtain ⟨hf1, hf2⟩ := hw.fresh ha ht
  obtain ⟨hnq, hnh, _⟩ := hw.waiting a ha
  refine ⟨?_, ?_, ?_, ?_, hw.once, ?_, ?_, hw.range, hw.numbered, hw.distinct⟩
  · have hs := hw.sizes
    simp only [inserted, OrderedSet.size_insert hf1, OrderedSet.size_insert hf2]
    omega
  · intro e he
    rcases OrderedSet.mem_insert.mp he with rfl | he
    · exact ⟨t, ht, rfl, OrderedSet.mem_insert.mpr (.inl rfl)⟩
    · obtain ⟨u, hu, hx, hm⟩ := hw.timers e he
      exact ⟨u, hu, hx, OrderedSet.mem_insert.mpr (.inr hm)⟩
  · intro p hp
    rcases OrderedSet.mem_insert.mp hp with rfl | hp
    · exact ⟨t, ht, rfl, OrderedSet.mem_insert.mpr (.inl rfl)⟩
    · obtain ⟨u, hu, hx, hm⟩ := hw.active p hp
      exact ⟨u, hu, hx, OrderedSet.mem_insert.mpr (.inr hm)⟩
  · intro e he
    obtain ⟨hq, hx⟩ := hw.expired e he
    refine ⟨?_, hx⟩
    rw [queued_inserted]
    intro hx
    rcases hx with h | h
    · exact hnh (h ▸ List.mem_map_of_mem he)
    · exact hq h
  · intro b hx
    obtain ⟨hb, hba⟩ := hx
    obtain ⟨h1, h2, h3⟩ := hw.waiting b hb
    refine ⟨?_, h2, h3⟩
    rw [queued_inserted]
    intro hx
    rcases hx with h | h
    · exact hba h
    · exact h1 h
  · intro b u hu
    by_cases hba : b = a
    · exact .inl ((queued_inserted q a t b).mpr (.inl hba))
    · rcases hw.owned b u hu with h | h | h
      · exact .inl ((queued_inserted q a t b).mpr (.inr h))
      · exact .inr (.inl h)
      · exact .inr (.inr ⟨h, hba⟩)

theorem Wf.delete (hw : q.Wf held limbo n) (ha : a ∈ limbo) :
    { q with heap := Function.update q.heap a none }.Wf held (limbo \ {a}) n := by
  have heap_ne : ∀ b, b ≠ a → Function.update q.heap a none b = q.heap b :=
    fun b hb => Function.update_of_ne hb _ _
  have back : ∀ b v, Function.update q.heap a none b = some v → b ≠ a ∧ q.heap b = some v := by
    intro b v hv
    have hb : b ≠ a := by
      intro hx
      subst hx
      rw [Function.update_self] at hv
      cases hv
    rw [heap_ne b hb] at hv
    exact ⟨hb, hv⟩
  obtain ⟨htimers, hactive, hexpired⟩ := hw.apart ha heap_ne
  refine ⟨hw.sizes, htimers, hactive, hexpired, hw.once, ?_, ?_, ?_, ?_, ?_⟩
  · intro b hx
    obtain ⟨hb, hba⟩ := hx
    have hne : b ≠ a := hba
    simp only [heap_ne _ hne]
    exact hw.waiting b hb
  · intro b v hv
    obtain ⟨hb, hv'⟩ := back b v hv
    rcases hw.owned b v hv' with h | h | h
    · exact .inl h
    · exact .inr (.inl h)
    · exact .inr (.inr ⟨h, hb⟩)
  · intro b v hv
    exact hw.range b v (back b v hv).2
  · intro b v hv
    exact hw.numbered b v (back b v hv).2
  · intro b c v w hv hw' hs
    exact hw.distinct b c v w (back b v hv).2 (back c w hw').2 hs

theorem Wf.alloc (hw : q.Wf held limbo n) (ha : q.heap a = none) (hr : a < UINTPTR_MAX)
    (ht : t.sequence = n + 1) :
    { q with heap := Function.update q.heap a (some t) }.Wf held (Insert.insert a limbo)
      (n + 1) := by
  have heap_ne : ∀ b, b ≠ a → Function.update q.heap a (some t) b = q.heap b :=
    fun b hb => Function.update_of_ne hb _ _
  have live_ne : ∀ b v, q.heap b = some v → b ≠ a := by
    intro b v hv hx
    subst hx
    rw [ha] at hv
    cases hv
  have split : ∀ b v, Function.update q.heap a (some t) b = some v →
      b = a ∧ v = t ∨ b ≠ a ∧ q.heap b = some v := by
    intro b v hv
    by_cases hb : b = a
    · subst hb
      rw [Function.update_self] at hv
      cases hv
      exact .inl ⟨rfl, rfl⟩
    · rw [heap_ne b hb] at hv
      exact .inr ⟨hb, hv⟩
  refine ⟨hw.sizes, ?_, ?_, ?_, hw.once, ?_, ?_, ?_, ?_, ?_⟩
  · intro e he
    obtain ⟨v, hv, hx⟩ := hw.timers e he
    exact ⟨v, by simp only [heap_ne _ (live_ne _ _ hv)]; exact hv, hx⟩
  · intro p hp
    obtain ⟨v, hv, hx⟩ := hw.active p hp
    exact ⟨v, by simp only [heap_ne _ (live_ne _ _ hv)]; exact hv, hx⟩
  · intro e he
    obtain ⟨hq, v, hv, hx⟩ := hw.expired e he
    exact ⟨hq, v, by simp only [heap_ne _ (live_ne _ _ hv)]; exact hv, hx⟩
  · intro b hx
    rcases hx with rfl | hb
    · refine ⟨?_, ?_, t, Function.update_self ..⟩
      · intro hx
        obtain ⟨e, he, rfl⟩ := hx
        obtain ⟨v, hv, _⟩ := hw.timers e he
        exact live_ne _ v hv rfl
      · intro hm
        obtain ⟨e, he, rfl⟩ := List.mem_map.mp hm
        obtain ⟨_, v, hv, _⟩ := hw.expired e he
        exact live_ne _ v hv rfl
    · obtain ⟨h1, h2, v, hv⟩ := hw.waiting b hb
      exact ⟨h1, h2, v, by simp only [heap_ne _ (live_ne _ _ hv)]; exact hv⟩
  · intro b v hv
    rcases split b v hv with ⟨rfl, _⟩ | ⟨_, hv⟩
    · exact .inr (.inr (Set.mem_insert _ _))
    · rcases hw.owned b v hv with h | h | h
      · exact .inl h
      · exact .inr (.inl h)
      · exact .inr (.inr (Set.mem_insert_of_mem _ h))
  · intro b v hv
    rcases split b v hv with ⟨rfl, _⟩ | ⟨_, hv⟩
    · exact hr
    · exact hw.range b v hv
  · intro b v hv
    rcases split b v hv with ⟨_, rfl⟩ | ⟨_, hv⟩
    · omega
    · have := hw.numbered b v hv
      omega
  · intro b c v w hv hw' hs
    rcases split b v hv with ⟨hb, rfl⟩ | ⟨_, hbv⟩ <;>
      rcases split c w hw' with ⟨hc, rfl⟩ | ⟨_, hcw⟩
    · rw [hb, hc]
    · have := hw.numbered c w hcw
      omega
    · have := hw.numbered b v hbv
      omega
    · exact hw.distinct b c v w hbv hcw hs

def erased (q : TimerQueue) (a : Nat) (t : Timer) : TimerQueue :=
  { q with
    timers := q.timers.erase ⟨t.expiration, a⟩
    activeTimers := q.activeTimers.erase ⟨a, t.sequence⟩ }

theorem Wf.queued_entry (hw : q.Wf held limbo n) (ht : q.heap a = some t) (hq : q.Queued a) :
    ⟨t.expiration, a⟩ ∈ q.timers := by
  obtain ⟨e, he, rfl⟩ := hq
  obtain ⟨u, hu, hx, _⟩ := hw.timers e he
  rw [ht] at hu
  cases hu
  rw [hx]
  exact he

theorem Wf.queued_erased (hw : q.Wf held limbo n) (ht : q.heap a = some t) (b : Nat) :
    (q.erased a t).Queued b ↔ b ≠ a ∧ q.Queued b := by
  simp only [Queued, erased, OrderedSet.mem_erase]
  constructor
  · intro hx
    obtain ⟨e, ⟨hne, he⟩, rfl⟩ := hx
    refine ⟨?_, e, he, rfl⟩
    intro hea
    obtain ⟨u, hu, hx, _⟩ := hw.timers e he
    rw [hea, ht] at hu
    cases hu
    exact hne (by cases e; simp_all)
  · intro hx
    obtain ⟨hne, e, he, rfl⟩ := hx
    refine ⟨e, ⟨?_, he⟩, rfl⟩
    intro hx
    subst hx
    exact hne rfl

theorem Wf.erase (hw : q.Wf held limbo n) (ht : q.heap a = some t) (hq : q.Queued a) :
    (q.erased a t).Wf held (Insert.insert a limbo) n := by
  have hm : ⟨t.expiration, a⟩ ∈ q.timers := hw.queued_entry ht hq
  have hact : ⟨a, t.sequence⟩ ∈ q.activeTimers := (hw.active_iff ht).mpr hq
  have hnh : a ∉ held.map Entry.timer := by
    intro h
    obtain ⟨e, he, rfl⟩ := List.mem_map.mp h
    exact (hw.expired e he).1 hq
  refine ⟨?_, ?_, ?_, ?_, hw.once, ?_, ?_, hw.range, hw.numbered, hw.distinct⟩
  · have hs := hw.sizes
    have h1 := OrderedSet.size_erase hm
    have h2 := OrderedSet.size_erase hact
    simp only [erased]
    omega
  · intro e he
    have hne : e.timer ≠ a := ((hw.queued_erased ht e.timer).mp ⟨e, he, rfl⟩).1
    obtain ⟨_, he⟩ := OrderedSet.mem_erase.mp he
    obtain ⟨u, hu, hx, hmu⟩ := hw.timers e he
    refine ⟨u, hu, hx, OrderedSet.mem_erase.mpr ⟨?_, hmu⟩⟩
    intro h
    exact hne (congrArg ActiveTimer.timer h)
  · intro p hp
    obtain ⟨hne, hp⟩ := OrderedSet.mem_erase.mp hp
    obtain ⟨u, hu, hs, hmu⟩ := hw.active p hp
    refine ⟨u, hu, hs, OrderedSet.mem_erase.mpr ⟨?_, hmu⟩⟩
    intro h
    have hpa : p.timer = a := congrArg Entry.timer h
    rw [hpa, ht] at hu
    cases hu
    exact hne (by cases p; simp_all)
  · intro e he
    obtain ⟨hnq, hx⟩ := hw.expired e he
    exact ⟨fun h => hnq ((hw.queued_erased ht e.timer).mp h).2, hx⟩
  · intro b hx
    rcases hx with rfl | hb
    · exact ⟨fun h => ((hw.queued_erased ht b).mp h).1 rfl, hnh, t, ht⟩
    · obtain ⟨h1, h2⟩ := hw.waiting b hb
      exact ⟨fun h => h1 ((hw.queued_erased ht b).mp h).2, h2⟩
  · intro b u hu
    by_cases hba : b = a
    · exact .inr (.inr (by rw [hba]; exact Set.mem_insert _ _))
    · rcases hw.owned b u hu with h | h | h
      · exact .inl ((hw.queued_erased ht b).mpr ⟨hba, h⟩)
      · exact .inr (.inl h)
      · exact .inr (.inr (Set.mem_insert_of_mem _ h))

theorem Wf.congr {r : TimerQueue} (hw : q.Wf held limbo n) (hh : r.heap = q.heap)
    (ht : r.timers = q.timers) (ha : r.activeTimers = q.activeTimers) : r.Wf held limbo n := by
  obtain ⟨rh, rt, ra, _, _, _, _, _⟩ := r
  cases hh
  cases ht
  cases ha
  exact ⟨hw.sizes, hw.timers, hw.active, hw.expired, hw.once, hw.waiting, hw.owned, hw.range,
    hw.numbered, hw.distinct⟩

theorem Wf.mono {m : Nat} (hw : q.Wf held limbo n) (h : n ≤ m) : q.Wf held limbo m :=
  ⟨hw.sizes, hw.timers, hw.active, hw.expired, hw.once, hw.waiting, hw.owned, hw.range,
    fun a t ht => (hw.numbered a t ht).trans h, hw.distinct⟩

end moves

/-! ### What the member functions do -/

theorem deref_eq {q : TimerQueue} {a : Nat} {t : Timer} (h : q.heap a = some t) :
    q.deref a = .ok t := by
  unfold deref
  rw [h]

theorem delete_eq {q : TimerQueue} {a : Nat} {t : Timer} (h : q.heap a = some t) :
    q.delete a = .ok { q with heap := Function.update q.heap a none } := by
  unfold delete
  rw [h]

section specs

variable {q : TimerQueue} {held : List Entry} {limbo : Set Nat} {n : Nat} {a : Nat} {t : Timer}

theorem insert_eq (hw : q.Wf held limbo n) (ha : a ∈ limbo) (ht : q.heap a = some t) :
    q.insert a = .ok (q.earliest t.expiration, q.inserted a t) := by
  obtain ⟨hf1, hf2⟩ := hw.fresh ha ht
  have hs : (q.timers.insert ⟨t.expiration, a⟩).size =
      (q.activeTimers.insert ⟨a, t.sequence⟩).size := (hw.insert ha ht).sizes
  simp only [insert, check_ok hw.sizes, ok_bind, deref_eq ht, check_ok hf1, check_ok hf2,
    check_ok hs]
  rfl

theorem addTimerInLoop_eq (hw : q.Wf held limbo n) (ha : a ∈ limbo) (ht : q.heap a = some t)
    (now : Int) :
    q.addTimerInLoop a now = .ok (if q.earliest t.expiration = true then
      (q.inserted a t).resetTimerfd t.expiration now else q.inserted a t) := by
  have hd : (q.inserted a t).deref a = .ok t := deref_eq ht
  simp only [addTimerInLoop, insert_eq hw ha ht, ok_bind, hd]
  split <;> rfl

theorem cancelInLoop_active (hw : q.Wf held limbo n) {id : ActiveTimer}
    (hid : id ∈ q.activeTimers) :
    ∃ t, q.heap id.timer = some t ∧ t.sequence = id.sequence ∧ q.Queued id.timer ∧
      q.cancelInLoop id =
        .ok { q.erased id.timer t with heap := Function.update q.heap id.timer none } := by
  obtain ⟨t, ht, hs, hm⟩ := hw.active id hid
  have hq : q.Queued id.timer := ⟨_, hm, rfl⟩
  have hid' : (⟨id.timer, t.sequence⟩ : ActiveTimer) = id := by rw [hs]
  have hsz := (hw.erase ht hq).sizes
  refine ⟨t, ht, hs, hq, ?_⟩
  have hdel : TimerQueue.delete { q with timers := q.timers.erase ⟨t.expiration, id.timer⟩ }
      id.timer = .ok { q with
        timers := q.timers.erase ⟨t.expiration, id.timer⟩
        heap := Function.update q.heap id.timer none } := delete_eq ht
  simp only [erased, hid'] at hsz
  simp only [cancelInLoop, check_ok hw.sizes, ok_bind, hid, if_true, deref_eq ht, check_ok hm,
    hdel, erased, hid']
  change (check _ TimerFault.sizes >>= fun _ => _) = _
  rw [check_ok hsz]
  rfl

theorem cancelInLoop_other (hw : q.Wf held limbo n) {id : ActiveTimer}
    (hid : ¬ id ∈ q.activeTimers) :
    q.cancelInLoop id = .ok (if q.callingExpiredTimers = true then
      { q with cancelingTimers := q.cancelingTimers.insert id } else q) := by
  simp only [cancelInLoop, check_ok hw.sizes, ok_bind, hid, if_false]
  split
  · simp only [pure_bind, check_ok hw.sizes, ok_bind]
    rfl
  · simp only [pure_bind, check_ok hw.sizes, ok_bind]
    rfl

/-- The loop erases exactly the entries of the expired timers from `activeTimers_`. -/
theorem eraseActive_spec (es : List Entry) (q : TimerQueue) (hn : (es.map Entry.timer).Nodup)
    (hl : ∀ e ∈ es, ∃ t, q.heap e.timer = some t ∧ ⟨e.timer, t.sequence⟩ ∈ q.activeTimers) :
    ∃ act, q.eraseActive es = .ok { q with activeTimers := act } ∧
      act.size + es.length = q.activeTimers.size ∧
      ∀ p, p ∈ act ↔ p ∈ q.activeTimers ∧
        ∀ e ∈ es, ∀ t, q.heap e.timer = some t → p ≠ ⟨e.timer, t.sequence⟩ := by
  induction es generalizing q with
  | nil => exact ⟨q.activeTimers, rfl, rfl, fun p => ⟨fun hp => ⟨hp, by simp⟩, fun hp => hp.1⟩⟩
  | cons e es ih =>
    obtain ⟨hne, hn'⟩ := List.nodup_cons.mp hn
    obtain ⟨t, ht, hm⟩ := hl e List.mem_cons_self
    have hl' : ∀ f ∈ es, ∃ u, q.heap f.timer = some u ∧
        ⟨f.timer, u.sequence⟩ ∈ q.activeTimers.erase ⟨e.timer, t.sequence⟩ := by
      intro f hf
      obtain ⟨u, hu, hmu⟩ := hl f (List.mem_cons_of_mem _ hf)
      refine ⟨u, hu, OrderedSet.mem_erase.mpr ⟨?_, hmu⟩⟩
      intro h
      have hfe : f.timer = e.timer := congrArg ActiveTimer.timer h
      exact hne (hfe ▸ List.mem_map_of_mem hf)
    obtain ⟨act, he, hs, hp⟩ :=
      ih { q with activeTimers := q.activeTimers.erase ⟨e.timer, t.sequence⟩ } hn' hl'
    refine ⟨act, ?_, ?_, ?_⟩
    · simp only [eraseActive, deref_eq ht, ok_bind, check_ok hm]
      exact he
    · have h1 := OrderedSet.size_erase hm
      simp only [List.length_cons]
      dsimp only at hs
      omega
    · intro p
      rw [hp p]
      dsimp only
      rw [OrderedSet.mem_erase]
      constructor
      · intro hx
        obtain ⟨⟨hpe, hpa⟩, hall⟩ := hx
        refine ⟨hpa, fun f hf u hu => ?_⟩
        rcases List.mem_cons.mp hf with rfl | hf
        · rw [ht] at hu
          cases hu
          exact hpe
        · exact hall f hf u hu
      · intro hx
        obtain ⟨hpa, hall⟩ := hx
        exact ⟨⟨hall e List.mem_cons_self t ht, hpa⟩,
          fun f hf u hu => hall f (List.mem_cons_of_mem _ hf) u hu⟩

theorem Wf.mem_before (hw : q.Wf held limbo n) {now : Int} {e : Entry} :
    e ∈ q.timers.before (sentry now) ↔ e ∈ q.timers ∧ e.expiration ≤ now := by
  rw [OrderedSet.mem_before]
  refine and_congr_right fun he => ?_
  obtain ⟨t, ht, _⟩ := hw.timers e he
  exact Entry.lt_sentry (hw.range _ t ht)

theorem Wf.mem_notBefore (hw : q.Wf held limbo n) {now : Int} {e : Entry} :
    e ∈ q.timers.notBefore (sentry now) ↔ e ∈ q.timers ∧ now < e.expiration := by
  rw [OrderedSet.mem_notBefore]
  refine and_congr_right fun he => ?_
  obtain ⟨t, ht, _⟩ := hw.timers e he
  rw [sentry, Entry.lt_sentry (hw.range _ t ht)]
  exact not_le

theorem Wf.before_once (hw : q.Wf held limbo n) (now : Int) :
    ((q.timers.before (sentry now)).map Entry.timer).Nodup := by
  have hnd : (q.timers.before (sentry now)).Nodup :=
    (OrderedSet.before_increasing _ _).imp ne_of_lt
  refine hnd.map_on ?_
  intro e he f hf h
  exact hw.entry_unique (hw.mem_before.mp he).1 (hw.mem_before.mp hf).1 h

/-- What `getExpired` leaves: later timers in both sets, the others in the vector. -/
theorem getExpired_spec (hw : q.Wf [] limbo n) (now : Int) :
    ∃ act, q.getExpired now = .ok (q.timers.before (sentry now),
        { q with timers := q.timers.notBefore (sentry now), activeTimers := act }) ∧
      { q with timers := q.timers.notBefore (sentry now), activeTimers := act }.Wf
        (q.timers.before (sentry now)) limbo n := by
  have hlive : ∀ e ∈ q.timers.before (sentry now), ∃ t, q.heap e.timer = some t ∧
      ⟨e.timer, t.sequence⟩ ∈ q.activeTimers := by
    intro e he
    obtain ⟨t, ht, _, hm⟩ := hw.timers e (hw.mem_before.mp he).1
    exact ⟨t, ht, hm⟩
  obtain ⟨act, he, hs, hp⟩ := eraseActive_spec (q.timers.before (sentry now))
    { q with timers := q.timers.notBefore (sentry now) } (hw.before_once now) hlive
  have hend : endAfter now (q.timers.notBefore (sentry now)).first = true := by
    cases hf : (q.timers.notBefore (sentry now)).first with
    | none => rfl
    | some e => exact decide_eq_true (hw.mem_notBefore.mp (OrderedSet.first_spec hf).1).2
  have hsizes : (q.timers.notBefore (sentry now)).size = act.size := by
    have h1 := OrderedSet.size_notBefore q.timers (sentry now)
    have h2 := hw.sizes
    dsimp only at hs
    omega
  have hqueued : ∀ a, TimerQueue.Queued { q with
      timers := q.timers.notBefore (sentry now), activeTimers := act } a → q.Queued a := by
    intro a hx
    obtain ⟨e, he, rfl⟩ := hx
    exact ⟨e, (hw.mem_notBefore.mp he).1, rfl⟩
  refine ⟨act, ?_, hsizes, ?_, ?_, ?_, hw.before_once now, ?_, ?_, hw.range, hw.numbered,
    hw.distinct⟩
  · simp only [getExpired, check_ok hw.sizes, ok_bind, check_ok hend, he, check_ok hsizes]
    rfl
  · intro e he
    obtain ⟨hm, hlt⟩ := hw.mem_notBefore.mp he
    obtain ⟨t, ht, hx, ha⟩ := hw.timers e hm
    refine ⟨t, ht, hx, (hp _).mpr ⟨ha, ?_⟩⟩
    intro f hf u hu h
    have hfe : e.timer = f.timer := congrArg ActiveTimer.timer h
    have heq := hw.entry_unique hm (hw.mem_before.mp hf).1 hfe
    have := (hw.mem_before.mp hf).2
    rw [← heq] at this
    omega
  · intro p hpa
    obtain ⟨ha, hne⟩ := (hp p).mp hpa
    obtain ⟨t, ht, hx, hm⟩ := hw.active p ha
    refine ⟨t, ht, hx, hw.mem_notBefore.mpr ⟨hm, ?_⟩⟩
    by_contra hle
    have hb := hw.mem_before.mpr ⟨hm, not_lt.mp hle⟩
    exact hne _ hb t ht (by cases p; simp_all)
  · intro e he
    obtain ⟨hm, hle⟩ := hw.mem_before.mp he
    obtain ⟨t, ht, hx, _⟩ := hw.timers e hm
    refine ⟨?_, t, ht, hx⟩
    intro hx
    obtain ⟨f, hf, hfe⟩ := hx
    have heq := hw.entry_unique (hw.mem_notBefore.mp hf).1 hm hfe
    have := (hw.mem_notBefore.mp hf).2
    rw [heq] at this
    omega
  · intro a ha
    obtain ⟨hq, _, hl⟩ := hw.waiting a ha
    refine ⟨fun h => hq (hqueued a h), ?_, hl⟩
    intro hm
    obtain ⟨e, he, rfl⟩ := List.mem_map.mp hm
    exact hq ⟨e, (hw.mem_before.mp he).1, rfl⟩
  · intro a t ht
    rcases hw.owned a t ht with ⟨e, he, rfl⟩ | h | h
    · by_cases hle : e.expiration ≤ now
      · exact .inr (.inl (List.mem_map_of_mem (hw.mem_before.mpr ⟨he, hle⟩)))
      · exact .inl ⟨e, hw.mem_notBefore.mpr ⟨he, not_le.mp hle⟩, rfl⟩
    · cases h
    · exact .inr (.inr h)

/- What becomes of an expired timer. -/
def refreshed (q : TimerQueue) (now : Int) (a : Nat) (t : Timer) : Option Timer :=
  if t.interval.repeats = true ∧ ¬ ⟨a, t.sequence⟩ ∈ q.cancelingTimers then some (t.restart now)
  else none

structure Refreshed (q r : TimerQueue) (now : Int) (es : List Entry) : Prop where
  frame : r = { q with heap := r.heap, timers := r.timers, activeTimers := r.activeTimers }
  later : ∀ e, e ∈ r.timers → e ∈ q.timers ∨ now ≤ e.expiration
  kept : ∀ e, e ∈ q.timers → e ∈ r.timers
  other : ∀ a, a ∉ es.map Entry.timer → r.heap a = q.heap a
  each : ∀ e ∈ es, ∀ t, q.heap e.timer = some t → r.heap e.timer = q.refreshed now e.timer t

theorem Refreshed.canceling {q r : TimerQueue} {now : Int} {es : List Entry}
    (h : Refreshed q r now es) : r.cancelingTimers = q.cancelingTimers := by
  rw [h.frame]

theorem resetOne_spec {e : Entry} {es : List Entry} (hw : q.Wf (e :: es) limbo n) (now : Int) :
    ∃ r, q.resetOne now e = .ok r ∧ r.Wf es limbo n ∧ Refreshed q r now [e] := by
  obtain ⟨_, t, ht, _⟩ := hw.expired e List.mem_cons_self
  have hu : q.Wf es (Insert.insert e.timer limbo) n := hw.unhold
  have hin : e.timer ∈ Insert.insert e.timer limbo := Set.mem_insert _ _
  have hnot : e.timer ∉ limbo := fun h => (hw.waiting e.timer h).2.1 List.mem_cons_self
  have hback : Insert.insert e.timer limbo \ {e.timer} = limbo :=
    Set.insert_sdiff_self_of_notMem hnot
  have hne : ∀ (x : Option Timer) (a : Nat), a ∉ [e].map Entry.timer →
      Function.update q.heap e.timer x a = q.heap a := by
    intro x a ha
    exact Function.update_of_ne (fun h => ha (by simp [h])) _ _
  by_cases hr : t.interval.repeats = true ∧ ¬ ⟨e.timer, t.sequence⟩ ∈ q.cancelingTimers
  · have hw1 := hu.restart hin ht (t.restart_sequence now)
    have ht1 : Function.update q.heap e.timer (some (t.restart now)) e.timer =
        some (t.restart now) := Function.update_self ..
    have hw2 := hw1.insert hin ht1
    rw [hback] at hw2
    refine ⟨_, ?_, hw2, ⟨rfl, ?_, ?_, hne _, ?_⟩⟩
    · simp only [resetOne, deref_eq ht, ok_bind, hr, not_false_eq_true, and_self, if_true,
        insert_eq hw1 hin ht1]
      rfl
    · intro f hf
      rcases OrderedSet.mem_insert.mp hf with hf | hf
      · rw [hf]
        exact .inr (t.restart_later now hr.1)
      · exact .inl hf
    · intro f hf
      exact OrderedSet.mem_insert.mpr (.inr hf)
    · intro f hf u hu'
      obtain rfl := List.mem_singleton.mp hf
      rw [ht] at hu'
      cases hu'
      rw [refreshed, if_pos hr]
      exact ht1
  · have hw1 := hu.delete hin
    rw [hback] at hw1
    refine ⟨_, ?_, hw1, ⟨rfl, fun f hf => .inl hf, fun f hf => hf, hne _, ?_⟩⟩
    · simp only [resetOne, deref_eq ht, ok_bind, hr, if_false, delete_eq ht]
    · intro f hf u hu'
      obtain rfl := List.mem_singleton.mp hf
      rw [ht] at hu'
      cases hu'
      rw [refreshed, if_neg hr]
      exact Function.update_self ..

theorem resetAll_spec (es : List Entry) (q : TimerQueue) (hw : q.Wf es limbo n) (now : Int) :
    ∃ r, q.resetAll now es = .ok r ∧ r.Wf [] limbo n ∧ Refreshed q r now es := by
  induction es generalizing q with
  | nil =>
    refine ⟨q, rfl, hw, ⟨rfl, fun e he => .inl he, fun e he => he, fun a _ => rfl, ?_⟩⟩
    intro e he
    cases he
  | cons e es ih =>
    obtain ⟨r, hr, hwr, hone⟩ := resetOne_spec hw now
    obtain ⟨p, hp, hwp, hall⟩ := ih r hwr
    have hnot : e.timer ∉ es.map Entry.timer := (List.nodup_cons.mp hw.once).1
    refine ⟨p, ?_, hwp, ⟨?_, ?_, ?_, ?_, ?_⟩⟩
    · simp only [resetAll, hr, ok_bind, hp]
    · rw [hall.frame, hone.frame]
    · intro f hf
      rcases hall.later f hf with h | h
      · exact hone.later f h
      · exact .inr h
    · intro f hf
      exact hall.kept f (hone.kept f hf)
    · intro a ha
      simp only [List.map_cons, List.mem_cons, not_or] at ha
      rw [hall.other a ha.2, hone.other a (by simpa using ha.1)]
    · intro f hf t ht
      rcases List.mem_cons.mp hf with hfe | hf
      · rw [hfe] at ht ⊢
        rw [hall.other _ hnot]
        exact hone.each e List.mem_cons_self t ht
      · have hne : f.timer ∉ [e].map Entry.timer := by
          intro h
          have hfe : f.timer = e.timer := by simpa using h
          exact hnot (hfe ▸ List.mem_map_of_mem hf)
        rw [← hone.other _ hne] at ht
        rw [hall.each f hf t ht, refreshed, refreshed, hone.canceling]

def next (q : TimerQueue) : Int :=
  match q.timers.first with
  | none => Timestamp.invalid
  | some e => e.expiration

theorem nextExpire_eq (hw : q.Wf held limbo n) : q.nextExpire = .ok q.next := by
  unfold nextExpire next
  cases hf : q.timers.first with
  | none => rfl
  | some e =>
    obtain ⟨t, ht, hx, _⟩ := hw.timers e (OrderedSet.first_spec hf).1
    simp only [deref_eq ht, ok_bind, ← hx]
    rfl

def rearmed (r : TimerQueue) (clock : Int) : TimerQueue :=
  if Timestamp.valid r.next = true then r.resetTimerfd r.next clock else r

theorem handleReadEnd_spec {es : List Entry} (hw : q.Wf es limbo n) (now clock : Int) :
    ∃ r, q.handleReadEnd es now clock = .ok (r.rearmed clock) ∧ r.Wf [] limbo n ∧
      Refreshed { q with callingExpiredTimers := false } r now es := by
  have hw0 : { q with callingExpiredTimers := false }.Wf es limbo n := hw.congr rfl rfl rfl
  obtain ⟨r, hr, hwr, hall⟩ := resetAll_spec es _ hw0 now
  refine ⟨r, ?_, hwr, hall⟩
  simp only [handleReadEnd, reset, hr, ok_bind, nextExpire_eq hwr]
  rfl

theorem readTimerfd_frame (q : TimerQueue) (now : Int) :
    q.readTimerfd now = { q with timerfd := (q.readTimerfd now).timerfd } := by
  unfold readTimerfd
  split
  · split <;> rfl
  · rfl

theorem handleReadBegin_spec (hw : q.Wf [] limbo n) (now : Int) :
    ∃ act, q.handleReadBegin now = .ok (q.timers.before (sentry now),
        { q with
          timers := q.timers.notBefore (sentry now)
          activeTimers := act
          callingExpiredTimers := true
          cancelingTimers := .empty
          timerfd := (q.readTimerfd now).timerfd }) ∧
      { q with
        timers := q.timers.notBefore (sentry now)
        activeTimers := act
        callingExpiredTimers := true
        cancelingTimers := .empty
        timerfd := (q.readTimerfd now).timerfd }.Wf (q.timers.before (sentry now)) limbo n := by
  have hw0 : (q.readTimerfd now).Wf [] limbo n := by
    rw [readTimerfd_frame]
    exact hw.congr rfl rfl rfl
  obtain ⟨act, he, hwe⟩ := getExpired_spec hw0 now
  rw [readTimerfd_frame] at he hwe
  refine ⟨act, ?_, hwe.congr rfl rfl rfl⟩
  rw [handleReadBegin, readTimerfd_frame, he]
  rfl

end specs

end TimerQueue
end TstMuduo.Net
