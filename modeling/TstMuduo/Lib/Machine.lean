import Mathlib.Data.List.Basic

/-!
# Machines with assertions

A machine takes labelled actions. In a given state an action may be impossible
(`none`), may trip an assertion (`some (.error e)`) or may lead to a next state
(`some (.ok t)`). The rules below turn facts about one action into facts about
every run, with or without a guard that restricts which actions a run takes in
which states.
-/

namespace TstMuduo.Lib

variable {σ τ α β ε : Type}

/-- An `assert`: the computation goes on only where `p` holds. -/
def check (p : Prop) [Decidable p] (e : ε) : Except ε Unit :=
  if p then .ok () else .error e

theorem check_ok {p : Prop} [Decidable p] {e : ε} (h : p) : check p e = .ok () :=
  if_pos h

theorem bind_eq_ok {x : Except ε α} {f : α → Except ε β} {b : β} (h : x >>= f = .ok b) :
    ∃ a, x = .ok a ∧ f a = .ok b := by
  cases x with
  | error e => cases h
  | ok a => exact ⟨a, rfl, h⟩

theorem map_eq_ok {x : Except ε α} {f : α → β} {b : β} (h : x.map f = .ok b) :
    ∃ a, x = .ok a ∧ f a = b := by
  cases x with
  | error e => cases h
  | ok a => exact ⟨a, rfl, Except.ok.inj h⟩

theorem ok_bind (a : α) (f : α → Except ε β) : (Except.ok a >>= f) = f a := rfl

structure Machine (σ α ε : Type) where
  init : σ
  step : σ → α → Option (Except ε σ)

namespace Machine

/-- The run of a list of actions; it ends at the first assertion that fails. -/
def run (m : Machine σ α ε) : σ → List α → Option (Except ε σ)
  | s, [] => some (.ok s)
  | s, a :: as =>
    match m.step s a with
    | none => none
    | some (.error e) => some (.error e)
    | some (.ok t) => run m t as

/-- Every action of the run from `s` is taken in a state where `G` allows it. -/
def Along (m : Machine σ α ε) (G : σ → α → Prop) : σ → List α → Prop
  | _, [] => True
  | s, a :: as => G s a ∧ ∀ t, m.step s a = some (.ok t) → Along m G t as

/- A test that the run of `as` ends, without a failed assertion, in a state with `p`. -/
def runsTo (m : Machine σ α ε) (s : σ) (as : List α) (p : σ → Bool) : Bool :=
  match m.run s as with
  | some (.ok t) => p t
  | _ => false

/- A test that the run of `as` ends with the failed assertion `e`. -/
def failsWith [DecidableEq ε] (m : Machine σ α ε) (s : σ) (as : List α) (e : ε) : Bool :=
  match m.run s as with
  | some (.error f) => decide (f = e)
  | _ => false

/- A guard that can be decided can be decided along a run. -/
instance decidableAlong (m : Machine σ α ε) (G : σ → α → Prop) [∀ s a, Decidable (G s a)] :
    (s : σ) → (as : List α) → Decidable (m.Along G s as)
  | _, [] => isTrue trivial
  | s, a :: as =>
    match h : m.step s a with
    | some (.ok t) =>
      have := decidableAlong m G t as
      decidable_of_iff (G s a ∧ m.Along G t as)
        ⟨fun hg => ⟨hg.1, fun u hu => by cases h.symm.trans hu; exact hg.2⟩,
          fun hg => ⟨hg.1, hg.2 t h⟩⟩
    | some (.error e) =>
      decidable_of_iff (G s a)
        ⟨fun hg => ⟨hg, fun u hu => by cases h.symm.trans hu⟩, fun hg => hg.1⟩
    | none =>
      decidable_of_iff (G s a)
        ⟨fun hg => ⟨hg, fun u hu => by cases h.symm.trans hu⟩, fun hg => hg.1⟩

variable {m : Machine σ α ε} {s t : σ} {a : α} {as bs : List α}

theorem run_cons_ok (h : m.run s (a :: as) = some (.ok t)) :
    ∃ u, m.step s a = some (.ok u) ∧ m.run u as = some (.ok t) := by
  unfold run at h
  split at h
  · cases h
  · cases h
  next u hu => exact ⟨u, hu, h⟩

theorem run_append_ok (h : m.run s (as ++ bs) = some (.ok t)) :
    ∃ u, m.run s as = some (.ok u) ∧ m.run u bs = some (.ok t) := by
  induction as generalizing s with
  | nil => exact ⟨s, rfl, h⟩
  | cons a as ih =>
    obtain ⟨v, hv, hr⟩ := run_cons_ok h
    obtain ⟨u, hu, ht⟩ := ih hr
    exact ⟨u, by simp only [run, hv, hu], ht⟩

theorem run_append (h : m.run s as = some (.ok t)) (bs : List α) :
    m.run s (as ++ bs) = m.run t bs := by
  induction as generalizing s with
  | nil =>
    cases h
    rfl
  | cons a as ih =>
    obtain ⟨u, hu, hr⟩ := run_cons_ok h
    rw [List.cons_append]
    simp only [run, hu]
    exact ih hr

theorem run_singleton_ok (h : m.run s [a] = some (.ok t)) : m.step s a = some (.ok t) := by
  obtain ⟨u, hu, hr⟩ := run_cons_ok h
  cases hr
  exact hu

theorem exists_of_runsTo {p : σ → Bool} (h : m.runsTo s as p = true) :
    ∃ t, m.run s as = some (.ok t) ∧ p t = true := by
  unfold runsTo at h
  split at h
  next t ht => exact ⟨t, ht, h⟩
  · cases h

theorem run_of_failsWith [DecidableEq ε] {e : ε} (h : m.failsWith s as e = true) :
    m.run s as = some (.error e) := by
  unfold failsWith at h
  split at h
  next f hf => rw [hf, of_decide_eq_true h]
  · cases h

/-- What one allowed action preserves, the whole run preserves. -/
theorem run_inv {G : σ → α → Prop} {P : σ → Prop}
    (hstep : ∀ s a t, P s → G s a → m.step s a = some (.ok t) → P t)
    (hs : P s) (hg : m.Along G s as) (h : m.run s as = some (.ok t)) : P t := by
  induction as generalizing s with
  | nil => cases h; exact hs
  | cons a as ih =>
    obtain ⟨u, hu, hr⟩ := run_cons_ok h
    exact ih (hstep s a u hs hg.1 hu) (hg.2 u hu) hr

theorem run_ok {G : σ → α → Prop} {P : σ → Prop}
    (hstep : ∀ s a x, P s → G s a → m.step s a = some x → ∃ t, x = .ok t ∧ P t)
    (hs : P s) (hg : m.Along G s as) {x : Except ε σ} (h : m.run s as = some x) :
    ∃ t, x = .ok t ∧ P t := by
  induction as generalizing s with
  | nil => cases h; exact ⟨s, rfl, hs⟩
  | cons a as ih =>
    unfold run at h
    split at h
    · cases h
    next e he =>
      obtain ⟨t, ht, _⟩ := hstep s a _ hs hg.1 he
      cases ht
    next u hu =>
      obtain ⟨t, ht, hp⟩ := hstep s a _ hs hg.1 hu
      cases ht
      exact ih hp (hg.2 u hu) h

theorem run_always {G : σ → α → Prop} {P : σ → Prop}
    (hstep : ∀ s a x, P s → G s a → m.step s a = some x → ∃ t, x = .ok t ∧ P t)
    (hs : P s) (hg : m.Along G s as) {x : Except ε σ} (h : m.run s as = some x) :
    ∀ pre, pre <+: as → ∃ t, m.run s pre = some (.ok t) ∧ P t := by
  induction as generalizing s with
  | nil =>
    intro pre hpre
    rw [List.prefix_nil.mp hpre]
    exact ⟨s, rfl, hs⟩
  | cons a as ih =>
    intro pre hpre
    cases pre with
    | nil => exact ⟨s, rfl, hs⟩
    | cons b pre =>
      obtain ⟨rfl, hrest⟩ := List.cons_prefix_cons.mp hpre
      unfold run at h
      split at h
      · cases h
      next e he =>
        obtain ⟨t, ht, _⟩ := hstep s b _ hs hg.1 he
        cases ht
      next u hu =>
        obtain ⟨t, ht, hp⟩ := hstep s b _ hs hg.1 hu
        cases ht
        obtain ⟨v, hv, hpv⟩ := ih hp (hg.2 u hu) h pre hrest
        exact ⟨v, by simp only [run, hu, hv], hpv⟩

theorem along_of_forall {G : σ → α → Prop} (m : Machine σ α ε) (s : σ) (as : List α)
    (h : ∀ a ∈ as, ∀ s, G s a) : m.Along G s as := by
  induction as generalizing s with
  | nil => trivial
  | cons a as ih =>
    refine ⟨h a List.mem_cons_self s, fun t _ => ih t ?_⟩
    intro b hb
    exact h b (List.mem_cons_of_mem _ hb)

theorem run_inv_all {P : σ → Prop} (hstep : ∀ s a t, P s → m.step s a = some (.ok t) → P t)
    (hs : P s) (h : m.run s as = some (.ok t)) : P t :=
  run_inv (G := fun _ _ => True) (fun s a t hp _ hst => hstep s a t hp hst) hs
    (along_of_forall m s as fun _ _ _ => trivial) h

theorem run_ok_all {P : σ → Prop}
    (hstep : ∀ s a x, P s → m.step s a = some x → ∃ t, x = .ok t ∧ P t)
    (hs : P s) {x : Except ε σ} (h : m.run s as = some x) : ∃ t, x = .ok t ∧ P t :=
  run_ok (G := fun _ _ => True) (fun s a x hp _ hst => hstep s a x hp hst) hs
    (along_of_forall m s as fun _ _ _ => trivial) h

theorem run_exact_of {A : α → Prop} {G : σ → α → Prop} {P Q : σ → Prop}
    (hstep : ∀ s a x, P s → A a → m.step s a = some x →
      ∃ t, x = .ok t ∧ P t ∧ (Q t ↔ Q s ∧ G s a))
    (hs : P s) (hA : ∀ a ∈ as, A a) {x : Except ε σ} (h : m.run s as = some x) :
    ∃ t, x = .ok t ∧ P t ∧ (Q t ↔ Q s ∧ m.Along G s as) := by
  induction as generalizing s with
  | nil => cases h; exact ⟨s, rfl, hs, (and_iff_left trivial).symm⟩
  | cons a as ih =>
    have ha := hA a List.mem_cons_self
    unfold run at h
    split at h
    · cases h
    next e he =>
      obtain ⟨t, ht, _⟩ := hstep s a _ hs ha he
      cases ht
    next u hu =>
      obtain ⟨v, hv, hp, hq⟩ := hstep s a _ hs ha hu
      cases hv
      obtain ⟨t, rfl, ht, hqt⟩ := ih hp (fun b hb => hA b (List.mem_cons_of_mem _ hb)) h
      refine ⟨t, rfl, ht, ?_⟩
      have hal : m.Along G s (a :: as) ↔ G s a ∧ m.Along G u as := by
        constructor
        · intro hg
          exact ⟨hg.1, hg.2 u hu⟩
        · intro hg
          exact ⟨hg.1, fun v hv => by cases hu.symm.trans hv; exact hg.2⟩
      rw [hqt, hq, hal, and_assoc]

theorem run_exact {G : σ → α → Prop} {P Q : σ → Prop}
    (hstep : ∀ s a x, P s → m.step s a = some x → ∃ t, x = .ok t ∧ P t ∧ (Q t ↔ Q s ∧ G s a))
    (hs : P s) {x : Except ε σ} (h : m.run s as = some x) :
    ∃ t, x = .ok t ∧ P t ∧ (Q t ↔ Q s ∧ m.Along G s as) :=
  run_exact_of (A := fun _ => True) (fun s a x hp _ hx => hstep s a x hp hx) hs
    (fun _ _ => trivial) h

theorem run_ok_iff {G : σ → α → Prop} {P : σ → Prop}
    (hgood : ∀ s a, P s → G s a → ∃ t, m.step s a = some (.ok t) ∧ P t)
    (hbad : ∀ s a t, P s → m.step s a = some (.ok t) → G s a) (hs : P s) (as : List α) :
    (∃ t, m.run s as = some (.ok t)) ↔ m.Along G s as := by
  induction as generalizing s with
  | nil => exact ⟨fun _ => trivial, fun _ => ⟨s, rfl⟩⟩
  | cons a as ih =>
    constructor
    · intro h
      obtain ⟨t, ht⟩ := h
      obtain ⟨u, hu, hr⟩ := run_cons_ok ht
      have hg := hbad s a u hs hu
      obtain ⟨v, hv, hp⟩ := hgood s a hs hg
      cases hu.symm.trans hv
      refine ⟨hg, fun w hw => ?_⟩
      cases hu.symm.trans hw
      exact (ih hp).mp ⟨t, hr⟩
    · intro h
      obtain ⟨u, hu, hp⟩ := hgood s a hs h.1
      obtain ⟨t, ht⟩ := (ih hp).mpr (h.2 u hu)
      exact ⟨t, by simp only [run, hu, ht]⟩

theorem run_good {G : σ → α → Prop} {P : σ → Prop}
    (hgood : ∀ s a, P s → G s a → ∃ t, m.step s a = some (.ok t) ∧ P t)
    (hs : P s) (hg : m.Along G s as) : ∃ t, m.run s as = some (.ok t) ∧ P t := by
  induction as generalizing s with
  | nil => exact ⟨s, rfl, hs⟩
  | cons a as ih =>
    obtain ⟨u, hu, hp⟩ := hgood s a hs hg.1
    obtain ⟨t, ht, hpt⟩ := ih hp (hg.2 u hu)
    exact ⟨t, by simp only [run, hu, ht], hpt⟩

theorem run_length_le {μ : σ → Nat} {p : α → Bool} {c : Nat}
    (hstep : ∀ s a t, m.step s a = some (.ok t) → 1 + μ t ≤ μ s + if p a then c else 0)
    (h : m.run s as = some (.ok t)) : as.length + μ t ≤ μ s + c * as.countP p := by
  induction as generalizing s with
  | nil =>
    cases h
    exact Nat.le_of_eq (Nat.zero_add _)
  | cons a as ih =>
    obtain ⟨u, hu, hr⟩ := run_cons_ok h
    have hone := hstep s a u hu
    have hrest := ih hr
    cases hp : p a with
    | true =>
      rw [List.countP_cons_of_pos hp, List.length_cons, Nat.mul_add, Nat.mul_one]
      rw [if_pos hp] at hone
      omega
    | false =>
      have hn : ¬ p a = true := Bool.eq_false_iff.mp hp
      rw [List.countP_cons_of_neg hn, List.length_cons]
      rw [if_neg hn] at hone
      omega

theorem along_and {G H : σ → α → Prop} (hg : m.Along G s as) (hh : m.Along H s as) :
    m.Along (fun s a => G s a ∧ H s a) s as := by
  induction as generalizing s with
  | nil => trivial
  | cons a as ih => exact ⟨⟨hg.1, hh.1⟩, fun t ht => ih (hg.2 t ht) (hh.2 t ht)⟩

theorem run_along_iff {G : σ → α → Prop} {P Q : σ → Prop} (hpq : ∀ s, P s → Q s)
    (hgood : ∀ s a t, P s → G s a → m.step s a = some (.ok t) → P t)
    (hbad : ∀ s a t, P s → ¬ G s a → m.step s a = some (.ok t) → ¬ Q t) (hs : P s)
    (h : m.run s as = some (.ok t)) :
    (∀ pre, pre <+: as → ∃ u, m.run s pre = some (.ok u) ∧ Q u) ↔ m.Along G s as := by
  induction as generalizing s with
  | nil =>
    refine ⟨fun _ => trivial, fun _ pre hpre => ?_⟩
    rw [List.prefix_nil.mp hpre]
    exact ⟨s, rfl, hpq s hs⟩
  | cons a as ih =>
    obtain ⟨v, hv, hr⟩ := run_cons_ok h
    have hcons : ∀ bs, m.run s (a :: bs) = m.run v bs := by
      intro bs
      simp only [run, hv]
    constructor
    · intro hall
      obtain ⟨u, hu, hq⟩ := hall [a] (List.prefix_append [a] as)
      cases hv.symm.trans (run_singleton_ok hu)
      have hg : G s a := by
        by_contra hng
        exact hbad s a v hs hng hv hq
      refine ⟨hg, fun w hw => ?_⟩
      cases hv.symm.trans hw
      refine (ih (hgood s a v hs hg hv) hr).mp ?_
      intro pre hpre
      obtain ⟨w, hw, hqw⟩ := hall (a :: pre) ((List.prefix_cons_inj a).mpr hpre)
      exact ⟨w, by rw [← hcons]; exact hw, hqw⟩
    · intro hal pre hpre
      cases pre with
      | nil => exact ⟨s, rfl, hpq s hs⟩
      | cons b pre =>
        obtain ⟨rfl, hpre'⟩ := List.cons_prefix_cons.mp hpre
        rw [hcons]
        exact (ih (hgood s b v hs hal.1 hv) hr).mpr (hal.2 v hv) pre hpre'

theorem run_always_iff {G : σ → α → Prop} {P Q : σ → Prop} (hpq : ∀ s, P s → Q s)
    (hgood : ∀ s a x, P s → G s a → m.step s a = some x → ∃ t, x = .ok t ∧ P t)
    (hbad : ∀ s a t, P s → ¬ G s a → m.step s a = some (.ok t) → ¬ Q t) (hs : P s)
    {x : Except ε σ} (h : m.run s as = some x) :
    (∀ pre, pre <+: as → ∃ t, m.run s pre = some (.ok t) ∧ Q t) ↔ m.Along G s as := by
  have hkeep : ∀ s a t, P s → G s a → m.step s a = some (.ok t) → P t := by
    intro s a t hp hg hst
    obtain ⟨u, hu, hpu⟩ := hgood s a _ hp hg hst
    cases hu
    exact hpu
  constructor
  · intro hall
    obtain ⟨t, ht, _⟩ := hall as (List.prefix_refl as)
    exact (run_along_iff hpq hkeep hbad hs ht).mp hall
  · intro hal
    obtain ⟨t, rfl, _⟩ := run_ok hgood hs hal h
    exact (run_along_iff hpq hkeep hbad hs h).mpr hal

end Machine

end TstMuduo.Lib
