import TstMuduo.Lib.Machine
import Mathlib.Data.BitVec

/-!
# Sequence ids (cthrift/cthrift_tbinary_protocol.cc)

`writeMessageBegin` takes an id from a counter that all threads share. The thread that gets the
largest `int32_t` sets the counter back to 1, in a second atomic operation, and so does a
constructor that has found it 0.
-/

namespace TstMuduo.Cthrift
open TstMuduo.Lib

/- `std::numeric_limits<int32_t>::max()`. -/
def int32Max : BitVec 32 := 0x7fffffff

/- A thread between two operations on the counter: in a constructor that has read 0, or in a
`writeMessageBegin` that has got the largest value. -/
inductive SeqPc where
  | idle
  | constructing
  | wrapping
  deriving DecidableEq, Repr

/-- The counter, and the ids that were given out since the last reset and in each of the times
before it, the newest ones first. -/
structure SeqCounter where
  g_atomic_i32_seq_id : BitVec 32
  threads : Nat → SeqPc
  issued : List (BitVec 32)
  before : List (List (BitVec 32))

namespace SeqCounter

def new : SeqCounter where
  g_atomic_i32_seq_id := 0
  threads := fun _ => .idle
  issued := []
  before := []

def setPc (s : SeqCounter) (t : Nat) (pc : SeqPc) : SeqCounter :=
  { s with threads := Function.update s.threads t pc }

/- `getAndSet(1)`; `ids` is what it gives out. -/
def reset (s : SeqCounter) (ids : List (BitVec 32)) : SeqCounter :=
  { s with
    g_atomic_i32_seq_id := 1
    issued := ids
    before := s.issued :: s.before }

/- `incrementAndGet`, which wraps around, and the test that follows it. -/
def increment (s : SeqCounter) (t : Nat) : SeqCounter :=
  let i32_seq_id := s.g_atomic_i32_seq_id + 1
  let s := { s with g_atomic_i32_seq_id := i32_seq_id }
  if i32_seq_id = int32Max then s.setPc t .wrapping
  else { s with issued := i32_seq_id :: s.issued }

/- The atomic operations: the two of the constructor (`cthrift_tbinary_protocol.h:39`) and the two
of either `writeMessageBegin` (`cthrift_tbinary_protocol.cc:70`, `117`). -/
inductive Act where
  | constructorGet (t : Nat)
  | constructorSet (t : Nat)
  | incrementAndGet (t : Nat)
  | getAndSet (t : Nat)
  deriving DecidableEq, Repr

def step (s : SeqCounter) : Act → Option SeqCounter
  | .constructorGet t =>
    if s.threads t = .idle then
      some (if s.g_atomic_i32_seq_id = 0 then s.setPc t .constructing else s)
    else none
  | .constructorSet t =>
    if s.threads t = .constructing then some ((s.reset []).setPc t .idle) else none
  | .incrementAndGet t => if s.threads t = .idle then some (s.increment t) else none
  | .getAndSet t =>
    if s.threads t = .wrapping then some ((s.reset [1]).setPc t .idle) else none

def machine : Machine SeqCounter Act Empty where
  init := new
  step s a := (s.step a).map .ok

/- An id that the receiver accepts, below the largest value. -/
def Usable (id : BitVec 32) : Prop := 1 ≤ id.toInt ∧ id.toInt ≤ 2 ^ 31 - 2

/-- Every id is usable, and between two resets none is given out twice. -/
def Sound (s : SeqCounter) : Prop :=
  ∀ ids ∈ s.issued :: s.before, ids.Nodup ∧ ∀ id ∈ ids, Usable id

/-- No thread takes an id while the counter is at its largest value. -/
def Below (s : SeqCounter) : Act → Prop
  | .incrementAndGet _ => s.g_atomic_i32_seq_id ≠ int32Max
  | _ => True

variable {s t : SeqCounter} {i : Nat}

theorem toInt_of_le {id : BitVec 32} (h : id.toNat ≤ 2 ^ 31 - 1) : id.toInt = id.toNat := by
  rw [BitVec.toInt_eq_toNat_cond, if_pos (by omega)]

theorem usable_of_range {id : BitVec 32} (h1 : 1 ≤ id.toNat) (h2 : id.toNat ≤ 2 ^ 31 - 2) :
    Usable id := by
  rw [Usable, toInt_of_le (by omega)]
  omega

/-- The counter is not negative, and no id since the last reset is above it. -/
structure Inv (s : SeqCounter) : Prop where
  sound : s.Sound
  counter : s.g_atomic_i32_seq_id.toNat ≤ 2 ^ 31 - 1
  above : ∀ id ∈ s.issued, id.toNat ≤ s.g_atomic_i32_seq_id.toNat

theorem inv_new : new.Inv where
  sound := by
    intro ids hids
    rw [List.mem_singleton.mp hids]
    exact ⟨List.nodup_nil, fun id hid => by cases hid⟩
  counter := by decide
  above := fun id hid => by cases hid

theorem Inv.setPc (h : s.Inv) (i : Nat) (pc : SeqPc) : (s.setPc i pc).Inv :=
  ⟨h.sound, h.counter, h.above⟩

theorem Inv.reset (h : s.Inv) {ids : List (BitVec 32)} (hids : ids = [] ∨ ids = [1]) :
    (s.reset ids).Inv := by
  have hone : ∀ id ∈ ids, id = 1 := by
    rcases hids with rfl | rfl
    · intro id hid
      cases hid
    · intro id hid
      exact List.mem_singleton.mp hid
  constructor
  · intro ids' hmem
    rcases List.mem_cons.mp hmem with rfl | hold
    · constructor
      · rcases hids with rfl | rfl
        · exact List.nodup_nil
        · exact List.nodup_singleton 1
      · intro id hid
        rw [hone id hid]
        exact usable_of_range (by decide) (by decide)
    · exact h.sound ids' hold
  · exact Nat.le_of_ble_eq_true rfl
  · intro id hid
    rw [hone id hid]
    exact Nat.le_refl _

/-- The next id is above all the others since the last reset. -/
theorem Inv.increment (h : s.Inv) (hbelow : s.g_atomic_i32_seq_id ≠ int32Max) :
    (s.increment i).Inv := by
  have hcounter := h.counter
  have hne : s.g_atomic_i32_seq_id.toNat ≠ 2 ^ 31 - 1 := by
    intro he
    exact hbelow (BitVec.eq_of_toNat_eq he)
  have hnext : (s.g_atomic_i32_seq_id + 1).toNat = s.g_atomic_i32_seq_id.toNat + 1 := by
    rw [BitVec.toNat_add, show (1 : BitVec 32).toNat = 1 from rfl]
    omega
  have habove : ∀ id ∈ s.issued, id.toNat ≤ (s.g_atomic_i32_seq_id + 1).toNat := by
    intro id hid
    rw [hnext]
    exact Nat.le_succ_of_le (h.above id hid)
  simp only [SeqCounter.increment]
  split
  next hmax =>
    apply Inv.setPc
    refine ⟨h.sound, ?_, habove⟩
    simp only [hnext]
    omega
  next hmax =>
    have hlt : (s.g_atomic_i32_seq_id + 1).toNat ≠ 2 ^ 31 - 1 := by
      intro he
      exact hmax (BitVec.eq_of_toNat_eq he)
    constructor
    · intro ids hids
      rcases List.mem_cons.mp hids with rfl | hold
      · obtain ⟨hnodup, husable⟩ := h.sound s.issued List.mem_cons_self
        constructor
        · rw [List.nodup_cons]
          refine ⟨fun hmem => ?_, hnodup⟩
          have hle := h.above _ hmem
          omega
        · intro id hid
          rcases List.mem_cons.mp hid with rfl | hid
          · exact usable_of_range (by omega) (by omega)
          · exact husable id hid
      · exact h.sound ids (List.mem_cons_of_mem _ hold)
    · simp only [hnext]
      omega
    · intro id hid
      rcases List.mem_cons.mp hid with rfl | hid
      · exact Nat.le_refl _
      · exact habove id hid

theorem step_below (h : s.Inv) (a : Act) (ha : s.Below a) (ht : s.step a = some t) : t.Inv := by
  cases a with
  | constructorGet i =>
    simp only [step] at ht
    split at ht
    · cases ht
      split
      · exact h.setPc i _
      · exact h
    · cases ht
  | constructorSet i =>
    simp only [step] at ht
    split at ht
    · cases ht
      exact (h.reset (.inl rfl)).setPc i _
    · cases ht
  | incrementAndGet i =>
    simp only [step] at ht
    split at ht
    · cases ht
      exact h.increment ha
    · cases ht
  | getAndSet i =>
    simp only [step] at ht
    split at ht
    · cases ht
      exact (h.reset (.inr rfl)).setPc i _
    · cases ht

theorem increment_wraps (h : s.g_atomic_i32_seq_id = int32Max) : ¬ (s.increment i).Sound := by
  intro hsound
  have hissued : (s.increment i).issued = 0x80000000 :: s.issued := by
    simp only [increment, h]
    rfl
  obtain ⟨-, husable⟩ := hsound _ List.mem_cons_self
  rw [hissued] at husable
  exact absurd (husable _ List.mem_cons_self).1 (by decide)

theorem step_not_below (a : Act) (ha : ¬ s.Below a) (ht : s.step a = some t) : ¬ t.Sound := by
  cases a with
  | constructorGet i => exact absurd trivial ha
  | constructorSet i => exact absurd trivial ha
  | getAndSet i => exact absurd trivial ha
  | incrementAndGet i =>
    simp only [step] at ht
    split at ht
    · cases ht
      exact increment_wraps (not_not.mp ha)
    · cases ht

/-- Under any interleaving the ids are usable and not given out twice if and only if no thread
takes one between the moment at which another has got the largest value and its reset. -/
theorem seq_ids_sound_iff (acts : List Act) {t : SeqCounter}
    (h : machine.run machine.init acts = some (.ok t)) :
    (∀ pre, pre <+: acts → ∃ u, machine.run machine.init pre = some (.ok u) ∧ u.Sound) ↔
      machine.Along Below machine.init acts := by
  apply Machine.run_along_iff (fun _ hp => hp.sound) ?_ ?_ inv_new h
  · intro s a u hp hg hu
    obtain ⟨v, hv, he⟩ := Option.map_eq_some_iff.mp hu
    cases he
    exact step_below hp a hg hv
  · intro s a u _ hg hu
    obtain ⟨v, hv, he⟩ := Option.map_eq_some_iff.mp hu
    cases he
    exact step_not_below a hg hv

instance (s : SeqCounter) (a : Act) : Decidable (s.Below a) :=
  match a with
  | .incrementAndGet _ => inferInstanceAs (Decidable (_ ≠ _))
  | .constructorGet _ | .constructorSet _ | .getAndSet _ => inferInstanceAs (Decidable True)

/- Two threads that both find the counter 0. -/
def startActs : List Act :=
  [.constructorGet 0, .constructorGet 1, .constructorSet 0, .incrementAndGet 0,
    .constructorSet 1, .incrementAndGet 1, .incrementAndGet 0]

theorem seq_ids_sound_start :
    (∃ t, machine.run machine.init startActs = some (.ok t)) ∧
      ∀ pre, pre <+: startActs → ∃ u, machine.run machine.init pre = some (.ok u) ∧ u.Sound := by
  have hrun : machine.runsTo machine.init startActs
      (fun t => decide (t.issued = [3, 2])) = true := by decide +kernel
  obtain ⟨t, ht, -⟩ := Machine.exists_of_runsTo hrun
  exact ⟨⟨t, ht⟩, (seq_ids_sound_iff startActs ht).mpr (by decide +kernel)⟩

/-! ### Two threads at the largest value -/

theorem run_increments (n : Nat) (hn : n ≤ 2 ^ 31 - 2) :
    ∃ t, machine.run machine.init (List.replicate n (.incrementAndGet 0)) = some (.ok t) ∧
      t.g_atomic_i32_seq_id.toNat = n ∧ ∀ i, t.threads i = .idle := by
  induction n with
  | zero => exact ⟨new, rfl, rfl, fun _ => rfl⟩
  | succ n ih =>
    obtain ⟨t, ht, hcounter, hidle⟩ := ih (by omega)
    have hnext : (t.g_atomic_i32_seq_id + 1).toNat = n + 1 := by
      rw [BitVec.toNat_add, show (1 : BitVec 32).toNat = 1 from rfl, hcounter]
      omega
    have hne : t.g_atomic_i32_seq_id + 1 ≠ int32Max := by
      intro he
      rw [he, show int32Max.toNat = 2 ^ 31 - 1 from rfl] at hnext
      omega
    have hstep : t.step (.incrementAndGet 0) = some { t with
        g_atomic_i32_seq_id := t.g_atomic_i32_seq_id + 1
        issued := (t.g_atomic_i32_seq_id + 1) :: t.issued } := by
      simp only [step, if_pos (hidle 0), increment, if_neg hne]
    refine ⟨{ t with
      g_atomic_i32_seq_id := t.g_atomic_i32_seq_id + 1
      issued := (t.g_atomic_i32_seq_id + 1) :: t.issued }, ?_, hnext, hidle⟩
    rw [List.replicate_succ', Machine.run_append ht]
    simp only [Machine.run, machine, hstep, Option.map_some]

/-- One thread gets the largest value, and before it resets the counter another one gets the
smallest. -/
theorem seq_ids_wrap :
    ∃ t, machine.run machine.init
        (List.replicate (2 ^ 31 - 2) (.incrementAndGet 0) ++
          [.incrementAndGet 0, .incrementAndGet 1]) = some (.ok t) ∧ ¬ t.Sound := by
  obtain ⟨u, hu, hcounter, hidle⟩ := run_increments (2 ^ 31 - 2) (Nat.le_refl _)
  have hlast : u.g_atomic_i32_seq_id = 0x7ffffffe := BitVec.eq_of_toNat_eq hcounter
  have hfirst : u.step (.incrementAndGet 0) =
      some { u with
        g_atomic_i32_seq_id := int32Max
        threads := Function.update u.threads 0 .wrapping } := by
    simp only [step, if_pos (hidle 0), increment, hlast]
    rfl
  have hother : Function.update u.threads 0 .wrapping 1 = .idle := by
    rw [Function.update_of_ne (by decide), hidle]
  refine ⟨_, ?_, increment_wraps (s := { u with
    g_atomic_i32_seq_id := int32Max
    threads := Function.update u.threads 0 .wrapping }) (i := 1) rfl⟩
  rw [Machine.run_append hu]
  simp only [Machine.run, machine, hfirst, Option.map_some]
  simp only [step, if_pos hother, Option.map_some]

end SeqCounter

end TstMuduo.Cthrift
