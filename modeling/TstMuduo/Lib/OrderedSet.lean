import Mathlib.Data.List.Sort
import Mathlib.Data.Prod.Lex

/-!
# Ordered sets

A `std::set` over a linear order: the keys in increasing order, without
duplicates. Iterators are positions in that order, so `lower_bound` cuts the keys
into those before it and those from it on.
-/

namespace TstMuduo.Lib

structure OrderedSet (α : Type) [LinearOrder α] where
  keys : List α
  increasing : keys.Pairwise (· < ·)

namespace OrderedSet

variable {α : Type} [LinearOrder α]

def empty : OrderedSet α := ⟨[], List.Pairwise.nil⟩

instance : Membership α (OrderedSet α) := ⟨fun s a => a ∈ s.keys⟩

instance (a : α) (s : OrderedSet α) : Decidable (a ∈ s) := inferInstanceAs (Decidable (a ∈ s.keys))

def size (s : OrderedSet α) : Nat := s.keys.length

/-- `*begin()`, if the set is not empty. -/
def first (s : OrderedSet α) : Option α := s.keys.head?

theorem increasing_orderedInsert (a : α) (l : List α) (h : l.Pairwise (· < ·)) (ha : a ∉ l) :
    (l.orderedInsert (· ≤ ·) a).Pairwise (· < ·) := by
  induction l with
  | nil => simp
  | cons b l ih =>
    obtain ⟨hb, hl⟩ := List.pairwise_cons.mp h
    have hne : a ≠ b := fun he => ha (by rw [he]; exact List.mem_cons_self)
    have hna : a ∉ l := fun hm => ha (List.mem_cons_of_mem _ hm)
    rw [List.orderedInsert_cons]
    split
    next hle =>
      refine List.pairwise_cons.mpr ⟨?_, h⟩
      intro c hc
      have hab : a < b := lt_of_le_of_ne hle hne
      rcases List.mem_cons.mp hc with rfl | hc
      · exact hab
      · exact hab.trans (hb c hc)
    next hle =>
      refine List.pairwise_cons.mpr ⟨?_, ih hl hna⟩
      intro c hc
      rcases (List.mem_orderedInsert _).mp hc with rfl | hc
      · exact not_le.mp hle
      · exact hb c hc

/-- `insert`; a key that is there already stays as it is. -/
def insert (s : OrderedSet α) (a : α) : OrderedSet α :=
  if h : a ∈ s then s
  else ⟨s.keys.orderedInsert (· ≤ ·) a, increasing_orderedInsert a s.keys s.increasing h⟩

def erase (s : OrderedSet α) (a : α) : OrderedSet α :=
  ⟨s.keys.erase a, s.increasing.sublist List.erase_sublist⟩

/-- The keys in front of `lower_bound(x)`. -/
def before (s : OrderedSet α) (x : α) : List α := s.keys.takeWhile (· < x)

/-- What is left after the keys in front of `lower_bound(x)` are erased. -/
def notBefore (s : OrderedSet α) (x : α) : OrderedSet α :=
  ⟨s.keys.dropWhile (· < x), s.increasing.sublist (List.dropWhile_sublist _)⟩

variable {s : OrderedSet α} {a b x : α}

@[simp]
theorem mem_empty : ¬ a ∈ (empty : OrderedSet α) := List.not_mem_nil

theorem nodup_keys (s : OrderedSet α) : s.keys.Nodup := s.increasing.imp ne_of_lt

@[simp]
theorem mem_insert : b ∈ s.insert a ↔ b = a ∨ b ∈ s := by
  unfold insert
  split
  next h =>
    constructor
    · exact .inr
    · intro hx
      rcases hx with rfl | hb
      · exact h
      · exact hb
  next h => exact List.mem_orderedInsert _

theorem size_insert (h : ¬ a ∈ s) : (s.insert a).size = s.size + 1 := by
  simp only [insert, h, dif_neg, not_false_eq_true, size, List.orderedInsert_length]

@[simp]
theorem mem_erase : b ∈ s.erase a ↔ b ≠ a ∧ b ∈ s := s.nodup_keys.mem_erase_iff

theorem size_erase (h : a ∈ s) : (s.erase a).size + 1 = s.size := by
  have hlen : (s.keys.erase a).length = s.keys.length - 1 := List.length_erase_of_mem h
  have hpos : 0 < s.keys.length := List.length_pos_of_mem h
  simp only [size, erase, hlen]
  omega

theorem first_eq_none : s.first = none ↔ ∀ a, ¬ a ∈ s := by
  unfold first
  rw [List.head?_eq_none_iff, List.eq_nil_iff_forall_not_mem]
  rfl

theorem first_spec (h : s.first = some a) : a ∈ s ∧ ∀ b, b ∈ s → a ≤ b := by
  obtain ⟨l, hl⟩ := List.head?_eq_some_iff.mp h
  have hinc := s.increasing
  rw [hl] at hinc
  obtain ⟨hlt, _⟩ := List.pairwise_cons.mp hinc
  constructor
  · change a ∈ s.keys
    rw [hl]
    exact List.mem_cons_self
  · intro b hb
    change b ∈ s.keys at hb
    rw [hl] at hb
    rcases List.mem_cons.mp hb with rfl | hb
    · exact le_refl b
    · exact (hlt b hb).le

theorem takeWhile_lt_eq_filter {l : List α} (h : l.Pairwise (· < ·)) :
    l.takeWhile (· < x) = l.filter (· < x) := by
  induction l with
  | nil => rfl
  | cons b l ih =>
    obtain ⟨hb, hl⟩ := List.pairwise_cons.mp h
    by_cases hx : b < x
    · simp only [List.takeWhile_cons, List.filter_cons, hx, decide_true, if_true, ih hl]
    · have hnone : l.filter (· < x) = [] := by
        refine List.filter_eq_nil_iff.mpr ?_
        intro c hc hcx
        exact hx ((hb c hc).trans (of_decide_eq_true hcx))
      simp only [List.takeWhile_cons, List.filter_cons, hx, decide_false, hnone]
      rfl

theorem mem_dropWhile_lt {l : List α} (h : l.Pairwise (· < ·)) :
    a ∈ l.dropWhile (· < x) ↔ a ∈ l ∧ ¬ a < x := by
  induction l with
  | nil => simp
  | cons b l ih =>
    obtain ⟨hb, hl⟩ := List.pairwise_cons.mp h
    by_cases hx : b < x
    · simp only [List.dropWhile_cons, hx, decide_true, if_true, List.mem_cons, ih hl]
      constructor
      · intro hx
        obtain ⟨ha, hax⟩ := hx
        exact ⟨.inr ha, hax⟩
      · intro hx
        obtain ⟨rfl | ha, hax⟩ := hx
        · exact absurd hx hax
        · exact ⟨ha, hax⟩
    · simp only [List.dropWhile_cons, hx, decide_false, Bool.false_eq_true, if_false,
        List.mem_cons]
      constructor
      · intro hx
        rcases hx with rfl | ha
        · exact ⟨.inl rfl, hx⟩
        · exact ⟨.inr ha, fun hax => hx ((hb a ha).trans hax)⟩
      · exact fun ha => ha.1

theorem before_eq_filter (s : OrderedSet α) (x : α) : s.before x = s.keys.filter (· < x) :=
  takeWhile_lt_eq_filter s.increasing

theorem mem_before : a ∈ s.before x ↔ a ∈ s ∧ a < x := by
  rw [before_eq_filter, List.mem_filter, decide_eq_true_eq]
  rfl

@[simp]
theorem mem_notBefore : a ∈ s.notBefore x ↔ a ∈ s ∧ ¬ a < x := mem_dropWhile_lt s.increasing

theorem before_increasing (s : OrderedSet α) (x : α) : (s.before x).Pairwise (· < ·) :=
  s.increasing.sublist (List.takeWhile_sublist _)

theorem size_notBefore (s : OrderedSet α) (x : α) :
    (s.before x).length + (s.notBefore x).size = s.size := by
  have h := congrArg List.length (List.takeWhile_append_dropWhile (p := (· < x)) (l := s.keys))
  rw [List.length_append] at h
  exact h

end OrderedSet
end TstMuduo.Lib
