import Mathlib.Data.Tree.Basic
import Mathlib.Data.List.Basic

/-!
# Search in a binary tree

A search that goes down one side of each node it meets finds what a search along the list of the
labels finds, as long as the question it asks is answered in the order of that list.
-/

namespace TstMuduo.Lib
open BinaryTree

variable {α : Type}

/-- The labels from left to right. -/
def traversal : BinaryTree α → List α
  | .nil => []
  | .node a l r => traversal l ++ a :: traversal r

/-- The last label with `p` on the way down: to the left of a label with `p`, to the right of any
other. -/
def descendFirst (p : α → Bool) : BinaryTree α → Option α
  | .nil => none
  | .node a l r => if p a then some ((descendFirst p l).getD a) else descendFirst p r

/-- The label that the comparison finds on the way down. -/
def locate (cmp : α → Ordering) : BinaryTree α → Option α
  | .nil => none
  | .node a l r =>
    match cmp a with
    | .lt => locate cmp l
    | .gt => locate cmp r
    | .eq => some a

def leftmost : BinaryTree α → Option α
  | .nil => none
  | .node a l _ => some ((leftmost l).getD a)

variable {t l r : BinaryTree α} {a b : α} {p : α → Bool} {cmp : α → Ordering}

theorem traversal_eq_nil : traversal t = [] ↔ t = .nil := by
  cases t with
  | nil => exact ⟨fun _ => rfl, fun _ => rfl⟩
  | node a l r => simp [traversal]

theorem leftmost_eq (t : BinaryTree α) : leftmost t = (traversal t).head? := by
  induction t with
  | nil => rfl
  | node a l r ihl ihr =>
    rw [leftmost, ihl, traversal, List.head?_append, List.head?_cons]
    cases (traversal l).head? <;> rfl

theorem descendFirst_eq (h : (traversal t).Pairwise fun a b => p a = true → p b = true) :
    descendFirst p t = (traversal t).find? p := by
  induction t with
  | nil => rfl
  | node a l r ihl ihr =>
    rw [traversal, List.pairwise_append, List.pairwise_cons] at h
    obtain ⟨hl, ⟨-, hr⟩, hlr⟩ := h
    rw [descendFirst, traversal, List.find?_append, List.find?_cons, ihl hl, ihr hr]
    by_cases hp : p a = true
    · rw [if_pos hp, hp]
      cases (traversal l).find? p <;> rfl
    · have hnone : (traversal l).find? p = none := by
        rw [List.find?_eq_none]
        intro b hb hpb
        exact hp (hlr b hb a List.mem_cons_self hpb)
      rw [if_neg hp, hnone, Option.none_or, eq_false_of_ne_true hp]

theorem locate_mem (h : locate cmp t = some a) : a ∈ traversal t ∧ cmp a = .eq := by
  induction t with
  | nil => exact absurd h (by simp [locate])
  | node b l r ihl ihr =>
    rw [locate] at h
    rw [traversal, List.mem_append, List.mem_cons]
    cases hc : cmp b with
    | lt =>
      rw [hc] at h
      exact ⟨.inl (ihl h).1, (ihl h).2⟩
    | gt =>
      rw [hc] at h
      exact ⟨.inr (.inr (ihr h).1), (ihr h).2⟩
    | eq =>
      rw [hc] at h
      obtain rfl := Option.some.inj h
      exact ⟨.inr (.inl rfl), hc⟩

theorem locate_none (cmp : α → Ordering) (h : (traversal t).Pairwise fun a b =>
      (cmp a = .lt → cmp b = .lt) ∧ (cmp b = .gt → cmp a = .gt))
    (hnone : locate cmp t = none) (ha : a ∈ traversal t) : cmp a ≠ .eq := by
  induction t with
  | nil => simp [traversal] at ha
  | node b l r ihl ihr =>
    rw [traversal, List.pairwise_append, List.pairwise_cons] at h
    obtain ⟨hl, ⟨hbr, hr⟩, hlr⟩ := h
    rw [traversal, List.mem_append, List.mem_cons] at ha
    rw [locate] at hnone
    cases hc : cmp b with
    | lt =>
      rw [hc] at hnone
      rcases ha with ha | rfl | ha
      · exact ihl hl hnone ha
      · rw [hc]
        exact nofun
      · rw [(hbr a ha).1 hc]
        exact nofun
    | gt =>
      rw [hc] at hnone
      rcases ha with ha | rfl | ha
      · rw [(hlr a ha b List.mem_cons_self).2 hc]
        exact nofun
      · rw [hc]
        exact nofun
      · exact ihr hr hnone ha
    | eq =>
      rw [hc] at hnone
      exact absurd hnone (by simp)

end TstMuduo.Lib
