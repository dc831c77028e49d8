import Mathlib.Data.List.Perm.Basic

/-!
# Lists with one element changed

What an update at one place does to a count and to the list of a field.
-/

namespace TstMuduo.Lib

variable {α β : Type} {l : List α} {a b : α} {i : Nat} {p : α → Bool}

theorem map_set_same {f : α → β} (h : l[i]? = some a) (hf : f b = f a) :
    (l.set i b).map f = l.map f := by
  obtain ⟨hlt, rfl⟩ := List.getElem?_eq_some_iff.mp h
  have hlt' : i < (l.map f).length := by rwa [List.length_map]
  rw [List.map_set, hf, ← List.getElem_map (h := hlt') f, List.set_getElem_self]

/-- A count loses the old element and gains the new one. -/
theorem countP_set_add (h : l[i]? = some a) :
    (l.set i b).countP p + (if p a then 1 else 0) = l.countP p + if p b then 1 else 0 := by
  induction l generalizing i with
  | nil => cases h
  | cons x l ih =>
    cases i with
    | zero =>
      cases h
      rw [List.set_cons_zero, List.countP_cons, List.countP_cons]
      omega
    | succ i =>
      have hi := ih (i := i) h
      rw [List.set_cons_succ, List.countP_cons, List.countP_cons]
      omega

theorem countP_modify {f : α → α} (h : l[i]? = some a) :
    (l.modify i f).countP p + (if p a then 1 else 0) = l.countP p + if p (f a) then 1 else 0 := by
  have hset : l.modify i f = l.set i (f a) := by
    rw [List.modify_eq_set_getElem?, h]
    rfl
  rw [hset]
  exact countP_set_add h

theorem countP_eraseIdx (p : α → Bool) (h : l[i]? = some a) :
    l.countP p = (l.eraseIdx i).countP p + if p a then 1 else 0 := by
  obtain ⟨hlt, rfl⟩ := List.getElem?_eq_some_iff.mp h
  have hperm := (List.getElem_cons_eraseIdx_perm hlt).countP_eq p
  rw [List.countP_cons] at hperm
  exact hperm.symm

end TstMuduo.Lib
