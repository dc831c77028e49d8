import Mathlib.Data.List.Basic

/-!
# Streams of length-prefixed frames

A frame is a header of fixed length that says how long the body is, and the body. Any
input splits into the bodies of its complete frames and a rest in front of which no frame
is complete, and the split does not depend on how the input was cut.
-/

namespace TstMuduo.Lib

variable {β : Type}

structure Framing (β : Type) where
  headLen : Nat
  headLen_pos : 0 < headLen
  size : List β → Nat

namespace Framing

variable (F : Framing β)

/-- The length of the body of the frame at the front, if that frame is complete. -/
def front (xs : List β) : Option Nat :=
  if F.headLen ≤ xs.length then
    if F.headLen + F.size (xs.take F.headLen) ≤ xs.length then
      some (F.size (xs.take F.headLen))
    else none
  else none

def splitAux : Nat → List β → List (List β) × List β
  | 0, xs => ([], xs)
  | fuel + 1, xs =>
    match F.front xs with
    | none => ([], xs)
    | some n =>
      let r := splitAux fuel (xs.drop (F.headLen + n))
      ((xs.drop F.headLen).take n :: r.1, r.2)

def split (xs : List β) : List (List β) × List β := F.splitAux xs.length xs

def frames (xs : List β) : List (List β) := (F.split xs).1
def rest (xs : List β) : List β := (F.split xs).2

variable {F} {xs ys zs : List β} {n fuel : Nat}

theorem front_eq_some (h : F.front xs = some n) :
    n = F.size (xs.take F.headLen) ∧ F.headLen + n ≤ xs.length := by
  unfold front at h
  split at h
  next hhead =>
    split at h
    next hbody =>
      cases h
      exact ⟨rfl, hbody⟩
    · cases h
  · cases h

theorem front_of_le (hn : F.size (xs.take F.headLen) = n) (h : F.headLen + n ≤ xs.length) :
    F.front xs = some n := by
  subst hn
  unfold front
  rw [if_pos (Nat.le_trans (Nat.le_add_right _ _) h), if_pos h]

theorem front_append (ys : List β) (h : F.front xs = some n) : F.front (xs ++ ys) = some n := by
  obtain ⟨hn, hle⟩ := front_eq_some h
  apply front_of_le
  · rw [List.take_append_of_le_length (by omega), ← hn]
  · rw [List.length_append]
    omega

theorem length_drop_lt (h : F.front xs = some n) :
    (xs.drop (F.headLen + n)).length < xs.length := by
  have hpos := F.headLen_pos
  obtain ⟨-, hle⟩ := front_eq_some h
  rw [List.length_drop]
  omega

theorem splitAux_eq (h : xs.length ≤ fuel) : F.splitAux fuel xs = F.split xs := by
  induction fuel using Nat.strongRecOn generalizing xs with
  | _ fuel ih =>
    cases hf : F.front xs with
    | none =>
      have hall : ∀ k, F.splitAux k xs = ([], xs) := by
        intro k
        cases k with
        | zero => rfl
        | succ k => rw [splitAux, hf]
      rw [split, hall, hall]
    | some n =>
      have hlt := length_drop_lt hf
      obtain ⟨k, hk⟩ := Nat.exists_eq_succ_of_ne_zero (show xs.length ≠ 0 by omega)
      obtain ⟨j, rfl⟩ := Nat.exists_eq_succ_of_ne_zero (show fuel ≠ 0 by omega)
      have hrest : ∀ m ≤ j, (xs.drop (F.headLen + n)).length ≤ m →
          F.splitAux m (xs.drop (F.headLen + n)) = F.split (xs.drop (F.headLen + n)) :=
        fun m hm hle => ih m (Nat.lt_succ_of_le hm) hle
      rw [split, hk]
      simp only [splitAux, hf]
      rw [hrest j (Nat.le_refl j) (by omega), hrest k (by omega) (by omega)]

theorem split_of_none (h : F.front xs = none) : F.split xs = ([], xs) := by
  rw [← splitAux_eq (Nat.le_succ xs.length), splitAux, h]

theorem split_of_some (h : F.front xs = some n) :
    F.split xs = ((xs.drop F.headLen).take n :: F.frames (xs.drop (F.headLen + n)),
      F.rest (xs.drop (F.headLen + n))) := by
  have hlt := length_drop_lt h
  rw [← splitAux_eq (Nat.le_succ xs.length), splitAux, h]
  simp only
  rw [splitAux_eq (Nat.le_of_lt hlt)]
  rfl

theorem frames_of_none (h : F.front xs = none) : F.frames xs = [] := by
  rw [frames, split_of_none h]

theorem rest_of_none (h : F.front xs = none) : F.rest xs = xs := by
  rw [rest, split_of_none h]

theorem frames_of_some (h : F.front xs = some n) :
    F.frames xs = (xs.drop F.headLen).take n :: F.frames (xs.drop (F.headLen + n)) := by
  rw [frames, split_of_some h]

theorem rest_of_some (h : F.front xs = some n) :
    F.rest xs = F.rest (xs.drop (F.headLen + n)) := by
  rw [rest, split_of_some h]

theorem rest_of_frames_nil (h : F.frames xs = []) : F.rest xs = xs := by
  cases hf : F.front xs with
  | none => exact rest_of_none hf
  | some n =>
    rw [frames_of_some hf] at h
    cases h

theorem split_induction (F : Framing β) {P : List β → Prop}
    (hnone : ∀ xs, F.front xs = none → P xs)
    (hsome : ∀ xs n, F.front xs = some n → P (xs.drop (F.headLen + n)) → P xs) (xs : List β) :
    P xs := by
  induction h : xs.length using Nat.strongRecOn generalizing xs with
  | _ k ih =>
    cases hf : F.front xs with
    | none => exact hnone xs hf
    | some n =>
      have hlt := length_drop_lt hf
      exact hsome xs n hf (ih _ (by omega) _ rfl)

theorem front_rest (F : Framing β) (xs : List β) : F.front (F.rest xs) = none := by
  induction xs using F.split_induction with
  | hnone xs hf =>
    rw [rest_of_none hf]
    exact hf
  | hsome xs n hf ih =>
    rw [rest_of_some hf]
    exact ih

theorem split_append (F : Framing β) (xs ys : List β) :
    F.frames (xs ++ ys) = F.frames xs ++ F.frames (F.rest xs ++ ys) ∧
      F.rest (xs ++ ys) = F.rest (F.rest xs ++ ys) := by
  induction xs using F.split_induction with
  | hnone xs hf =>
    rw [frames_of_none hf, rest_of_none hf]
    exact ⟨rfl, rfl⟩
  | hsome xs n hf ih =>
    obtain ⟨-, hle⟩ := front_eq_some hf
    have hfa := front_append ys hf
    have hdrop : (xs ++ ys).drop (F.headLen + n) = xs.drop (F.headLen + n) ++ ys :=
      List.drop_append_of_le_length hle
    have hbody : ((xs ++ ys).drop F.headLen).take n = (xs.drop F.headLen).take n := by
      rw [List.drop_append_of_le_length (by omega),
        List.take_append_of_le_length (by rw [List.length_drop]; omega)]
    rw [frames_of_some hf, rest_of_some hf, frames_of_some hfa, rest_of_some hfa, hdrop, hbody,
      ih.1, ih.2]
    exact ⟨rfl, rfl⟩

end Framing

end TstMuduo.Lib
