import Mathlib.Data.List.Basic

/-!
# Absorbing a stream block by block

A function that takes a block of fixed length into its state is folded over the complete
blocks of an input; the rest is kept for the input to come.
-/

namespace TstMuduo.Lib

structure BlockHash (σ β : Type) where
  blockLen : Nat
  blockLen_pos : 0 < blockLen
  compress : σ → List β → σ

namespace BlockHash

variable {σ β : Type}

def absorbAux (H : BlockHash σ β) : Nat → σ → List β → σ × List β
  | 0, s, xs => (s, xs)
  | fuel + 1, s, xs =>
    if H.blockLen ≤ xs.length then
      H.absorbAux fuel (H.compress s (xs.take H.blockLen)) (xs.drop H.blockLen)
    else (s, xs)

def absorb (H : BlockHash σ β) (s : σ) (xs : List β) : σ × List β :=
  H.absorbAux xs.length s xs

variable {H : BlockHash σ β} {s : σ} {xs ys : List β}

theorem absorbAux_of_lt {fuel : Nat} (h : xs.length < H.blockLen) :
    H.absorbAux fuel s xs = (s, xs) := by
  cases fuel with
  | zero => rfl
  | succ fuel => exact if_neg (Nat.not_le_of_lt h)

theorem absorbAux_eq {fuel : Nat} (h : xs.length ≤ fuel) :
    H.absorbAux fuel s xs = H.absorb s xs := by
  have hpos := H.blockLen_pos
  induction fuel using Nat.strongRecOn generalizing s xs with
  | _ fuel ih =>
    by_cases hblock : H.blockLen ≤ xs.length
    · obtain ⟨k, hk⟩ := Nat.exists_eq_succ_of_ne_zero (show xs.length ≠ 0 by omega)
      obtain ⟨j, rfl⟩ := Nat.exists_eq_succ_of_ne_zero (show fuel ≠ 0 by omega)
      have hlen : (xs.drop H.blockLen).length ≤ k := by
        rw [List.length_drop]
        omega
      rw [absorb, hk]
      simp only [absorbAux, if_pos hblock]
      rw [ih j (Nat.lt_succ_self j) (by omega), ih k (by omega) hlen]
    · have hlt : xs.length < H.blockLen := Nat.lt_of_not_le hblock
      rw [absorb, absorbAux_of_lt hlt, absorbAux_of_lt hlt]

theorem absorb_of_lt (h : xs.length < H.blockLen) : H.absorb s xs = (s, xs) := absorbAux_of_lt h

theorem absorb_of_le (h : H.blockLen ≤ xs.length) :
    H.absorb s xs = H.absorb (H.compress s (xs.take H.blockLen)) (xs.drop H.blockLen) := by
  have hlen : (xs.drop H.blockLen).length ≤ xs.length := by
    rw [List.length_drop]
    omega
  rw [← absorbAux_eq (Nat.le_succ xs.length), absorbAux, if_pos h, absorbAux_eq hlen]

theorem absorb_induction (H : BlockHash σ β) {P : σ → List β → Prop}
    (hlt : ∀ s xs, xs.length < H.blockLen → P s xs)
    (hle : ∀ s xs, H.blockLen ≤ xs.length →
      P (H.compress s (xs.take H.blockLen)) (xs.drop H.blockLen) → P s xs)
    (s : σ) (xs : List β) : P s xs := by
  have hpos := H.blockLen_pos
  induction h : xs.length using Nat.strongRecOn generalizing s xs with
  | _ k ih =>
    by_cases hblock : H.blockLen ≤ xs.length
    · refine hle s xs hblock (ih _ ?_ _ _ rfl)
      rw [List.length_drop]
      omega
    · exact hlt s xs (Nat.lt_of_not_le hblock)

theorem absorb_append (H : BlockHash σ β) (s : σ) (xs ys : List β) :
    H.absorb s (xs ++ ys) = H.absorb (H.absorb s xs).1 ((H.absorb s xs).2 ++ ys) := by
  induction s, xs using H.absorb_induction with
  | hlt s xs h => rw [absorb_of_lt h]
  | hle s xs h ih =>
    have happ : H.blockLen ≤ (xs ++ ys).length := by
      rw [List.length_append]
      omega
    rw [absorb_of_le happ, List.take_append_of_le_length h, List.drop_append_of_le_length h, ih,
      absorb_of_le h]

theorem length_rest (H : BlockHash σ β) (s : σ) (xs : List β) :
    (H.absorb s xs).2.length = xs.length % H.blockLen := by
  induction s, xs using H.absorb_induction with
  | hlt s xs h => rw [absorb_of_lt h, Nat.mod_eq_of_lt h]
  | hle s xs h ih => rw [absorb_of_le h, ih, List.length_drop, ← Nat.mod_eq_sub_mod h]

theorem absorb_block_append (h : xs.length = H.blockLen) (ys : List β) :
    H.absorb s (xs ++ ys) = H.absorb (H.compress s xs) ys := by
  have hle : H.blockLen ≤ (xs ++ ys).length := by
    rw [List.length_append]
    omega
  rw [absorb_of_le hle, List.take_left' h, List.drop_left' h]

theorem absorb_blocks_append (h : xs.length % H.blockLen = 0) (ys : List β) :
    H.absorb s (xs ++ ys) = H.absorb (H.absorb s xs).1 ys := by
  have hrest : (H.absorb s xs).2 = [] := by
    apply List.eq_nil_of_length_eq_zero
    rw [length_rest, h]
  rw [absorb_append, hrest, List.nil_append]

theorem absorb_front (h : ys.length < H.blockLen) :
    H.absorb s (xs.take (xs.length - xs.length % H.blockLen) ++ ys) = ((H.absorb s xs).1, ys) := by
  have hmod := Nat.mod_lt xs.length H.blockLen_pos
  have hfront : (xs.take (xs.length - xs.length % H.blockLen)).length % H.blockLen = 0 := by
    rw [List.length_take, Nat.min_eq_left (Nat.sub_le _ _)]
    exact Nat.sub_mod_eq_zero_of_mod_eq (Nat.mod_mod _ _).symm
  have hback : (xs.drop (xs.length - xs.length % H.blockLen)).length < H.blockLen := by
    have hle := Nat.mod_le xs.length H.blockLen
    rw [List.length_drop]
    omega
  have hxs := absorb_blocks_append (s := s) hfront
    (xs.drop (xs.length - xs.length % H.blockLen))
  rw [List.take_append_drop, absorb_of_lt hback] at hxs
  rw [absorb_blocks_append hfront ys, absorb_of_lt h, hxs]

end BlockHash

end TstMuduo.Lib
