import Mathlib.Data.Nat.Digits.Lemmas

/-!
# Canonical numerals

A loop that divides by the base and keeps the remainders finds the numeral of a number from its
last digit on. There is only one numeral without a leading zero.
-/

namespace TstMuduo.Lib

/-- The numeral of `n` in base `b`, the most significant digit first. Only the numeral of zero
starts with a zero. -/
structure IsNumeral (b n : Nat) (ds : List Nat) : Prop where
  value : Nat.ofDigits b ds.reverse = n
  digit_lt : ∀ d ∈ ds, d < b
  ne_nil : ds ≠ []
  lead : 1 < ds.length → ds.head? ≠ some 0

namespace IsNumeral

variable {b n : Nat} {ds es : List Nat}

theorem single (h : n < b) : IsNumeral b n [n] where
  value := Nat.ofDigits_singleton
  digit_lt := by
    intro d hd
    rwa [List.mem_singleton.mp hd]
  ne_nil := List.cons_ne_nil _ _
  lead := fun h => absurd h (Nat.lt_irrefl 1)

theorem head_ne_zero (h : IsNumeral b n ds) (hn : 0 < n) : ds.head? ≠ some 0 := by
  obtain ⟨d, rest, rfl⟩ := List.exists_cons_of_ne_nil h.ne_nil
  cases rest with
  | nil =>
    have hd : d = n := by
      rw [← h.value]
      exact Nat.ofDigits_singleton.symm
    rw [List.head?_cons, hd]
    intro he
    exact hn.ne' (Option.some.inj he)
  | cons e rest => exact h.lead (Nat.succ_lt_succ (Nat.succ_pos _))

/-- The remainder goes behind the numeral of the quotient. -/
theorem snoc (h : IsNumeral b (n / b) ds) (hb : 0 < b) (hn : b ≤ n) :
    IsNumeral b n (ds ++ [n % b]) where
  value := by
    rw [List.reverse_append, List.reverse_singleton, List.singleton_append, Nat.ofDigits_cons,
      h.value]
    exact Nat.mod_add_div n b
  digit_lt := by
    intro d hd
    rcases List.mem_append.mp hd with hd | hd
    · exact h.digit_lt d hd
    · rw [List.mem_singleton.mp hd]
      exact Nat.mod_lt n hb
  ne_nil := List.append_ne_nil_of_right_ne_nil _ (List.cons_ne_nil _ _)
  lead := by
    intro _
    rw [List.head?_append_of_ne_nil _ h.ne_nil]
    exact h.head_ne_zero (Nat.div_pos hn hb)

theorem eq_zero (h : IsNumeral b 0 ds) (hb : b ≠ 0) : ds = [0] := by
  have hzero : ∀ d ∈ ds, d = 0 := by
    intro d hd
    exact Nat.digits_zero_of_eq_zero hb h.value d (List.mem_reverse.mpr hd)
  obtain ⟨d, rest, rfl⟩ := List.exists_cons_of_ne_nil h.ne_nil
  rw [hzero d List.mem_cons_self] at h ⊢
  cases rest with
  | nil => rfl
  | cons e rest => exact absurd rfl (h.lead (Nat.succ_lt_succ (Nat.succ_pos _)))

theorem digits_eq (h : IsNumeral b n ds) (hb : 1 < b) (hn : 0 < n) :
    Nat.digits b n = ds.reverse := by
  rw [← h.value]
  apply Nat.digits_ofDigits b hb
  · intro d hd
    exact h.digit_lt d (List.mem_reverse.mp hd)
  · intro hne hlast
    rw [List.getLast_reverse] at hlast
    exact h.head_ne_zero hn ((List.head?_eq_some_head h.ne_nil).trans (congrArg some hlast))

theorem unique (h : IsNumeral b n ds) (h' : IsNumeral b n es) (hb : 1 < b) : ds = es := by
  rcases Nat.eq_zero_or_pos n with rfl | hn
  · rw [h.eq_zero (Nat.ne_zero_of_lt hb), h'.eq_zero (Nat.ne_zero_of_lt hb)]
  · exact List.reverse_injective ((h.digits_eq hb hn).symm.trans (h'.digits_eq hb hn))

theorem toDigits_eq (h : IsNumeral b n ds) (hb : 1 < b) :
    Nat.toDigits b n = ds.map Nat.digitChar := by
  obtain ⟨es, hes, heq⟩ : ∃ es, IsNumeral b n es ∧ Nat.toDigits b n = es.map Nat.digitChar := by
    clear h
    induction n using Nat.strong_induction_on with
    | _ n ih =>
      rcases Nat.lt_or_ge n b with hlt | hge
      · exact ⟨[n], single hlt, Nat.toDigits_of_lt_base hlt⟩
      · have hpos : 0 < b := Nat.zero_lt_of_lt hb
        obtain ⟨es, hes, heq⟩ := ih (n / b) (Nat.div_lt_self (hpos.trans_le hge) hb)
        refine ⟨es ++ [n % b], hes.snoc hpos hge, ?_⟩
        rw [Nat.toDigits_of_base_le hb hge, heq, List.map_append, List.map_singleton]
  rw [heq, h.unique hes hb]

end IsNumeral

end TstMuduo.Lib
