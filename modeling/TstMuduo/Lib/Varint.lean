import Mathlib.Data.List.Basic
import Mathlib.Tactic.Ring

/-!
# Numbers of variable length

A number is written in groups of seven bits, the low group first; the high bit of a byte says
that another one follows.
-/

namespace TstMuduo.Lib

/-- The groups of a number below `128 ^ (k + 1)`. -/
def varint : Nat → Nat → List UInt8
  | 0, n => [.ofNat n]
  | k + 1, n => if n < 128 then [.ofNat n] else .ofNat (n % 128 + 128) :: varint k (n / 128)

/-- The number at the front, in at most the given number of bytes, and what follows it. -/
def readVarint : Nat → List UInt8 → Option (Nat × List UInt8)
  | 0, _ => none
  | _ + 1, [] => none
  | k + 1, b :: bs =>
    if b.toNat < 128 then some (b.toNat, bs)
    else (readVarint k bs).map fun r => (b.toNat - 128 + 128 * r.1, r.2)

theorem toNat_ofNat_lt {n : Nat} (h : n < 256) : (UInt8.ofNat n).toNat = n := by
  rw [UInt8.toNat_ofNat']
  exact Nat.mod_eq_of_lt h

theorem varint_of_lt {n : Nat} (k : Nat) (h : n < 128) : varint k n = [.ofNat n] := by
  cases k with
  | zero => rfl
  | succ k => exact if_pos h

theorem readVarint_lt {k n : Nat} {bs rest : List UInt8} (h : readVarint k bs = some (n, rest)) :
    rest.length < bs.length := by
  induction k generalizing n bs rest with
  | zero => cases h
  | succ k ih =>
    cases bs with
    | nil => cases h
    | cons b bs =>
      unfold readVarint at h
      split at h
      · cases h
        exact Nat.lt_succ_self _
      · obtain ⟨r, hr, hpair⟩ := Option.map_eq_some_iff.mp h
        have htail := ih hr
        cases hpair
        rw [List.length_cons]
        omega

theorem readVarint_varint {k l n : Nat} (hn : n < 128 ^ (k + 1)) (hl : k < l)
    (rest : List UInt8) : readVarint l (varint k n ++ rest) = some (n, rest) := by
  induction k generalizing l n with
  | zero =>
    obtain ⟨l, rfl⟩ := Nat.exists_eq_add_of_lt hl
    have hb : (UInt8.ofNat n).toNat = n := toNat_ofNat_lt (by omega)
    rw [varint, List.singleton_append, readVarint, hb, if_pos (by omega)]
  | succ k ih =>
    obtain ⟨l, rfl⟩ : ∃ j, l = j + 1 := ⟨l - 1, by omega⟩
    unfold varint
    split
    next hsmall =>
      have hb : (UInt8.ofNat n).toNat = n := toNat_ofNat_lt (by omega)
      rw [List.singleton_append, readVarint, hb, if_pos hsmall]
    next hlarge =>
      have hb : (UInt8.ofNat (n % 128 + 128)).toNat = n % 128 + 128 := toNat_ofNat_lt (by omega)
      have hdiv : n / 128 < 128 ^ (k + 1) := by
        rw [Nat.pow_succ] at hn
        exact Nat.div_lt_of_lt_mul (by rw [Nat.mul_comm]; exact hn)
      have htail := ih hdiv (l := l) (by omega)
      rw [List.cons_append, readVarint, hb, if_neg (by omega), htail, Option.map_some]
      have hsum : n % 128 + 128 - 128 + 128 * (n / 128) = n := by omega
      rw [hsum]

end TstMuduo.Lib
