import Mathlib.Algebra.Order.Ring.Int

/-!
# Fixed-width C integers as numbers

An operation on `int` has a result only where it does not overflow. Division truncates
towards zero, as `Int.tdiv` and `Int.tmod` do.
-/

namespace TstMuduo.Lib

/-- The largest `int`. -/
abbrev intMax : Nat := 2147483647

/-- The result of an operation on `int`, if there is one. -/
def int32 (x : Int) : Option Int :=
  if -2147483648 ≤ x ∧ x ≤ 2147483647 then some x else none

def int64 (x : Int) : Option Int :=
  if -9223372036854775808 ≤ x ∧ x ≤ 9223372036854775807 then some x else none

theorem int32_ok {x : Int} (h : -2147483648 ≤ x ∧ x ≤ 2147483647) : int32 x = some x := if_pos h

theorem int64_ok {x : Int} (h : -9223372036854775808 ≤ x ∧ x ≤ 9223372036854775807) :
    int64 x = some x := if_pos h

/-- One step through a computation whose first result is known. -/
theorem bind_of {α β : Type} {o : Option α} {a : α} {k : α → Option β} {r : Option β}
    (ho : o = some a) (hk : k a = r) : (o >>= k) = r := by
  rw [ho]
  exact hk

/-- `static_cast<int>` of a wider integer. -/
def castInt32 (x : Int) : Int := (x + 2147483648) % 4294967296 - 2147483648

theorem castInt32_ok {x : Int} (h : -2147483648 ≤ x ∧ x ≤ 2147483647) : castInt32 x = x := by
  unfold castInt32
  omega

theorem tdiv_tmod_cases (x : Int) {n : Int} (hn : 0 < n) :
    (x.tmod n = x % n ∧ x.tdiv n = x / n) ∨
      (x.tmod n < 0 ∧ x.tmod n + n = x % n ∧ x.tdiv n = x / n + 1) := by
  have hlt := Int.emod_lt_of_pos x hn
  have habs : (n.natAbs : Int) = n := Int.natAbs_of_nonneg hn.le
  rw [Int.tmod_eq_emod, Int.tdiv_eq_ediv, Int.sign_eq_one_of_pos hn]
  split
  · left
    omega
  · right
    omega

end TstMuduo.Lib
