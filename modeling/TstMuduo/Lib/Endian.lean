import Mathlib.Data.List.Basic
import Mathlib.Tactic.Ring

/-!
# Integers in memory

The object representation of a fixed-width integer is a list of bytes whose order
depends on the host. `htobe` makes the representation the same on every host.
-/

namespace TstMuduo.Lib

/-- The `n` low bytes of a number, the least significant one first. -/
def leBytes : Nat → Nat → List UInt8
  | 0, _ => []
  | n + 1, v => .ofNat v :: leBytes n (v / 256)

def leVal : List UInt8 → Nat
  | [] => 0
  | b :: bs => b.toNat + 256 * leVal bs

theorem length_leBytes (n v : Nat) : (leBytes n v).length = n := by
  induction n generalizing v with
  | zero => rfl
  | succ n ih =>
    rw [leBytes, List.length_cons, ih]

theorem leVal_lt (bs : List UInt8) : leVal bs < 256 ^ bs.length := by
  induction bs with
  | nil => exact Nat.one_pos
  | cons b bs ih =>
    have hb := b.toNat_lt
    rw [leVal, List.length_cons, Nat.pow_succ]
    omega

theorem leVal_leBytes (n v : Nat) : leVal (leBytes n v) = v % 256 ^ n := by
  induction n generalizing v with
  | zero => exact (Nat.mod_one v).symm
  | succ n ih =>
    have hb : (UInt8.ofNat v).toNat = v % 256 := UInt8.toNat_ofNat'
    rw [leBytes, leVal, ih, hb, Nat.pow_succ', Nat.mod_mul]

theorem leBytes_leVal (bs : List UInt8) : leBytes bs.length (leVal bs) = bs := by
  induction bs with
  | nil => rfl
  | cons b bs ih =>
    have hb := b.toNat_lt
    have hhead : UInt8.ofNat (b.toNat + 256 * leVal bs) = b := by
      apply UInt8.toNat_inj.mp
      rw [UInt8.toNat_ofNat']
      omega
    have htail : (b.toNat + 256 * leVal bs) / 256 = leVal bs := by omega
    rw [leVal, List.length_cons, leBytes, hhead, htail, ih]

theorem leBytes_mod (n v : Nat) : leBytes n (v % 256 ^ n) = leBytes n v := by
  have h := leBytes_leVal (leBytes n v)
  rwa [length_leBytes, leVal_leBytes] at h

theorem leBytes_add (n k v : Nat) : leBytes (n + k) v = leBytes n v ++ leBytes k (v / 256 ^ n) := by
  induction n generalizing v with
  | zero => rw [Nat.zero_add, Nat.pow_zero, Nat.div_one, leBytes, List.nil_append]
  | succ n ih =>
    rw [Nat.add_right_comm, leBytes, leBytes, ih, Nat.div_div_eq_div_mul, ← Nat.pow_succ',
      List.cons_append]

theorem leBytes_eq_map (n v : Nat) :
    leBytes n v = (List.range n).map fun i => UInt8.ofNat (v / 256 ^ i) := by
  induction n generalizing v with
  | zero => rfl
  | succ n ih =>
    rw [leBytes, ih, List.range_succ_eq_map, List.map_cons, List.map_map, Nat.pow_zero,
      Nat.div_one]
    congr 1
    apply List.map_congr_left
    intro i _
    rw [Function.comp_apply, Nat.succ_eq_add_one, Nat.pow_succ', ← Nat.div_div_eq_div_mul]

theorem two_pow_eight_mul (n : Nat) : 2 ^ (8 * n) = 256 ^ n := Nat.pow_mul 2 8 n

inductive Endian where
  | little
  | big
  deriving DecidableEq, Repr

/- `__bswap_16`, `__bswap_32` and `__bswap_64` of an `n` byte integer. -/
def bswap (n : Nat) (x : BitVec (8 * n)) : BitVec (8 * n) :=
  .ofNat _ (leVal (leBytes n x.toNat).reverse)

namespace Endian

/-- The bytes of an `n` byte integer at increasing addresses. -/
def objectBytes (host : Endian) (n : Nat) (x : BitVec (8 * n)) : List UInt8 :=
  match host with
  | little => leBytes n x.toNat
  | big => (leBytes n x.toNat).reverse

/-- The integer that a host reads from `n` bytes of memory. -/
def ofObjectBytes (host : Endian) (n : Nat) (bytes : List UInt8) : BitVec (8 * n) :=
  match host with
  | little => .ofNat _ (leVal bytes)
  | big => .ofNat _ (leVal bytes.reverse)

/- The `htobe` and `betoh` family of `<endian.h>`: one function in both directions. -/
def htobe (host : Endian) (n : Nat) (x : BitVec (8 * n)) : BitVec (8 * n) :=
  match host with
  | little => bswap n x
  | big => x

theorem leBytes_bswap (n : Nat) (x : BitVec (8 * n)) :
    leBytes n (bswap n x).toNat = (leBytes n x.toNat).reverse := by
  have hl : (leBytes n x.toNat).reverse.length = n := by
    rw [List.length_reverse, length_leBytes]
  have hlt := leVal_lt (leBytes n x.toNat).reverse
  rw [hl] at hlt
  have hback := leBytes_leVal (leBytes n x.toNat).reverse
  rw [hl] at hback
  rw [bswap, BitVec.toNat_ofNat, two_pow_eight_mul, Nat.mod_eq_of_lt hlt, hback]

theorem objectBytes_htobe (host : Endian) (n : Nat) (x : BitVec (8 * n)) :
    host.objectBytes n (host.htobe n x) = (leBytes n x.toNat).reverse := by
  cases host with
  | little => exact leBytes_bswap n x
  | big => rfl

theorem htobe_ofObjectBytes (host : Endian) (n : Nat) (bytes : List UInt8)
    (h : bytes.length = n) :
    host.htobe n (host.ofObjectBytes n bytes) = .ofNat _ (leVal bytes.reverse) := by
  cases host with
  | little =>
    have hlt := leVal_lt bytes
    subst h
    simp only [htobe, ofObjectBytes, bswap, BitVec.toNat_ofNat, two_pow_eight_mul]
    rw [Nat.mod_eq_of_lt hlt, leBytes_leVal]
  | big => rfl

theorem length_objectBytes (host : Endian) (n : Nat) (x : BitVec (8 * n)) :
    (host.objectBytes n x).length = n := by
  cases host with
  | little => exact length_leBytes n x.toNat
  | big => rw [objectBytes, List.length_reverse, length_leBytes]

theorem ofObjectBytes_objectBytes (host : Endian) (n : Nat) (x : BitVec (8 * n)) :
    host.ofObjectBytes n (host.objectBytes n x) = x := by
  have hval : BitVec.ofNat (8 * n) (leVal (leBytes n x.toNat)) = x := by
    have hlt := x.isLt
    apply BitVec.eq_of_toNat_eq
    rw [leVal_leBytes, BitVec.toNat_ofNat, ← two_pow_eight_mul, Nat.mod_mod, Nat.mod_eq_of_lt hlt]
  cases host with
  | little => exact hval
  | big =>
    rw [objectBytes, ofObjectBytes, List.reverse_reverse]
    exact hval

theorem objectBytes_ofObjectBytes (host : Endian) (n : Nat) (bytes : List UInt8)
    (h : bytes.length = n) : host.objectBytes n (host.ofObjectBytes n bytes) = bytes := by
  have hback : ∀ bs : List UInt8, bs.length = n →
      leBytes n (BitVec.ofNat (8 * n) (leVal bs)).toNat = bs := by
    intro bs hbs
    have hlt := leVal_lt bs
    subst hbs
    rw [BitVec.toNat_ofNat, two_pow_eight_mul, Nat.mod_eq_of_lt hlt, leBytes_leVal]
  cases host with
  | little => exact hback bytes h
  | big =>
    have hr := hback bytes.reverse (by rw [List.length_reverse, h])
    rw [ofObjectBytes, objectBytes, hr, List.reverse_reverse]

theorem htobe_htobe (host : Endian) (n : Nat) (x : BitVec (8 * n)) :
    host.htobe n (host.htobe n x) = x := by
  have hback := htobe_ofObjectBytes host n (host.objectBytes n (host.htobe n x))
    (length_objectBytes host n _)
  rw [ofObjectBytes_objectBytes, objectBytes_htobe, List.reverse_reverse, leVal_leBytes,
    ← two_pow_eight_mul, Nat.mod_eq_of_lt x.isLt, BitVec.ofNat_toNat, BitVec.setWidth_eq] at hback
  exact hback

end Endian

/-- Byte `i` of the big-endian two's complement encoding in `n` bytes: the digit of weight
`256 ^ (n - 1 - i)` under division that rounds down. -/
def twosComplement (n : Nat) (v : Int) : List UInt8 :=
  (List.range n).map fun i => UInt8.ofNat (v / 256 ^ (n - 1 - i) % 256).toNat

theorem length_twosComplement (n : Nat) (v : Int) : (twosComplement n v).length = n := by
  rw [twosComplement, List.length_map, List.length_range]

theorem emod_ediv_emod (v : Int) (n i : Nat) (hi : i < n) :
    v % 256 ^ n / 256 ^ i % 256 = v / 256 ^ i % 256 := by
  obtain ⟨k, rfl⟩ := Nat.exists_eq_add_of_lt hi
  have hpos : (0 : Int) < 256 ^ i := Int.pow_pos (by decide)
  have hsplit : (256 : Int) ^ (i + k + 1) = 256 ^ i * (256 * 256 ^ k) := by ring
  have hmod : v % 256 ^ (i + k + 1) =
      v + 256 ^ i * -(256 * (256 ^ k * (v / 256 ^ (i + k + 1)))) := by
    rw [Int.emod_def, hsplit]
    ring
  rw [hmod, Int.add_mul_ediv_left _ _ hpos.ne', ← Int.mul_neg, Int.add_mul_emod_self_left]

theorem leBytes_toNat_ofInt (n : Nat) (v : Int) :
    (leBytes n (BitVec.ofInt (8 * n) v).toNat).reverse = twosComplement n v := by
  rw [leBytes_eq_map, ← List.map_reverse, List.range_eq_range', List.reverse_range',
    List.map_map]
  apply List.map_congr_left
  intro i hi
  have hin : i < n := List.mem_range.mp hi
  have hdigit := emod_ediv_emod v n (0 + n - 1 - i) (by omega)
  have hnat : ((BitVec.ofInt (8 * n) v).toNat : Int) = v % 256 ^ n := by
    rw [BitVec.toNat_ofInt, two_pow_eight_mul, Int.toNat_of_nonneg]
    · push_cast
      rfl
    · apply Int.emod_nonneg
      exact Int.natCast_ne_zero.mpr (Nat.pow_pos (by decide)).ne'
  rw [Function.comp_apply]
  apply UInt8.toNat_inj.mp
  rw [UInt8.toNat_ofNat', UInt8.toNat_ofNat']
  have hz : n - 1 - i = 0 + n - 1 - i := by omega
  have hcast : ((BitVec.ofInt (8 * n) v).toNat : Int) / 256 ^ (0 + n - 1 - i) % 256 =
      ((BitVec.ofInt (8 * n) v).toNat / 256 ^ (0 + n - 1 - i) % 256 : Nat) := by
    rw [Int.natCast_emod, Int.natCast_ediv, Int.natCast_pow]
    rfl
  rw [hz, ← hdigit, ← hnat, hcast, Int.toNat_natCast, Nat.mod_mod]

namespace Endian

theorem objectBytes_htobe_ofInt (host : Endian) (n : Nat) (v : Int) :
    host.objectBytes n (host.htobe n (.ofInt _ v)) = twosComplement n v := by
  rw [objectBytes_htobe, leBytes_toNat_ofInt]

theorem htobe_ofObjectBytes_twosComplement (host : Endian) (n : Nat) (v : Int) :
    host.htobe n (host.ofObjectBytes n (twosComplement n v)) = .ofInt _ v := by
  rw [htobe_ofObjectBytes host n _ (length_twosComplement n v), ← leBytes_toNat_ofInt,
    List.reverse_reverse, leVal_leBytes, ← two_pow_eight_mul]
  apply BitVec.eq_of_toNat_eq
  rw [BitVec.toNat_ofNat, Nat.mod_mod, Nat.mod_eq_of_lt (BitVec.isLt _)]

end Endian

end TstMuduo.Lib
