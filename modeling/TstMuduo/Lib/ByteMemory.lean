import Mathlib.Data.List.GetD
import Mathlib.Algebra.Order.Ring.Int

/-!
# A memory of bytes

Reading a run of bytes, writing one, and what a write leaves alone. A memory that is divided into
blocks of equal width is read and written by the block.
-/

namespace TstMuduo.Lib

/-- The `len` bytes from `off` on. -/
def slice (mem : Int → UInt8) (off : Int) (len : Nat) : List UInt8 :=
  (List.range len).map fun i : Nat => mem (off + i)

def store (mem : Int → UInt8) (off : Int) (bytes : List UInt8) : Int → UInt8 := fun a =>
  if off ≤ a ∧ a < off + bytes.length then bytes.getD (a - off).toNat 0 else mem a

variable {mem mem' : Int → UInt8} {off off' : Int} {len : Nat} {bytes : List UInt8}

theorem length_slice (mem : Int → UInt8) (off : Int) (len : Nat) :
    (slice mem off len).length = len := by
  rw [slice, List.length_map, List.length_range]

theorem slice_congr (h : ∀ a, off ≤ a → a < off + len → mem a = mem' a) :
    slice mem off len = slice mem' off len := by
  apply List.map_congr_left
  intro i hi
  have hlt := List.mem_range.mp hi
  exact h (off + i) (by omega) (by omega)

theorem store_outside {a : Int} (h : a < off ∨ off + bytes.length ≤ a) :
    store mem off bytes a = mem a := if_neg (by omega)

theorem slice_store_self (mem : Int → UInt8) (off : Int) (bytes : List UInt8) :
    slice (store mem off bytes) off bytes.length = bytes := by
  apply List.ext_getElem
  · exact length_slice _ _ _
  · intro i hi hlt
    have hin : off ≤ off + i ∧ off + i < off + bytes.length := by omega
    have hpos : (off + i - off).toNat = i := by omega
    simp only [slice, List.getElem_map, List.getElem_range, store, if_pos hin, hpos]
    rw [List.getD_eq_getElem?_getD, List.getElem?_eq_getElem hlt, Option.getD_some]

theorem slice_store_disjoint (h : off + len ≤ off' ∨ off' + bytes.length ≤ off) :
    slice (store mem off' bytes) off len = slice mem off len := by
  apply slice_congr
  intro a hge hlt
  exact store_outside (by omega)

theorem slice_add (mem : Int → UInt8) (off : Int) (m n : Nat) :
    slice mem off (m + n) = slice mem off m ++ slice mem (off + m) n := by
  simp only [slice, List.range_add, List.map_append, List.map_map]
  congr 1
  apply List.map_congr_left
  intro i _
  simp only [Function.comp_apply]
  congr 1
  omega

theorem store_append (mem : Int → UInt8) (off : Int) (bs cs : List UInt8) :
    store (store mem off bs) (off + bs.length) cs = store mem off (bs ++ cs) := by
  funext a
  simp only [store, List.length_append]
  by_cases hcs : off + bs.length ≤ a ∧ a < off + bs.length + cs.length
  · have hpos : bs.length ≤ (a - off).toNat := by omega
    rw [if_pos hcs, if_pos (by omega), List.getD_append_right _ _ _ _ hpos]
    congr 1
    omega
  · rw [if_neg hcs]
    by_cases hbs : off ≤ a ∧ a < off + bs.length
    · rw [if_pos hbs, if_pos (by omega), List.getD_append _ _ _ _ (by omega)]
    · rw [if_neg hbs, if_neg (by omega)]

theorem slice_store_append (mem : Int → UInt8) (off : Int) (bs cs : List UInt8) :
    slice (store mem off (bs ++ cs)) off bs.length = bs := by
  rw [← store_append, slice_store_disjoint (.inl (Int.le_refl _))]
  exact slice_store_self mem off bs

/-- The bytes from `first` up to `last` in the reverse order. -/
def reverseRange (mem : Int → UInt8) (first last : Int) : Int → UInt8 := fun a =>
  if first ≤ a ∧ a < last then mem (first + last - 1 - a) else mem a

theorem reverseRange_store (mem : Int → UInt8) (off : Int) (bs cs : List UInt8) :
    reverseRange (store mem off (bs ++ cs)) off (off + bs.length) =
      store mem off (bs.reverse ++ cs) := by
  funext a
  simp only [reverseRange, store, List.length_append, List.length_reverse]
  by_cases hbs : off ≤ a ∧ a < off + bs.length
  · have hmirror : (off + (off + bs.length) - 1 - a - off).toNat =
        bs.length - 1 - (a - off).toNat := by omega
    have hlt : (a - off).toNat < bs.length := by omega
    rw [if_pos hbs, if_pos (by omega), if_pos (by omega), hmirror,
      List.getD_append _ _ _ _ (by omega), List.getD_append _ _ _ _ (by rwa [List.length_reverse]),
      List.getD_eq_getElem?_getD, List.getD_eq_getElem?_getD, List.getElem?_reverse hlt]
  · rw [if_neg hbs]
    by_cases hcs : off ≤ a ∧ a < off + (bs.length + cs.length : Nat)
    · rw [if_pos hcs, if_pos hcs, List.getD_append_right _ _ _ _ (by omega),
        List.getD_append_right _ _ _ _ (by rw [List.length_reverse]; omega), List.length_reverse]
    · rw [if_neg hcs, if_neg hcs]

/-! ### Blocks -/

variable {w p k a : Int}

theorem block_of_range (hw : 0 < w) (hge : p * w ≤ a) (hlt : a < (p + k) * w) :
    p ≤ a / w ∧ a / w < p + k :=
  ⟨(Int.le_ediv_iff_mul_le hw).mpr hge, (Int.ediv_lt_iff_lt_mul hw).mpr hlt⟩

theorem slice_congr_blocks (hw : 0 < w) (hge : p * w ≤ off) (hle : off + len ≤ (p + k) * w)
    (h : ∀ a, p ≤ a / w → a / w < p + k → mem a = mem' a) :
    slice mem off len = slice mem' off len := by
  apply slice_congr
  intro a ha hlt
  obtain ⟨h1, h2⟩ := block_of_range hw (hge.trans ha) (Int.lt_of_lt_of_le hlt hle)
  exact h a h1 h2

theorem store_other_block (hw : 0 < w) (hge : p * w ≤ off)
    (hle : off + bytes.length ≤ (p + k) * w) (h : a / w < p ∨ p + k ≤ a / w) :
    store mem off bytes a = mem a := by
  apply store_outside
  by_contra hin
  obtain ⟨h1, h2⟩ := block_of_range hw (p := p) (k := k) (a := a) (by omega) (by omega)
  omega

end TstMuduo.Lib
