import Mathlib.Data.List.Sort

/-!
# The heap algorithms of the standard library

`make_heap`, `push_heap` and `pop_heap` on a range with a comparison: what is promised of
them. A comparison is a strict weak order, and in a heap no element is below its parent.
-/

namespace TstMuduo.Lib

variable {α : Type}

structure WeakOrder (comp : α → α → Bool) : Prop where
  asymm : ∀ a b, comp a b = true → comp b a = false
  negTrans : ∀ a b c, comp a b = false → comp b c = false → comp a c = false

theorem WeakOrder.ofKey (key : α → Int) : WeakOrder fun a b => decide (key a > key b) where
  asymm a b h := decide_eq_false (Int.not_lt.mpr (Int.le_of_lt (of_decide_eq_true h)))
  negTrans a b c hab hbc := by
    have h1 := of_decide_eq_false hab
    have h2 := of_decide_eq_false hbc
    exact decide_eq_false (by omega)

def IsHeap (comp : α → α → Bool) (l : List α) : Prop :=
  ∀ i a b, 0 < i → l[(i - 1) / 2]? = some a → l[i]? = some b → comp a b = false

variable {comp comp' : α → α → Bool} {l : List α}

theorem IsHeap.nil : IsHeap comp [] := fun _ _ _ _ _ hb => by cases hb

theorem IsHeap.congr (h : IsHeap comp l) (hc : ∀ a ∈ l, ∀ b ∈ l, comp' a b = comp a b) :
    IsHeap comp' l := by
  intro i a b hi ha hb
  rw [hc a (List.mem_of_getElem? ha) b (List.mem_of_getElem? hb)]
  exact h i a b hi ha hb

theorem IsHeap.of_pairwise (h : l.Pairwise fun a b => comp a b = false) : IsHeap comp l := by
  intro i a b hi ha hb
  obtain ⟨hai, rfl⟩ := List.getElem?_eq_some_iff.mp ha
  obtain ⟨hbi, rfl⟩ := List.getElem?_eq_some_iff.mp hb
  exact List.pairwise_iff_getElem.mp h _ _ hai hbi (by omega)

/-- The element at the top is not below any other. -/
theorem IsHeap.root (hcomp : WeakOrder comp) {a : α} (h : IsHeap comp (a :: l)) {b : α}
    (hb : b ∈ l) : comp a b = false := by
  have hindex : ∀ i c, 0 < i → (a :: l)[i]? = some c → comp a c = false := by
    intro i
    induction i using Nat.strongRecOn with
    | ind i ih =>
      intro c hi hc
      by_cases hparent : (i - 1) / 2 = 0
      · exact h i a c hi (by rw [hparent]; rfl) hc
      · have hlt : (i - 1) / 2 < (a :: l).length :=
          Nat.lt_of_le_of_lt (by omega) (List.getElem?_eq_some_iff.mp hc).1
        have hp := List.getElem?_eq_getElem hlt
        exact hcomp.negTrans a _ c (ih _ (by omega) _ (Nat.pos_of_ne_zero hparent) hp)
          (h i _ c hi hp hc)
  obtain ⟨i, hi, rfl⟩ := List.mem_iff_getElem.mp hb
  exact hindex (i + 1) _ (Nat.succ_pos i) (List.getElem?_eq_getElem (by simpa using hi))

/-- The algorithms with what the standard says of them: `make_heap` makes a heap of its range,
`push_heap` takes in the last element, and `pop_heap` moves the top to the end. -/
structure StdHeap (α : Type) where
  makeHeap : (α → α → Bool) → List α → List α
  pushHeap : (α → α → Bool) → List α → List α
  popHeap : (α → α → Bool) → List α → List α
  make_perm : ∀ comp l, WeakOrder comp → (makeHeap comp l).Perm l
  make_heap : ∀ comp l, WeakOrder comp → IsHeap comp (makeHeap comp l)
  push_perm : ∀ comp l a, WeakOrder comp → IsHeap comp l →
    (pushHeap comp (l ++ [a])).Perm (l ++ [a])
  push_heap : ∀ comp l a, WeakOrder comp → IsHeap comp l → IsHeap comp (pushHeap comp (l ++ [a]))
  pop : ∀ comp a l, WeakOrder comp → IsHeap comp (a :: l) →
    ∃ rest, popHeap comp (a :: l) = rest ++ [a] ∧ rest.Perm l ∧ IsHeap comp rest

namespace StdHeap

def sort (comp : α → α → Bool) (l : List α) : List α :=
  l.insertionSort fun a b => comp a b = false

theorem sort_perm (comp : α → α → Bool) (l : List α) : (sort comp l).Perm l :=
  List.perm_insertionSort _ l

theorem sort_heap (hcomp : WeakOrder comp) (l : List α) : IsHeap comp (sort comp l) := by
  have htotal : Std.Total fun a b => comp a b = false := by
    constructor
    intro a b
    cases hab : comp a b with
    | false => exact .inl rfl
    | true => exact .inr (hcomp.asymm a b hab)
  have htrans : IsTrans α fun a b => comp a b = false := ⟨hcomp.negTrans⟩
  exact IsHeap.of_pairwise (List.pairwise_insertionSort _ l)

/- Heaps that are kept sorted. -/
def sorted (α : Type) : StdHeap α where
  makeHeap := sort
  pushHeap := sort
  popHeap comp l :=
    match l with
    | [] => []
    | a :: rest => sort comp rest ++ [a]
  make_perm comp l _ := sort_perm comp l
  make_heap _ l hcomp := sort_heap hcomp l
  push_perm comp l a _ _ := sort_perm comp (l ++ [a])
  push_heap _ l a hcomp _ := sort_heap hcomp (l ++ [a])
  pop comp _ l hcomp _ := ⟨sort comp l, rfl, sort_perm comp l, sort_heap hcomp l⟩

end StdHeap

end TstMuduo.Lib
