import Mathlib.Data.List.Nodup
import Mathlib.Logic.Function.Basic

/-!
# Doubly linked lists in a heap

Cells with a value and two nullable pointers. `Chain` says that the pointers from a head
on run through the cells of a list and back; the two edits are a cell in front and the
removal of a cell anywhere.
-/

namespace TstMuduo.Lib

variable {α : Type}

structure LinkCell (α : Type) where
  value : α
  prev : Option Nat
  next : Option Nat

abbrev LinkHeap (α : Type) := Nat → Option (LinkCell α)

namespace LinkHeap

def setPrev (h : LinkHeap α) (p : Option Nat) (prev : Option Nat) : LinkHeap α :=
  match p with
  | none => h
  | some i => Function.update h i ((h i).map fun c => { c with prev := prev })

def setNext (h : LinkHeap α) (p : Option Nat) (next : Option Nat) : LinkHeap α :=
  match p with
  | none => h
  | some i => Function.update h i ((h i).map fun c => { c with next := next })

def free (h : LinkHeap α) (i : Nat) : LinkHeap α := Function.update h i none

def unlink (h : LinkHeap α) (i : Nat) (c : LinkCell α) : LinkHeap α :=
  ((h.setNext c.prev c.next).setPrev c.next c.prev).free i

/- A new cell in front of the cell at `head`, if there is one. -/
def push (h : LinkHeap α) (i : Nat) (a : α) (head : Option Nat) : LinkHeap α :=
  Function.update (h.setPrev head (some i)) i (some ⟨a, none, head⟩)

theorem setPrev_of_ne {h : LinkHeap α} {p : Option Nat} {prev : Option Nat} {j : Nat}
    (hj : p ≠ some j) : h.setPrev p prev j = h j := by
  cases p with
  | none => rfl
  | some i => exact Function.update_of_ne (fun he => hj (by rw [he])) _ _

theorem setNext_of_ne {h : LinkHeap α} {p : Option Nat} {next : Option Nat} {j : Nat}
    (hj : p ≠ some j) : h.setNext p next j = h j := by
  cases p with
  | none => rfl
  | some i => exact Function.update_of_ne (fun he => hj (by rw [he])) _ _

theorem setPrev_self {h : LinkHeap α} {j : Nat} {c : LinkCell α} (prev : Option Nat)
    (hc : h j = some c) : h.setPrev (some j) prev j = some { c with prev := prev } := by
  simp only [setPrev, Function.update_self, hc, Option.map_some]

theorem setNext_self {h : LinkHeap α} {j : Nat} {c : LinkCell α} (next : Option Nat)
    (hc : h j = some c) : h.setNext (some j) next j = some { c with next := next } := by
  simp only [setNext, Function.update_self, hc, Option.map_some]

theorem unlink_of_ne {h : LinkHeap α} {i j : Nat} {c : LinkCell α} (hi : j ≠ i)
    (hp : c.prev ≠ some j) (hn : c.next ≠ some j) : h.unlink i c j = h j := by
  rw [unlink, free, Function.update_of_ne hi, setPrev_of_ne hn, setNext_of_ne hp]

/-- From `head` on the cells of the list follow one another, and each points back to the one
before it, the first one to `prev`. -/
def Chain (h : LinkHeap α) : Option Nat → Option Nat → List (Nat × α) → Prop
  | _, head, [] => head = none
  | prev, head, x :: rest =>
    head = some x.1 ∧ ∃ next, h x.1 = some ⟨x.2, prev, next⟩ ∧ Chain h (some x.1) next rest

theorem push_of_ne {h : LinkHeap α} {i j : Nat} {a : α} {head : Option Nat} (hi : j ≠ i)
    (hj : head ≠ some j) : h.push i a head j = h j := by
  rw [push, Function.update_of_ne hi, setPrev_of_ne hj]

variable {h h' : LinkHeap α} {prev head : Option Nat} {l : List (Nat × α)}

theorem Chain.frame (hl : h.Chain prev head l) (hf : ∀ x ∈ l, h' x.1 = h x.1) :
    h'.Chain prev head l := by
  induction l generalizing prev head with
  | nil => exact hl
  | cons x rest ih =>
    obtain ⟨hhead, next, hx, hrest⟩ := hl
    refine ⟨hhead, next, ?_, ih hrest fun y hy => hf y (List.mem_cons_of_mem _ hy)⟩
    rw [hf x List.mem_cons_self]
    exact hx

theorem Chain.cell (hl : h.Chain prev head l) {x : Nat × α} (hx : x ∈ l) :
    ∃ p n, h x.1 = some ⟨x.2, p, n⟩ := by
  induction l generalizing prev head with
  | nil => cases hx
  | cons y rest ih =>
    obtain ⟨_, next, hy, hrest⟩ := hl
    rcases List.mem_cons.mp hx with rfl | hx
    · exact ⟨prev, next, hy⟩
    · exact ih hrest hx

theorem Chain.head_mem (hl : h.Chain prev head l) {i : Nat} (hi : head = some i) :
    i ∈ l.map Prod.fst := by
  cases l with
  | nil => cases hl.symm.trans hi
  | cons x rest =>
    cases hl.1.symm.trans hi
    exact List.mem_cons_self

theorem Chain.head_eq (hl : h.Chain prev head l) : head = l.head?.map Prod.fst := by
  cases l with
  | nil => exact hl
  | cons x rest => exact hl.1

/-- A cell that was free goes to the front. -/
theorem Chain.push {i : Nat} {a : α} (hl : h.Chain none head l) (hi : ∀ x ∈ l, x.1 ≠ i)
    (hnodup : (l.map Prod.fst).Nodup) : (h.push i a head).Chain none (some i) ((i, a) :: l) := by
  refine ⟨rfl, head, Function.update_self _ _ _, ?_⟩
  cases l with
  | nil => exact hl
  | cons x rest =>
    obtain ⟨rfl, next, hx, hrest⟩ := hl
    have hne := hi x List.mem_cons_self
    refine ⟨rfl, next, ?_, hrest.frame ?_⟩
    · rw [LinkHeap.push, Function.update_of_ne hne, setPrev_self _ hx]
    · intro y hy
      have hxy : x.1 ≠ y.1 := by
        intro he
        rw [List.map_cons, List.nodup_cons] at hnodup
        exact hnodup.1 (by rw [he]; exact List.mem_map_of_mem hy)
      rw [LinkHeap.push, Function.update_of_ne (hi y (List.mem_cons_of_mem _ hy)),
        setPrev_of_ne fun he => hxy (Option.some.inj he)]

/-- Where a cell of a chain points: its neighbours are the elements beside it. -/
theorem Chain.split {before after : List (Nat × α)} {x : Nat × α}
    (hl : h.Chain prev head (before ++ x :: after)) :
    ∃ c, h x.1 = some c ∧ c.value = x.2 ∧
      c.prev = (if before = [] then prev else before.getLast?.map Prod.fst) ∧
      c.next = after.head?.map Prod.fst ∧ h.Chain (some x.1) c.next after ∧
      (before = [] → head = some x.1) := by
  induction before generalizing prev head with
  | nil =>
    obtain ⟨hhead, next, hx, hrest⟩ := hl
    exact ⟨⟨x.2, prev, next⟩, hx, rfl, rfl, hrest.head_eq, hrest, fun _ => hhead⟩
  | cons y before ih =>
    obtain ⟨_, next, _, hrest⟩ := hl
    obtain ⟨c, hc, hv, hp, hn, hafter, _⟩ := ih hrest
    refine ⟨c, hc, hv, ?_, hn, hafter, fun he => by cases he⟩
    rw [if_neg (by simp), hp]
    cases before with
    | nil => rfl
    | cons z before =>
      rw [if_neg (by simp)]
      rfl

theorem Chain.unlink_of_notMem {before after : List (Nat × α)} {x : Nat × α} {c : LinkCell α}
    (hl : h.Chain none head (before ++ x :: after)) (hc : h x.1 = some c) {j : Nat}
    (hj : j ∉ (before ++ x :: after).map Prod.fst) : h.unlink x.1 c j = h j := by
  obtain ⟨c', hc', _, hprev, hnext, _, _⟩ := hl.split
  cases hc.symm.trans hc'
  refine unlink_of_ne (fun he => hj (by rw [he]; simp)) ?_ ?_
  · intro he
    rw [hprev] at he
    split at he
    · cases he
    · obtain ⟨z, hz, rfl⟩ := Option.map_eq_some_iff.mp he
      exact hj (List.mem_map_of_mem (List.mem_append_left _ (List.mem_of_getLast? hz)))
  · intro he
    obtain ⟨z, hz, rfl⟩ := Option.map_eq_some_iff.mp (hnext.symm.trans he)
    have hmem : z ∈ after := List.mem_of_mem_head? hz
    exact hj (List.mem_map_of_mem (List.mem_append_right _ (List.mem_cons_of_mem _ hmem)))

/-- Without one of its cells a chain is a chain; the head moves if the cell was the first. -/
theorem Chain.unlink {before after : List (Nat × α)} {x : Nat × α} {c : LinkCell α}
    (hl : h.Chain prev head (before ++ x :: after)) (hc : h x.1 = some c)
    (hnodup : ((before ++ x :: after).map Prod.fst).Nodup)
    (hprev : ∀ y ∈ before ++ x :: after, prev ≠ some y.1) :
    (h.unlink x.1 c).Chain prev (if before = [] then c.next else head) (before ++ after) := by
  induction before generalizing prev head with
  | nil =>
    obtain ⟨_, next, hx, hrest⟩ := hl
    rw [hc] at hx
    cases hx
    rw [List.nil_append, List.map_cons, List.nodup_cons] at hnodup
    have hne : ∀ y ∈ after, y.1 ≠ x.1 := by
      intro y hy he
      exact hnodup.1 (by rw [← he]; exact List.mem_map_of_mem hy)
    rw [if_pos rfl, List.nil_append]
    cases after with
    | nil => exact hrest
    | cons y after =>
      obtain ⟨hnext, n, hy, hafter⟩ := hrest
      subst hnext
      have hyp : prev ≠ some y.1 := hprev y (by simp)
      refine ⟨rfl, n, ?_, hafter.frame ?_⟩
      · rw [LinkHeap.unlink, free, Function.update_of_ne (hne y List.mem_cons_self)]
        rw [setPrev_self (c := ⟨y.2, some x.1, n⟩) _ (by rw [setNext_of_ne hyp]; exact hy)]
      · intro z hz
        have hzy : y.1 ≠ z.1 := by
          intro he
          have hd := hnodup.2
          rw [List.map_cons, List.nodup_cons] at hd
          exact hd.1 (by rw [he]; exact List.mem_map_of_mem hz)
        exact unlink_of_ne (hne z (List.mem_cons_of_mem _ hz))
          (hprev z (by simp [hz])) fun he => hzy (Option.some.inj he)
  | cons y before ih =>
    obtain ⟨hhead, next, hy, hrest⟩ := hl
    obtain ⟨c', hc', _, hp, hn, _, hfirst⟩ := Chain.split hrest
    cases hc.symm.trans hc'
    rw [List.cons_append, List.map_cons, List.nodup_cons] at hnodup
    have hyne : ∀ z ∈ before ++ x :: after, y.1 ≠ z.1 := by
      intro z hz he
      exact hnodup.1 (by rw [he]; exact List.mem_map_of_mem hz)
    have hih := ih hrest hnodup.2 fun z hz he => hyne z hz (Option.some.inj he)
    rw [if_neg (by simp), List.cons_append]
    have hyn : c.next ≠ some y.1 := by
      rw [hn]
      intro he
      obtain ⟨z, hz, hzy⟩ := Option.map_eq_some_iff.mp he
      exact hyne z (by simp [List.mem_of_mem_head? (Option.mem_def.mpr hz)]) hzy.symm
    have hyx : y.1 ≠ x.1 := hyne x (by simp)
    refine ⟨hhead, if before = [] then c.next else next, ?_, hih⟩
    by_cases hb : before = []
    · -- the removed cell was behind this one
      rw [if_pos hb] at hp ⊢
      have hnext := hfirst hb
      rw [LinkHeap.unlink, free, Function.update_of_ne hyx, setPrev_of_ne hyn, hp,
        setNext_self _ hy]
    · rw [if_neg hb] at hp ⊢
      have hyp : c.prev ≠ some y.1 := by
        rw [hp]
        intro he
        obtain ⟨z, hz, hzy⟩ := Option.map_eq_some_iff.mp he
        exact hyne z (by simp [List.mem_of_getLast? hz]) hzy.symm
      rw [unlink_of_ne hyx hyp hyn]
      exact hy

end LinkHeap

end TstMuduo.Lib
