import Mathlib.Data.List.Infix
import Mathlib.Data.List.Count

/-!
# Lines of a text, and the first occurrence of a word

A text of lines ends each of them with a mark that no line holds, so the lines can be read back
from the text.
-/

namespace TstMuduo.Lib
variable {α : Type} {t : α}

/-! ### Lines -/

/-- The text of some lines, each ended by the mark `t`. -/
def unlines (t : α) (ls : List (List α)) : List α := ls.flatMap fun l => l ++ [t]

@[simp] theorem unlines_nil : unlines t [] = [] := rfl

@[simp] theorem unlines_cons (l : List α) (ls : List (List α)) :
    unlines t (l :: ls) = l ++ t :: unlines t ls := by
  simp [unlines]

theorem line_unique {l m r s : List α} (hl : t ∉ l) (hm : t ∉ m)
    (h : l ++ t :: r = m ++ t :: s) : l = m ∧ r = s := by
  induction l generalizing m with
  | nil =>
    cases m with
    | nil => exact ⟨rfl, by simpa using h⟩
    | cons c m =>
      have : t = c := by simpa using congrArg List.head? h
      exact absurd (this ▸ List.mem_cons_self) hm
  | cons c l ih =>
    cases m with
    | nil =>
      have : c = t := by simpa using congrArg List.head? h
      exact absurd (this ▸ List.mem_cons_self) hl
    | cons d m =>
      obtain ⟨hcd, htail⟩ : c = d ∧ l ++ t :: r = m ++ t :: s := by simpa using h
      obtain ⟨hlm, hrs⟩ := ih (fun hc => hl (List.mem_cons_of_mem _ hc))
        (fun hc => hm (List.mem_cons_of_mem _ hc)) htail
      exact ⟨by rw [hcd, hlm], hrs⟩

theorem unlines_inj {ls ms : List (List α)} (hls : ∀ l ∈ ls, t ∉ l) (hms : ∀ m ∈ ms, t ∉ m)
    (h : unlines t ls = unlines t ms) : ls = ms := by
  induction ls generalizing ms with
  | nil =>
    cases ms with
    | nil => rfl
    | cons m ms => simp at h
  | cons l ls ih =>
    cases ms with
    | nil => simp at h
    | cons m ms =>
      rw [unlines_cons, unlines_cons] at h
      obtain ⟨hlm, hrest⟩ := line_unique (hls l List.mem_cons_self) (hms m List.mem_cons_self) h
      have htail := ih (fun a ha => hls a (List.mem_cons_of_mem _ ha))
        (fun a ha => hms a (List.mem_cons_of_mem _ ha)) hrest
      rw [hlm, htail]

/-! ### The first occurrence of a word -/

/-- `word` stands in `s` at `p`, and nowhere before. -/
def FirstAt (word s : List α) (p : Nat) : Prop :=
  word <+: s.drop p ∧ ∀ q < p, ¬ word <+: s.drop q

theorem FirstAt.isInfix {word s : List α} {p : Nat} (h : FirstAt word s p) : word <:+: s :=
  h.1.isInfix.trans (List.drop_suffix p s).isInfix

theorem FirstAt.split {word s : List α} {p : Nat} (h : FirstAt word s p) :
    s = s.take p ++ (word ++ s.drop (p + word.length)) := by
  obtain ⟨rest, hrest⟩ := h.1
  have hdrop : s.drop (p + word.length) = rest := by
    rw [← List.drop_drop, ← hrest, List.drop_left]
  rw [hdrop, hrest, List.take_append_drop]

variable [DecidableEq α]

/-- Where `word` stands first. -/
def findFirst (word : List α) : List α → Option Nat
  | [] => if word = [] then some 0 else none
  | c :: s => if word <+: c :: s then some 0 else (findFirst word s).map (· + 1)

theorem findFirst_eq_some {word s : List α} {p : Nat} (h : findFirst word s = some p) :
    FirstAt word s p := by
  induction s generalizing p with
  | nil =>
    obtain ⟨hw, rfl⟩ : word = [] ∧ 0 = p := by simpa [findFirst] using h
    exact ⟨by simp [hw], fun q hq => absurd hq (Nat.not_lt_zero q)⟩
  | cons c s ih =>
    rw [findFirst] at h
    split_ifs at h with hw
    · obtain rfl : 0 = p := by simpa using h
      exact ⟨hw, fun q hq => absurd hq (Nat.not_lt_zero q)⟩
    · obtain ⟨q, hq, rfl⟩ := Option.map_eq_some_iff.mp h
      obtain ⟨hat, hbefore⟩ := ih hq
      refine ⟨hat, fun i hi => ?_⟩
      cases i with
      | zero => exact hw
      | succ i => exact hbefore i (by omega)

theorem findFirst_eq_none {word s : List α} : findFirst word s = none ↔ ¬ word <:+: s := by
  induction s with
  | nil => simp [findFirst]
  | cons c s ih =>
    rw [findFirst, List.infix_cons_iff]
    split_ifs with hw
    · simp [hw]
    · simp [hw, ih]

end TstMuduo.Lib
