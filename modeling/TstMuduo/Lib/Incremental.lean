import Mathlib.Data.List.Basic

/-!
# Scanning a stream that arrives in pieces

A scanner looks at the input it has not consumed yet and says one of three things:
the input is too short to tell, the scan is over, or a piece at the front is taken and
the scan goes on in a next state. If what is said about some input is not taken back
when more input comes, the scan of a stream does not depend on how it was cut.
-/

namespace TstMuduo.Lib

variable {σ β : Type}

/-- What a scanner says about the input in front of it. -/
inductive Scan (σ : Type) where
  | more
  | halt (t : σ)
  | take (n : Nat) (t : σ)

structure Scanner (σ β : Type) where
  scan : σ → List β → Scan σ
  take_pos : ∀ {s xs n t}, scan s xs = .take n t → 0 < n
  take_le : ∀ {s xs n t}, scan s xs = .take n t → n ≤ xs.length
  take_append : ∀ {s xs n t} (zs), scan s xs = .take n t → scan s (xs ++ zs) = .take n t
  halt_append : ∀ {s xs t} (zs), scan s xs = .halt t → scan s (xs ++ zs) = .halt t

namespace Scanner

/-- From `s` on the input `xs` the scan ends in `t` before `ys`, because it is over
(`true`) or because the input is too short. -/
inductive Drains (S : Scanner σ β) : σ → List β → Bool → σ → List β → Prop
  | more {s xs} : S.scan s xs = .more → Drains S s xs false s xs
  | halt {s xs t} : S.scan s xs = .halt t → Drains S s xs true t xs
  | take {s xs n t stopped u ys} :
    S.scan s xs = .take n t → Drains S t (xs.drop n) stopped u ys → Drains S s xs stopped u ys

variable {S : Scanner σ β} {s t u : σ} {xs ys zs ws : List β} {stopped stopped' : Bool}

theorem exists_drains (S : Scanner σ β) (s : σ) (xs : List β) :
    ∃ stopped t ys, S.Drains s xs stopped t ys := by
  induction h : xs.length using Nat.strongRecOn generalizing s xs with
  | _ k ih =>
    cases hs : S.scan s xs with
    | more => exact ⟨false, s, xs, .more hs⟩
    | halt t => exact ⟨true, t, xs, .halt hs⟩
    | take n t =>
      have hpos := S.take_pos hs
      have hle := S.take_le hs
      have hlt : (xs.drop n).length < k := by
        rw [List.length_drop]
        omega
      obtain ⟨stopped, u, ys, hd⟩ := ih _ hlt t (xs.drop n) rfl
      exact ⟨stopped, u, ys, .take hs hd⟩

namespace Drains

theorem unique (h : S.Drains s xs stopped t ys) (h' : S.Drains s xs stopped' u zs) :
    stopped = stopped' ∧ t = u ∧ ys = zs := by
  induction h generalizing stopped' u zs with
  | more hs =>
    cases h' with
    | more hs' => exact ⟨rfl, rfl, rfl⟩
    | halt hs' => cases hs.symm.trans hs'
    | take hs' _ => cases hs.symm.trans hs'
  | halt hs =>
    cases h' with
    | more hs' => cases hs.symm.trans hs'
    | halt hs' => cases hs.symm.trans hs'; exact ⟨rfl, rfl, rfl⟩
    | take hs' _ => cases hs.symm.trans hs'
  | take hs _ ih =>
    cases h' with
    | more hs' => cases hs.symm.trans hs'
    | halt hs' => cases hs.symm.trans hs'
    | take hs' hd =>
      cases hs.symm.trans hs'
      exact ih hd

theorem suffix (h : S.Drains s xs stopped t ys) : ys <:+ xs := by
  induction h with
  | more _ => exact List.suffix_refl _
  | halt _ => exact List.suffix_refl _
  | take _ _ ih => exact ih.trans (List.drop_suffix _ _)

/-- A scan that waits goes on, when more input comes, as it would have gone with that
input there from the start. -/
theorem append (h : S.Drains s xs false t ys) (h' : S.Drains t (ys ++ zs) stopped u ws) :
    S.Drains s (xs ++ zs) stopped u ws := by
  generalize hw : false = waits at h
  induction h with
  | more _ => exact h'
  | halt _ => cases hw
  | take hs _ ih =>
    refine .take (S.take_append zs hs) ?_
    rw [List.drop_append_of_le_length (S.take_le hs)]
    exact ih h' hw

theorem append_of_over (h : S.Drains s xs true t ys) (zs : List β) :
    S.Drains s (xs ++ zs) true t (ys ++ zs) := by
  generalize hw : true = ends at h
  induction h with
  | more _ => cases hw
  | halt hs => exact .halt (S.halt_append zs hs)
  | take hs _ ih =>
    refine .take (S.take_append zs hs) ?_
    rw [List.drop_append_of_le_length (S.take_le hs)]
    exact ih hw

theorem scan_of_over (hidem : ∀ s xs t, S.scan s xs = .halt t → S.scan t xs = .halt t)
    (h : S.Drains s xs true t ys) : S.scan t ys = .halt t := by
  generalize hw : true = ends at h
  induction h with
  | more _ => cases hw
  | halt hs => exact hidem _ _ _ hs
  | take _ _ ih => exact ih hw

theorem append_again (hidem : ∀ s xs t, S.scan s xs = .halt t → S.scan t xs = .halt t)
    (h : S.Drains s xs stopped t ys) (h' : S.Drains t (ys ++ zs) stopped' u ws) :
    S.Drains s (xs ++ zs) stopped' u ws := by
  cases stopped with
  | false => exact h.append h'
  | true =>
    have hagain : S.Drains t (ys ++ zs) true t (ys ++ zs) :=
      .halt (S.halt_append zs (h.scan_of_over hidem))
    obtain ⟨rfl, rfl, rfl⟩ := hagain.unique h'
    exact h.append_of_over zs

end Drains

end Scanner

end TstMuduo.Lib
