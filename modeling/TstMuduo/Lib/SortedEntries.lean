import Mathlib.Data.List.Sort

/-!
# Entries in the order of their keys

A multimap as the list of its entries: a new entry goes behind those with the same key. A lookup
on a ring gives the first entry from a key on, and the smallest one past the end.
-/

namespace TstMuduo.Lib

variable {κ β : Type} [LinearOrder κ]

def insertEntry (e : κ × β) : List (κ × β) → List (κ × β)
  | [] => [e]
  | d :: ds => if e.1 < d.1 then e :: d :: ds else d :: insertEntry e ds

def SortedByKey (l : List (κ × β)) : Prop := l.Pairwise fun a b => a.1 ≤ b.1

/-- The first entry whose key is not below `k`, or else the first of all. -/
def route (k : κ) (l : List (κ × β)) : Option (κ × β) :=
  (l.find? fun e => decide (k ≤ e.1)).or l.head?

variable {e d : κ × β} {l : List (κ × β)} {k : κ}

theorem insertEntry_perm (e : κ × β) (l : List (κ × β)) : (insertEntry e l).Perm (e :: l) := by
  induction l with
  | nil => exact List.Perm.refl _
  | cons d ds ih =>
    unfold insertEntry
    split
    · exact List.Perm.refl _
    · exact (ih.cons d).trans (List.Perm.swap e d ds)

theorem SortedByKey.insert (h : SortedByKey l) (e : κ × β) : SortedByKey (insertEntry e l) := by
  induction l with
  | nil => exact List.pairwise_singleton _ e
  | cons d ds ih =>
    obtain ⟨hd, hds⟩ := List.pairwise_cons.mp h
    unfold insertEntry
    split
    next hlt =>
      apply List.pairwise_cons.mpr
      refine ⟨?_, h⟩
      intro a ha
      rcases List.mem_cons.mp ha with rfl | ha
      · exact le_of_lt hlt
      · exact (le_of_lt hlt).trans (hd a ha)
    next hge =>
      apply List.pairwise_cons.mpr
      refine ⟨?_, ih hds⟩
      intro a ha
      rcases List.mem_cons.mp ((insertEntry_perm e ds).mem_iff.mp ha) with rfl | ha
      · exact not_lt.mp hge
      · exact hd a ha

theorem filter_insertEntry {p : κ × β → Bool} (he : ¬ p e = true) (l : List (κ × β)) :
    (insertEntry e l).filter p = l.filter p := by
  induction l with
  | nil => exact List.filter_cons_of_neg he
  | cons d ds ih =>
    unfold insertEntry
    split
    · exact List.filter_cons_of_neg he
    · rw [List.filter_cons, List.filter_cons, ih]

/-- The entries with one key stand together. -/
theorem SortedByKey.split (h : SortedByKey l) (k : κ) :
    ∃ below equal above, l = below ++ (equal ++ above) ∧ (∀ e ∈ below, e.1 < k) ∧
      (∀ e ∈ equal, e.1 = k) ∧ ∀ e ∈ above, k < e.1 := by
  induction l with
  | nil => exact ⟨[], [], [], rfl, by simp, by simp, by simp⟩
  | cons d ds ih =>
    obtain ⟨hd, hds⟩ := List.pairwise_cons.mp h
    obtain ⟨below, equal, above, hl, hbelow, hequal, habove⟩ := ih hds
    rcases lt_trichotomy d.1 k with hlt | heq | hgt
    · refine ⟨d :: below, equal, above, by rw [hl, List.cons_append], ?_, hequal, habove⟩
      exact List.forall_mem_cons.mpr ⟨hlt, hbelow⟩
    · have hnone : below = [] := by
        apply List.eq_nil_iff_forall_not_mem.mpr
        intro e he
        have hle := hd e (by rw [hl]; exact List.mem_append_left _ he)
        exact absurd (hbelow e he) (not_lt.mpr (heq ▸ hle))
      refine ⟨[], d :: equal, above, by rw [hl, hnone]; rfl, by simp, ?_, habove⟩
      exact List.forall_mem_cons.mpr ⟨heq, hequal⟩
    · refine ⟨[], [], d :: ds, rfl, by simp, by simp, ?_⟩
      exact List.forall_mem_cons.mpr ⟨hgt, fun e he => lt_of_lt_of_le hgt (hd e he)⟩

theorem route_mem (h : route k l = some e) : e ∈ l := by
  rcases Option.or_eq_some_iff.mp h with hfind | ⟨-, hhead⟩
  · exact List.mem_of_find?_eq_some hfind
  · exact List.mem_of_mem_head? hhead

theorem route_isSome (h : l ≠ []) : ∃ e, route k l = some e := by
  obtain ⟨d, ds, rfl⟩ := List.exists_cons_of_ne_nil h
  rw [route, List.head?_cons]
  cases (d :: ds).find? fun e => decide (k ≤ e.1) with
  | none => exact ⟨d, rfl⟩
  | some e => exact ⟨e, rfl⟩

omit [LinearOrder κ] in
theorem find?_filter_of_find? {p q : κ × β → Bool} (h : l.find? q = some e) (he : p e = true) :
    (l.filter p).find? q = some e := by
  induction l with
  | nil => cases h
  | cons d ds ih =>
    by_cases hq : q d = true
    · rw [List.find?_cons_of_pos hq] at h
      cases h
      rw [List.filter_cons_of_pos he, List.find?_cons_of_pos hq]
    · rw [List.find?_cons_of_neg hq] at h
      rw [List.filter_cons]
      split
      · rw [List.find?_cons_of_neg hq]
        exact ih h
      · exact ih h

theorem route_filter {p : κ × β → Bool} (h : route k l = some e) (he : p e = true) :
    route k (l.filter p) = some e := by
  rcases Option.or_eq_some_iff.mp h with hfind | ⟨hnone, hhead⟩
  · rw [route, find?_filter_of_find? hfind he]
    rfl
  · have hnone' : (l.filter p).find? (fun e => decide (k ≤ e.1)) = none := by
      rw [List.find?_eq_none] at hnone ⊢
      intro d hd
      exact hnone d (List.mem_of_mem_filter hd)
    obtain ⟨ds, rfl⟩ := List.head?_eq_some_iff.mp hhead
    rw [route, hnone', List.filter_cons_of_pos he]
    rfl

theorem route_eq_of_filter_eq {p : κ × β → Bool} {l' : List (κ × β)} {e' : κ × β}
    (hl : l.filter p = l'.filter p) (h : route k l = some e) (he : p e = true)
    (h' : route k l' = some e') (he' : p e' = true) : e = e' := by
  have h1 := route_filter h he
  rw [hl, route_filter h' he'] at h1
  exact (Option.some.inj h1).symm

end TstMuduo.Lib
