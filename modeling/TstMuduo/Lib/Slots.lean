import Mathlib.Data.List.Nodup

/-!
# Tables of lists

A table has a list of entries in each slot, and the entries have keys. Each key stays in one
place when an entry with a new key comes, when an entry goes, and when the entries of one slot
are dealt to the others.
-/

namespace TstMuduo.Lib

variable {α κ : Type}

/-- No key is in the first `n` slots twice. -/
structure Slotted (key : α → κ) (n : Nat) (lists : Nat → List α) : Prop where
  nodup : ∀ i < n, ((lists i).map key).Nodup
  apart : ∀ i < n, ∀ j < n, ∀ a ∈ lists i, ∀ b ∈ lists j, key a = key b → i = j

def pushSlot (lists : Nat → List α) (j : Nat) (a : α) : Nat → List α :=
  Function.update lists j (lists j ++ [a])

/- The entries of a slot, after `f`, dealt to the slots that `home` says; the slot is left
empty. -/
def dealSlot (lists : Nat → List α) (j : Nat) (f : α → α) (home : α → Nat) : Nat → List α :=
  Function.update (fun i => lists i ++ ((lists j).map f).filter fun a => home a = i) j []

variable {key : α → κ} {n i j : Nat} {lists : Nat → List α} {a b x : α} {before after : List α}
  {f : α → α} {home : α → Nat}

theorem mem_pushSlot : b ∈ pushSlot lists j a i ↔ b ∈ lists i ∨ (i = j ∧ b = a) := by
  unfold pushSlot
  by_cases hij : i = j
  · subst hij
    simp [Function.update_self]
  · simp [hij]

theorem pushSlot_append_filter (home : α → Nat) (lists : Nat → List α) (a : α) (rest : List α)
    (i : Nat) : pushSlot lists (home a) a i ++ rest.filter (fun a => home a = i) =
      lists i ++ (a :: rest).filter fun a => home a = i := by
  unfold pushSlot
  rw [List.filter_cons]
  by_cases hi : home a = i
  · subst hi
    rw [Function.update_self, if_pos (decide_eq_true rfl), List.append_assoc, List.singleton_append]
  · rw [Function.update_of_ne (Ne.symm hi), if_neg (by simpa using hi)]

theorem mem_dealSlot : b ∈ dealSlot lists j f home i ↔
    i ≠ j ∧ (b ∈ lists i ∨ ∃ a ∈ lists j, b = f a ∧ home b = i) := by
  unfold dealSlot
  by_cases hij : i = j
  · subst hij
    simp [Function.update_self]
  · rw [Function.update_of_ne hij, List.mem_append, List.mem_filter, List.mem_map,
      decide_eq_true_iff]
    constructor
    · rintro (hb | ⟨⟨a, ha, rfl⟩, hhome⟩)
      · exact ⟨hij, .inl hb⟩
      · exact ⟨hij, .inr ⟨a, ha, rfl, hhome⟩⟩
    · rintro ⟨-, hb | ⟨a, ha, rfl, hhome⟩⟩
      · exact .inl hb
      · exact .inr ⟨⟨a, ha, rfl⟩, hhome⟩

namespace Slotted

theorem push (h : Slotted key n lists) (j : Nat)
    (hnew : ∀ i < n, ∀ b ∈ lists i, key b ≠ key a) : Slotted key n (pushSlot lists j a) := by
  constructor
  · intro i hi
    unfold pushSlot
    by_cases hij : i = j
    · subst hij
      rw [Function.update_self, List.map_append]
      refine List.nodup_append.mpr ⟨h.nodup i hi, List.nodup_singleton _, ?_⟩
      intro k hk k' hk' hkk
      obtain ⟨b, hb, rfl⟩ := List.mem_map.mp hk
      exact hnew i hi b hb (hkk.trans (List.mem_singleton.mp hk'))
    · rw [Function.update_of_ne hij]
      exact h.nodup i hi
  · intro i hi k hk b hb c hc hbc
    rcases mem_pushSlot.mp hb with hb | ⟨hij, hba⟩ <;>
      rcases mem_pushSlot.mp hc with hc | ⟨hkj, hca⟩
    · exact h.apart i hi k hk b hb c hc hbc
    · exact (hnew i hi b hb (hca ▸ hbc)).elim
    · exact (hnew k hk c hc (hba ▸ hbc).symm).elim
    · exact hij.trans hkj.symm

theorem mem_remove (h : Slotted key n lists) (hi : i < n) (hj : j < n)
    (hsplit : lists j = before ++ x :: after) :
    b ∈ Function.update lists j (before ++ after) i ↔ b ∈ lists i ∧ key b ≠ key x := by
  have hx : x ∈ lists j := by
    rw [hsplit]
    exact List.mem_append_right _ List.mem_cons_self
  by_cases hij : i = j
  · subst hij
    have hnodup := h.nodup i hi
    rw [hsplit, List.map_append, List.map_cons, List.nodup_middle, List.nodup_cons,
      ← List.map_append] at hnodup
    rw [Function.update_self, hsplit, List.mem_append, List.mem_append, List.mem_cons]
    constructor
    · intro hb
      refine ⟨hb.imp_right .inr, fun he => hnodup.1 (he ▸ List.mem_map_of_mem ?_)⟩
      exact List.mem_append.mpr hb
    · rintro ⟨hb | rfl | hb, hne⟩
      · exact .inl hb
      · exact (hne rfl).elim
      · exact .inr hb
  · rw [Function.update_of_ne hij]
    exact ⟨fun hb => ⟨hb, fun he => hij (h.apart i hi j hj b hb x hx he)⟩, And.left⟩

theorem remove (h : Slotted key n lists) (hj : j < n) (hsplit : lists j = before ++ x :: after) :
    Slotted key n (Function.update lists j (before ++ after)) := by
  constructor
  · intro i hi
    by_cases hij : i = j
    · subst hij
      have hnodup := h.nodup i hi
      rw [hsplit, List.map_append, List.map_cons, List.nodup_middle, List.nodup_cons,
        ← List.map_append] at hnodup
      rw [Function.update_self]
      exact hnodup.2
    · rw [Function.update_of_ne hij]
      exact h.nodup i hi
  · intro i hi k hk a ha b hb hab
    exact h.apart i hi k hk a ((h.mem_remove hi hj hsplit).mp ha).1 b
      ((h.mem_remove hk hj hsplit).mp hb).1 hab

theorem deal (h : Slotted key n lists) (hj : j < n) (home : α → Nat)
    (hkey : ∀ a, key (f a) = key a) : Slotted key n (dealSlot lists j f home) := by
  have hother : ∀ {i}, i < n → i ≠ j → ∀ b ∈ lists i, ∀ a ∈ lists j, key b ≠ key (f a) := by
    intro i hi hij b hb a ha he
    exact hij (h.apart i hi j hj b hb a ha (he.trans (hkey a)))
  constructor
  · intro i hi
    unfold dealSlot
    by_cases hij : i = j
    · subst hij
      rw [Function.update_self]
      exact List.nodup_nil
    · have hkeys : ((lists j).map f).map key = (lists j).map key := by
        rw [List.map_map]
        exact List.map_congr_left fun a _ => hkey a
      rw [Function.update_of_ne hij, List.map_append]
      refine List.nodup_append.mpr ⟨h.nodup i hi, ?_, ?_⟩
      · exact (hkeys ▸ h.nodup j hj).sublist (List.filter_sublist.map _)
      · intro k hk k' hk' hkk
        obtain ⟨b, hb, rfl⟩ := List.mem_map.mp hk
        obtain ⟨c, hc, rfl⟩ := List.mem_map.mp hk'
        obtain ⟨a, ha, rfl⟩ := List.mem_map.mp (List.mem_filter.mp hc).1
        exact hother hi hij b hb a ha hkk
  · intro i hi k hk b hb c hc hbc
    obtain ⟨hij, hb | ⟨a, ha, rfl, hfi⟩⟩ := mem_dealSlot.mp hb <;>
      obtain ⟨hkj, hc | ⟨d, hd, rfl, hfk⟩⟩ := mem_dealSlot.mp hc
    · exact h.apart i hi k hk b hb c hc hbc
    · exact (hother hi hij b hb d hd hbc).elim
    · exact (hother hk hkj c hc a ha hbc.symm).elim
    · rw [hkey, hkey] at hbc
      cases List.inj_on_of_nodup_map (h.nodup j hj) ha hd hbc
      exact hfi.symm.trans hfk

end Slotted

end TstMuduo.Lib
