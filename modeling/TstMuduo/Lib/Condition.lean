import Mathlib.Data.List.Perm.Basic

/-!
# Condition variables

A thread that waits is in `waiting` until a notification or a spurious wakeup takes it
out; it is then in `signalled` or `awake` until it has the mutex again. `Served` is the
counting rule that excludes lost wakeups: as long as somebody waits, every unit that a
waiter could take has a signalled thread on its way.
-/

namespace TstMuduo.Lib

structure Condition (ι : Type) where
  waiting : List ι
  signalled : List ι
  awake : List ι
  deriving DecidableEq, Repr

/-- How a thread came out of the wait. -/
inductive Wakeup where
  | signal
  | spurious
  deriving DecidableEq, Repr

namespace Condition

variable {ι : Type}

def empty : Condition ι := ⟨[], [], []⟩

def wait (c : Condition ι) (i : ι) : Condition ι := { c with waiting := c.waiting ++ [i] }

/-- `notify` wakes one waiter, here the one at `k`. Nobody hears it where nobody waits. -/
def notify (c : Condition ι) (k : Nat) : Option (Condition ι) :=
  match c.waiting[k]?, c.waiting with
  | some i, _ => some ⟨c.waiting.eraseIdx k, c.signalled ++ [i], c.awake⟩
  | none, [] => some c
  | none, _ :: _ => none

def notifyAll (c : Condition ι) : Condition ι := ⟨[], c.signalled ++ c.waiting, c.awake⟩

def wakeSpuriously (c : Condition ι) (k : Nat) : Option (Condition ι) :=
  match c.waiting[k]? with
  | some i => some ⟨c.waiting.eraseIdx k, c.signalled, c.awake ++ [i]⟩
  | none => none

/-- A woken thread has the mutex again. -/
def resume (c : Condition ι) (w : Wakeup) (k : Nat) : Option (ι × Condition ι) :=
  match w with
  | .signal => match c.signalled[k]? with
    | some i => some (i, { c with signalled := c.signalled.eraseIdx k })
    | none => none
  | .spurious => match c.awake[k]? with
    | some i => some (i, { c with awake := c.awake.eraseIdx k })
    | none => none

/-- As long as somebody waits, `n` units have a signalled thread each. -/
def Served (c : Condition ι) (n : Nat) : Prop := c.waiting ≠ [] → n ≤ c.signalled.length

variable {c d : Condition ι} {n m k : Nat} {i : ι}

theorem Served.mono (h : c.Served n) (hm : m ≤ n) : c.Served m := by
  intro hw
  have := h hw
  omega

theorem served_zero (c : Condition ι) : c.Served 0 := fun _ => Nat.zero_le _

theorem served_empty (n : Nat) : (empty : Condition ι).Served n := fun h => absurd rfl h

theorem notify_cases (h : c.notify k = some d) :
    (c.waiting = [] ∧ d = c) ∨
      ∃ i, c.waiting[k]? = some i ∧ d = ⟨c.waiting.eraseIdx k, c.signalled ++ [i], c.awake⟩ := by
  unfold notify at h
  split at h
  next i hi => cases h; exact .inr ⟨i, hi, rfl⟩
  next hw => cases h; exact .inl ⟨hw, rfl⟩
  · cases h

/-- A new unit that is notified of. -/
theorem Served.notify (h : c.Served n) (hd : c.notify k = some d) : d.Served (n + 1) := by
  intro hw
  obtain ⟨hnil, rfl⟩ | ⟨i, hi, rfl⟩ := notify_cases hd
  · exact absurd hnil hw
  · have hne : c.waiting ≠ [] := by
      intro hnil
      rw [hnil] at hi
      cases hi
    have hle := h hne
    rw [List.length_append, List.length_singleton]
    omega

theorem served_notifyAll (c : Condition ι) (n : Nat) : c.notifyAll.Served n :=
  fun h => absurd rfl h

theorem Served.wakeSpuriously (h : c.Served n) (hd : c.wakeSpuriously k = some d) :
    d.Served n := by
  unfold Condition.wakeSpuriously at hd
  split at hd
  next i hi =>
    cases hd
    intro _
    apply h
    intro hnil
    rw [hnil] at hi
    cases hi
  · cases hd

/-- A woken thread takes at most the one unit that it was signalled for. -/
theorem Served.resume {w : Wakeup} (h : c.Served n) (hd : c.resume w k = some (i, d)) :
    d.Served (n - 1) := by
  unfold Condition.resume at hd
  split at hd <;> split at hd
  next j hj =>
    cases hd
    intro hw
    have hlt := (List.getElem?_eq_some_iff.mp hj).1
    have hle := h hw
    rw [List.length_eraseIdx_of_lt hlt]
    omega
  · cases hd
  next j hj =>
    cases hd
    intro hw
    have hle := h hw
    change n - 1 ≤ c.signalled.length
    omega
  · cases hd

theorem resume_waiting {w : Wakeup} (hd : c.resume w k = some (i, d)) : d.waiting = c.waiting := by
  unfold resume at hd
  split at hd <;> split at hd <;> cases hd <;> rfl

/-- All threads in the wait or on their way out of it. -/
def threads (c : Condition ι) : List ι := c.waiting ++ c.signalled ++ c.awake

theorem mem_threads_wait {j : ι} (h : j ∈ (c.wait i).threads) : j ∈ c.threads ∨ j = i := by
  simp only [threads, wait, List.mem_append, List.mem_singleton] at h ⊢
  tauto

theorem mem_threads_notifyAll {j : ι} (h : j ∈ c.notifyAll.threads) : j ∈ c.threads := by
  simp only [threads, notifyAll, List.mem_append, List.not_mem_nil, false_or] at h ⊢
  tauto

theorem mem_threads_wakeSpuriously {j : ι} (hd : c.wakeSpuriously k = some d)
    (h : j ∈ d.threads) : j ∈ c.threads := by
  unfold wakeSpuriously at hd
  split at hd
  next i hi =>
    cases hd
    have hmem := List.mem_of_getElem? hi
    simp only [threads, List.mem_append, List.mem_singleton] at h ⊢
    rcases h with (h | h) | h | rfl
    · exact .inl (.inl (List.mem_of_mem_eraseIdx h))
    · exact .inl (.inr h)
    · exact .inr h
    · exact .inl (.inl hmem)
  · cases hd

theorem mem_threads_resume {w : Wakeup} (hd : c.resume w k = some (i, d)) :
    i ∈ c.threads ∧ ∀ j ∈ d.threads, j ∈ c.threads := by
  unfold resume at hd
  split at hd <;> split at hd
  next j hj =>
    cases hd
    refine ⟨?_, fun l hl => ?_⟩
    · exact List.mem_append_left _ (List.mem_append_right _ (List.mem_of_getElem? hj))
    · simp only [threads, List.mem_append] at hl ⊢
      rcases hl with (hl | hl) | hl
      · exact .inl (.inl hl)
      · exact .inl (.inr (List.mem_of_mem_eraseIdx hl))
      · exact .inr hl
  · cases hd
  next j hj =>
    cases hd
    refine ⟨?_, fun l hl => ?_⟩
    · exact List.mem_append_right _ (List.mem_of_getElem? hj)
    · simp only [threads, List.mem_append] at hl ⊢
      rcases hl with hl | hl
      · exact .inl hl
      · exact .inr (List.mem_of_mem_eraseIdx hl)
  · cases hd

theorem notify_waiting_nil (hc : c.waiting = []) (hd : c.notify k = some d) : d = c := by
  obtain ⟨-, rfl⟩ | ⟨i, hi, -⟩ := notify_cases hd
  · rfl
  · rw [hc] at hi
    cases hi

/-- Nobody is on the way out of the wait. -/
def Settled (c : Condition ι) : Prop := c.signalled = [] ∧ c.awake = []

instance [DecidableEq ι] (c : Condition ι) : Decidable c.Settled :=
  inferInstanceAs (Decidable (_ ∧ _))

theorem Settled.threads_eq (h : c.Settled) : c.threads = c.waiting := by
  unfold threads
  rw [h.1, h.2, List.append_nil, List.append_nil]

theorem perm_threads_wait : (c.wait i).threads.Perm (i :: c.threads) := by
  simp only [threads, wait, List.append_assoc]
  exact List.perm_middle

theorem perm_cons_eraseIdx {xs : List ι} (h : xs[k]? = some i) :
    (i :: xs.eraseIdx k).Perm xs := by
  obtain ⟨hlt, rfl⟩ := List.getElem?_eq_some_iff.mp h
  exact List.getElem_cons_eraseIdx_perm hlt

theorem perm_threads_notify (hd : c.notify k = some d) : d.threads.Perm c.threads := by
  obtain ⟨-, rfl⟩ | ⟨i, hi, rfl⟩ := notify_cases hd
  · exact List.Perm.refl _
  · simp only [threads]
    refine List.Perm.append_right c.awake ?_
    rw [← List.append_assoc]
    refine (List.perm_append_singleton i _).trans ?_
    exact List.Perm.append_right c.signalled (perm_cons_eraseIdx hi)

theorem perm_threads_notifyAll : c.notifyAll.threads.Perm c.threads := by
  simp only [threads, notifyAll, List.nil_append]
  exact List.Perm.append_right c.awake List.perm_append_comm

theorem wakeSpuriously_cases (hd : c.wakeSpuriously k = some d) :
    ∃ i, c.waiting[k]? = some i ∧ d = ⟨c.waiting.eraseIdx k, c.signalled, c.awake ++ [i]⟩ := by
  unfold wakeSpuriously at hd
  split at hd
  next i hi => cases hd; exact ⟨i, hi, rfl⟩
  · cases hd

theorem perm_threads_wakeSpuriously (hd : c.wakeSpuriously k = some d) :
    d.threads.Perm c.threads := by
  obtain ⟨i, hi, rfl⟩ := wakeSpuriously_cases hd
  simp only [threads]
  rw [← List.append_assoc]
  refine (List.perm_append_singleton i _).trans ?_
  rw [← List.cons_append, ← List.cons_append]
  exact ((perm_cons_eraseIdx hi).append_right c.signalled).append_right c.awake

theorem resume_cases {w : Wakeup} (hd : c.resume w k = some (i, d)) :
    (w = .signal ∧ c.signalled[k]? = some i ∧
      d = { c with signalled := c.signalled.eraseIdx k }) ∨
    (w = .spurious ∧ c.awake[k]? = some i ∧ d = { c with awake := c.awake.eraseIdx k }) := by
  unfold resume at hd
  split at hd <;> split at hd
  next j hj => cases hd; exact .inl ⟨rfl, hj, rfl⟩
  · cases hd
  next j hj => cases hd; exact .inr ⟨rfl, hj, rfl⟩
  · cases hd

theorem perm_threads_resume {w : Wakeup} (hd : c.resume w k = some (i, d)) :
    c.threads.Perm (i :: d.threads) := by
  obtain ⟨-, hi, rfl⟩ | ⟨-, hi, rfl⟩ := resume_cases hd
  · simp only [threads]
    rw [← List.cons_append]
    refine List.Perm.append_right c.awake ?_
    exact ((perm_cons_eraseIdx hi).symm.append_left c.waiting).trans List.perm_middle
  · simp only [threads]
    exact ((perm_cons_eraseIdx hi).symm.append_left _).trans List.perm_middle

def woken (c : Condition ι) : Nat := c.signalled.length + c.awake.length

@[simp] theorem woken_wait : (c.wait i).woken = c.woken := rfl

theorem woken_notify_le (hd : c.notify k = some d) : d.woken ≤ c.woken + 1 := by
  obtain ⟨-, rfl⟩ | ⟨i, hi, rfl⟩ := notify_cases hd
  · exact Nat.le_succ _
  · simp only [woken, List.length_append, List.length_singleton]
    omega

theorem woken_resume {w : Wakeup} (hd : c.resume w k = some (i, d)) :
    d.woken + 1 = c.woken := by
  obtain ⟨-, hi, rfl⟩ | ⟨-, hi, rfl⟩ := resume_cases hd
  · have hlt := (List.getElem?_eq_some_iff.mp hi).1
    simp only [woken, List.length_eraseIdx_of_lt hlt]
    omega
  · have hlt := (List.getElem?_eq_some_iff.mp hi).1
    simp only [woken, List.length_eraseIdx_of_lt hlt]
    omega

theorem woken_wakeSpuriously (hd : c.wakeSpuriously k = some d) : d.woken = c.woken + 1 := by
  obtain ⟨i, -, rfl⟩ := wakeSpuriously_cases hd
  simp only [woken, List.length_append, List.length_singleton]
  omega

end Condition

end TstMuduo.Lib
