import Mathlib.Data.List.Basic

/-!
# Reading a file of bytes

A reader takes bytes from the front of a file and may throw. The state beside the file
survives the throw.
-/

namespace TstMuduo.Lib

abbrev FileReader (ε σ α : Type) := EStateM ε (List UInt8 × σ) α

namespace FileReader

variable {ε σ α β : Type} {short : ε → Prop}

theorem bind_ok {m : FileReader ε σ α} {k : α → FileReader ε σ β} {s s' : List UInt8 × σ} {a : α}
    (h : m s = .ok a s') : (m >>= k) s = k a s' := by
  change EStateM.bind m k s = _
  rw [EStateM.bind, h]

theorem bind_error {m : FileReader ε σ α} {k : α → FileReader ε σ β} {s s' : List UInt8 × σ} {e : ε}
    (h : m s = .error e s') : (m >>= k) s = .error e s' := by
  change EStateM.bind m k s = _
  rw [EStateM.bind, h]

/-- The reader takes `n` bytes, and its result is `f` of the file; where fewer bytes are left
it throws a `short` error. It leaves the state alone. -/
structure Takes (short : ε → Prop) (m : FileReader ε σ α) (n : Nat) (f : List UInt8 → α) :
    Prop where
  enough : ∀ {file : List UInt8} (s : σ), n ≤ file.length →
    m (file, s) = .ok (f file) (file.drop n, s)
  throws : ∀ {file : List UInt8} (s : σ), file.length < n → ∃ e rest, short e ∧
    m (file, s) = .error e (rest, s)

theorem Takes.congr {m : FileReader ε σ α} {n n' : Nat} {f f' : List UInt8 → α}
    (h : Takes short m n f) (hn : n = n') (hf : ∀ file, f file = f' file) :
    Takes short m n' f' := by
  rw [← hn, ← funext hf]
  exact h

theorem takes_pure (short : ε → Prop) (a : α) :
    Takes short (pure a : FileReader ε σ α) 0 fun _ => a := by
  refine ⟨fun s _ => rfl, ?_⟩
  intro file s h
  exact absurd h (Nat.not_lt_zero _)

/-- One reader after the other. -/
theorem Takes.bind {m : FileReader ε σ α} {k : α → FileReader ε σ β} {n n' : Nat}
    {f : List UInt8 → α} {g : α → List UInt8 → β} (h : Takes short m n f)
    (hk : ∀ a, Takes short (k a) n' (g a)) :
    Takes short (m >>= k) (n + n') fun file => g (f file) (file.drop n) := by
  refine ⟨?_, ?_⟩
  · intro file s hlen
    rw [bind_ok (h.enough s (by omega))]
    have hrest : n' ≤ (file.drop n).length := by
      rw [List.length_drop]
      omega
    rw [(hk _).enough s hrest, List.drop_drop]
  · intro file s hlen
    by_cases hn : n ≤ file.length
    · rw [bind_ok (h.enough s hn)]
      apply (hk _).throws
      rw [List.length_drop]
      omega
    · obtain ⟨e, rest, he, hm⟩ := h.throws s (Nat.lt_of_not_le hn)
      exact ⟨e, rest, he, bind_error hm⟩

/-- The results of a loop that reads `n` times. -/
def times (m : FileReader ε σ α) : Nat → FileReader ε σ (List α)
  | 0 => pure []
  | n + 1 => do
    let x ← m
    let xs ← times m n
    return x :: xs

/-- What such a loop reads, `k` bytes each time. -/
def chunks (k : Nat) (f : List UInt8 → α) : Nat → List UInt8 → List α
  | 0, _ => []
  | n + 1, file => f file :: chunks k f n (file.drop k)

theorem length_chunks (k : Nat) (f : List UInt8 → α) (n : Nat) (file : List UInt8) :
    (chunks k f n file).length = n := by
  induction n generalizing file with
  | zero => rfl
  | succ n ih => rw [chunks, List.length_cons, ih]

theorem Takes.times {m : FileReader ε σ α} {k : Nat} {f : List UInt8 → α} (h : Takes short m k f)
    (n : Nat) : Takes short (FileReader.times m n) (k * n) (chunks k f n) := by
  induction n with
  | zero => exact takes_pure short []
  | succ n ih =>
    have hstep := h.bind fun x => ih.bind fun xs => takes_pure short (x :: xs)
    apply hstep.congr
    · rw [Nat.mul_succ]
      omega
    · intro file
      rfl

end FileReader

end TstMuduo.Lib
