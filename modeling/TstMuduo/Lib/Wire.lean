import Mathlib.Data.List.Basic

/-!
# Writing to a channel and reading from it

A state has a queue of symbols that were written and not yet read. A program writes some symbols if
it puts them behind the others from every state; it reads some symbols if it takes them from the
front, whatever comes behind them.
-/

namespace TstMuduo.Lib

variable {σ ε β α γ δ : Type} (unread : σ → List β)

/-- The program returns `a` and puts `bytes` into the channel. -/
def Writes (x : StateT σ (Except ε) α) (bytes : List β) (a : α) : Prop :=
  ∀ s, ∃ t, x s = .ok (a, t) ∧ unread t = unread s ++ bytes

/-- The program takes exactly `bytes` from the channel and returns `a`. -/
def Reads (x : StateT σ (Except ε) α) (bytes : List β) (a : α) : Prop :=
  ∀ s rest, unread s = bytes ++ rest → ∃ t, x s = .ok (a, t) ∧ unread t = rest

/-- The reader gets `a` back from what the writer has written, and both return `n`. -/
structure RoundTrip (write : StateT σ (Except ε) γ) (read : StateT σ (Except ε) (α × γ))
    (bytes : List β) (a : α) (n : γ) : Prop where
  writes : Writes unread write bytes n
  reads : Reads unread read bytes (a, n)

variable {unread}

theorem Writes.bind {x : StateT σ (Except ε) α} {f : α → StateT σ (Except ε) δ} {bs cs : List β}
    {a : α} {b : δ} (hx : Writes unread x bs a) (hf : Writes unread (f a) cs b) :
    Writes unread (x >>= f) (bs ++ cs) b := by
  intro s
  obtain ⟨t, ht, hunread⟩ := hx s
  obtain ⟨u, hu, hunread'⟩ := hf t
  refine ⟨u, ?_, ?_⟩
  · change (x s >>= fun r => f r.1 r.2) = _
    rw [ht]
    exact hu
  · rw [hunread', hunread, List.append_assoc]

theorem Reads.bind {x : StateT σ (Except ε) α} {f : α → StateT σ (Except ε) δ} {bs cs : List β}
    {a : α} {b : δ} (hx : Reads unread x bs a) (hf : Reads unread (f a) cs b) :
    Reads unread (x >>= f) (bs ++ cs) b := by
  intro s rest hs
  rw [List.append_assoc] at hs
  obtain ⟨t, ht, hunread⟩ := hx s (cs ++ rest) hs
  obtain ⟨u, hu, hunread'⟩ := hf t rest hunread
  refine ⟨u, ?_, hunread'⟩
  change (x s >>= fun r => f r.1 r.2) = _
  rw [ht]
  exact hu

/-- What is returned in the end takes nothing and leaves nothing. -/
theorem Writes.map {x : StateT σ (Except ε) α} {bs : List β} {a : α} (hx : Writes unread x bs a)
    (f : α → δ) : Writes unread (x >>= fun a => pure (f a)) bs (f a) := by
  have hboth : Writes unread (x >>= fun a => pure (f a)) (bs ++ []) (f a) :=
    hx.bind fun s => ⟨s, rfl, (List.append_nil _).symm⟩
  rw [List.append_nil] at hboth
  exact hboth

theorem Reads.last {x : StateT σ (Except ε) α} {f : α → StateT σ (Except ε) δ} {bs : List β}
    {a : α} {b : δ} (hx : Reads unread x bs a) (hf : Reads unread (f a) [] b) :
    Reads unread (x >>= f) bs b := by
  have hboth := hx.bind hf
  rw [List.append_nil] at hboth
  exact hboth

theorem Reads.map {x : StateT σ (Except ε) α} {bs : List β} {a : α} (hx : Reads unread x bs a)
    (f : α → δ) : Reads unread (x >>= fun a => pure (f a)) bs (f a) :=
  hx.last fun s _ hs => ⟨s, rfl, hs⟩

variable {α' γ' : Type} {w : StateT σ (Except ε) γ} {r : StateT σ (Except ε) (α × γ)}
  {bs cs : List β} {a : α} {n : γ}

theorem RoundTrip.pure (a : α) (n : γ) :
    RoundTrip unread (pure n : StateT σ (Except ε) γ) (pure (a, n)) [] a n where
  writes s := ⟨s, rfl, (List.append_nil _).symm⟩
  reads s _ hs := ⟨s, rfl, hs⟩

/-- One thing behind the other. -/
theorem RoundTrip.bind {w' : γ → StateT σ (Except ε) γ'}
    {r' : α × γ → StateT σ (Except ε) (α' × γ')} {b : α'} {m : γ'}
    (h : RoundTrip unread w r bs a n) (h' : RoundTrip unread (w' n) (r' (a, n)) cs b m) :
    RoundTrip unread (w >>= w') (r >>= r') (bs ++ cs) b m where
  writes := h.writes.bind h'.writes
  reads := h.reads.bind h'.reads

/-- The last thing, with what is made of it in the end. -/
theorem RoundTrip.last {w' : γ → StateT σ (Except ε) γ'}
    {r' : α × γ → StateT σ (Except ε) (α' × γ')} {b : α'} {m : γ'}
    (h : RoundTrip unread w r bs a n) (h' : RoundTrip unread (w' n) (r' (a, n)) [] b m) :
    RoundTrip unread (w >>= w') (r >>= r') bs b m := by
  have hboth := h.bind h'
  rw [List.append_nil] at hboth
  exact hboth

end TstMuduo.Lib
