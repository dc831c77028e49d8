import Mathlib.Data.List.Basic

/-!
# Decoders of checked frames

A decoder waits for a least number of elements, takes the size of the body from the head
of the frame, waits for the body and parses it. Head and body may be malformed, and the
decoder stops in front of the first frame that is. What is decoded from a stream does not
depend on how the stream was cut.
-/

namespace TstMuduo.Lib

/-- What is at the front of an input: too little to tell, a malformed frame, or a frame of
`n` elements that holds a message. -/
inductive FrontFrame (ε μ : Type) where
  | short
  | bad (e : ε)
  | good (n : Nat) (m : μ)

structure FrameCodec (β ε μ : Type) where
  headLen : Nat
  minLen : Nat
  headLen_pos : 0 < headLen
  headLen_le : headLen ≤ minLen
  size : List β → Except ε Nat
  parse : List β → Except ε μ

/-- The messages in front of the first malformed frame, if there is one, or in front of the
first incomplete one, and the rest of the input from there on. -/
structure Decoded (β ε μ : Type) where
  messages : List μ
  error : Option ε
  rest : List β

namespace FrameCodec

variable {β ε μ : Type}

def front (C : FrameCodec β ε μ) (xs : List β) : FrontFrame ε μ :=
  if C.minLen ≤ xs.length then
    match C.size (xs.take C.headLen) with
    | .error e => .bad e
    | .ok n =>
      if C.headLen + n ≤ xs.length then
        match C.parse ((xs.drop C.headLen).take n) with
        | .error e => .bad e
        | .ok m => .good (C.headLen + n) m
      else .short
  else .short

def decodeAux (C : FrameCodec β ε μ) : Nat → List β → Decoded β ε μ
  | 0, xs => ⟨[], none, xs⟩
  | fuel + 1, xs =>
    match C.front xs with
    | .short => ⟨[], none, xs⟩
    | .bad e => ⟨[], some e, xs⟩
    | .good n m =>
      let d := C.decodeAux fuel (xs.drop n)
      ⟨m :: d.messages, d.error, d.rest⟩

def decode (C : FrameCodec β ε μ) (xs : List β) : Decoded β ε μ := C.decodeAux (xs.length + 1) xs

variable {C : FrameCodec β ε μ} {xs : List β} {n : Nat} {m : μ} {e : ε}

theorem front_of_lt (h : xs.length < C.minLen) : C.front xs = .short :=
  if_neg (Nat.not_le_of_lt h)

theorem front_of_head_error (hmin : C.minLen ≤ xs.length)
    (hs : C.size (xs.take C.headLen) = .error e) : C.front xs = .bad e := by
  rw [front, if_pos hmin, hs]

theorem front_of_incomplete (hmin : C.minLen ≤ xs.length)
    (hs : C.size (xs.take C.headLen) = .ok n) (hlt : xs.length < C.headLen + n) :
    C.front xs = .short := by
  rw [front, if_pos hmin, hs]
  exact if_neg (Nat.not_le_of_lt hlt)

theorem front_of_body_error (hmin : C.minLen ≤ xs.length)
    (hs : C.size (xs.take C.headLen) = .ok n) (hle : C.headLen + n ≤ xs.length)
    (hp : C.parse ((xs.drop C.headLen).take n) = .error e) : C.front xs = .bad e := by
  rw [front, if_pos hmin, hs]
  simp only
  rw [if_pos hle, hp]

theorem front_of_body (hmin : C.minLen ≤ xs.length)
    (hs : C.size (xs.take C.headLen) = .ok n) (hle : C.headLen + n ≤ xs.length)
    (hp : C.parse ((xs.drop C.headLen).take n) = .ok m) :
    C.front xs = .good (C.headLen + n) m := by
  rw [front, if_pos hmin, hs]
  simp only
  rw [if_pos hle, hp]

theorem front_good_cases (h : C.front xs = .good n m) :
    ∃ k, n = C.headLen + k ∧ n ≤ xs.length ∧ C.minLen ≤ xs.length ∧
      C.size (xs.take C.headLen) = .ok k ∧ C.parse ((xs.drop C.headLen).take k) = .ok m := by
  unfold front at h
  split at h
  next hmin =>
    split at h
    · cases h
    next k hk =>
      split at h
      next hle =>
        split at h
        · cases h
        next hp =>
          cases h
          exact ⟨k, rfl, hle, hmin, hk, hp⟩
      · cases h
  · cases h

theorem front_good_le (h : C.front xs = .good n m) : 0 < n ∧ n ≤ xs.length := by
  have hpos := C.headLen_pos
  obtain ⟨k, rfl, hle, -, -, -⟩ := front_good_cases h
  exact ⟨by omega, hle⟩

theorem front_append (ys : List β) (h : C.front xs ≠ .short) : C.front (xs ++ ys) = C.front xs := by
  have hhead := C.headLen_le
  by_cases hmin : C.minLen ≤ xs.length
  · have hmin' : C.minLen ≤ (xs ++ ys).length := by
      rw [List.length_append]
      omega
    have htake : (xs ++ ys).take C.headLen = xs.take C.headLen :=
      List.take_append_of_le_length (by omega)
    unfold front at h ⊢
    rw [if_pos hmin] at h ⊢
    rw [if_pos hmin', htake]
    cases hs : C.size (xs.take C.headLen) with
    | error e => rfl
    | ok n =>
      rw [hs] at h
      simp only at h ⊢
      by_cases hle : C.headLen + n ≤ xs.length
      · have hle' : C.headLen + n ≤ (xs ++ ys).length := by
          rw [List.length_append]
          omega
        have hbody : ((xs ++ ys).drop C.headLen).take n = (xs.drop C.headLen).take n := by
          rw [List.drop_append_of_le_length (by omega),
            List.take_append_of_le_length (by rw [List.length_drop]; omega)]
        rw [if_pos hle, if_pos hle', hbody]
      · rw [if_neg hle] at h
        exact absurd rfl h
  · unfold front at h
    rw [if_neg hmin] at h
    exact absurd rfl h

theorem decodeAux_eq {fuel : Nat} (h : xs.length < fuel) : C.decodeAux fuel xs = C.decode xs := by
  induction fuel using Nat.strongRecOn generalizing xs with
  | _ fuel ih =>
    obtain ⟨k, rfl⟩ := Nat.exists_eq_succ_of_ne_zero (show fuel ≠ 0 by omega)
    simp only [decode, decodeAux]
    cases hf : C.front xs with
    | short => rfl
    | bad e => rfl
    | good n m =>
      have hle := front_good_le hf
      have hlt : (xs.drop n).length < xs.length := by
        rw [List.length_drop]
        omega
      simp only
      rw [ih k (Nat.lt_succ_self k) (by omega), ih xs.length h hlt]

theorem decode_of_short (h : C.front xs = .short) : C.decode xs = ⟨[], none, xs⟩ := by
  simp only [decode, decodeAux, h]

theorem decode_of_bad (h : C.front xs = .bad e) : C.decode xs = ⟨[], some e, xs⟩ := by
  simp only [decode, decodeAux, h]

theorem decode_of_good (h : C.front xs = .good n m) :
    C.decode xs = ⟨m :: (C.decode (xs.drop n)).messages, (C.decode (xs.drop n)).error,
      (C.decode (xs.drop n)).rest⟩ := by
  have hle := front_good_le h
  have hlt : (xs.drop n).length < xs.length := by
    rw [List.length_drop]
    omega
  rw [← decodeAux_eq hlt]
  simp only [decode, decodeAux, h]

theorem decode_induction (C : FrameCodec β ε μ) {P : List β → Prop}
    (hshort : ∀ xs, C.front xs = .short → P xs)
    (hbad : ∀ xs e, C.front xs = .bad e → P xs)
    (hgood : ∀ xs n m, C.front xs = .good n m → P (xs.drop n) → P xs) (xs : List β) : P xs := by
  induction h : xs.length using Nat.strongRecOn generalizing xs with
  | _ k ih =>
    cases hf : C.front xs with
    | short => exact hshort xs hf
    | bad e => exact hbad xs e hf
    | good n m =>
      have hle := front_good_le hf
      have hlt : (xs.drop n).length < k := by
        rw [List.length_drop]
        omega
      exact hgood xs n m hf (ih _ hlt _ rfl)

theorem decode_append (C : FrameCodec β ε μ) (xs ys : List β) :
    C.decode (xs ++ ys) = ⟨(C.decode xs).messages ++ (C.decode ((C.decode xs).rest ++ ys)).messages,
      (C.decode ((C.decode xs).rest ++ ys)).error, (C.decode ((C.decode xs).rest ++ ys)).rest⟩ := by
  induction xs using C.decode_induction with
  | hshort xs hf => rw [decode_of_short hf, List.nil_append]
  | hbad xs e hf => rw [decode_of_bad hf, List.nil_append]
  | hgood xs n m hf ih =>
    have hfa : C.front (xs ++ ys) = .good n m := by
      rw [front_append ys (by simp [hf]), hf]
    rw [decode_of_good hfa, decode_of_good hf,
      List.drop_append_of_le_length (front_good_le hf).2, ih, List.cons_append]

theorem decode_append_of_error (ys : List β) (h : (C.decode xs).error = some e) :
    C.decode (xs ++ ys) = ⟨(C.decode xs).messages, some e, (C.decode xs).rest ++ ys⟩ := by
  induction xs using C.decode_induction with
  | hshort xs hf =>
    rw [decode_of_short hf] at h
    cases h
  | hbad xs e' hf =>
    rw [decode_of_bad hf] at h ⊢
    cases h
    rw [decode_of_bad (e := e) (by rw [front_append ys (by simp [hf]), hf])]
  | hgood xs n m hf ih =>
    have hfa : C.front (xs ++ ys) = .good n m := by
      rw [front_append ys (by simp [hf]), hf]
    rw [decode_of_good hf] at h ⊢
    rw [decode_of_good hfa, List.drop_append_of_le_length (front_good_le hf).2, ih h]

end FrameCodec

end TstMuduo.Lib
