import TstMuduo.Cthrift.Frames

/-!
# The frame loop of the server (cthrift/cthrift_svr.cc)

`OnMsg` hands every frame to `Process` on one of the worker loops. It may not return, so a
call is a loop with fuel that returns if some fuel is enough.

A connection is in a time wheel of `kI8TimeWheelGridNum` buckets. Its entry is gone after as
many kicks without a frame or a call in between; then `OnMsg` only logs.
-/

namespace TstMuduo.Cthrift
open TstMuduo.Lib TstMuduo.Net

structure ConnContext where
  enum_state : State
  i32_want_size : BitVec 32
  deriving DecidableEq, Repr

def kI8TimeWheelGridNum : Nat := 4

inductive SvrFault where
  | assertion (a : Assertion)
  | nullWorkerLoop
  deriving DecidableEq, Repr

/-- A connection of the server: its context unless that has another type, how often the wheel
was kicked since the entry was put into it, the input, `atom_i64_worker_thread_pos_`, and the
frames that were handed to `Process`, each with the index of its loop. -/
structure SvrConn where
  context : Option ConnContext
  kicks : Nat
  buffer : Buffer
  workerThreadPos : Nat
  processed : List (Nat × Bytes)

namespace SvrConn

/- A connection after `OnConn` (`cthrift_svr.cc:276`). -/
def start (pos : Nat) : SvrConn where
  context := some ⟨.kExpectFrameSize, 0⟩
  kicks := 0
  buffer := Buffer.new kInitialSize
  workerThreadPos := pos
  processed := []

/- `pfnInsertTimeWheel` (`cthrift_svr.cc:416`), if the entry still lives. -/
def insertTimeWheel (s : SvrConn) : Option SvrConn :=
  if s.kicks < kI8TimeWheelGridNum then some { s with kicks := 0 } else none

/- The index of the next worker loop, and the next position (`cthrift_svr.cc:455`). -/
def pickWorker (workerThreadNum : Int) (pos : Nat) : Option (Nat × Nat) :=
  if 1 < workerThreadNum then some (pos % workerThreadNum.toNat, pos + 1)
  else if workerThreadNum = 1 then some (0, pos)
  else none

/- The body of the `kExpectFrame` branch, up to the second `pfnInsertTimeWheel`. -/
def dispatch (workerThreadNum : Int) (s : SvrConn) (want : BitVec 32) : Except SvrFault SvrConn :=
  match pickWorker workerThreadNum s.workerThreadPos with
  | none => .error .nullWorkerLoop
  | some (worker, pos) => do
    let buffer ← (s.buffer.retrieve (sizeT want)).mapError .assertion
    return { s with
      buffer := buffer
      workerThreadPos := pos
      processed := s.processed ++ [(worker, s.buffer.contents.take (sizeT want))] }

/- The loop of `OnMsg` (`cthrift_svr.cc:435`), for at most `fuel` turns; `none` if it has not
ended by then. -/
def loop (workerThreadNum : Int) :
    Nat → SvrConn → ConnContext → Except SvrFault (Option SvrConn)
  | 0, _, _ => .ok none
  | fuel + 1, s, c =>
    match c.enum_state with
    | .kExpectFrameSize =>
      if 4 ≤ s.buffer.readableBytes then do
        let (want, buffer) ← (readInt32 s.buffer).mapError .assertion
        loop workerThreadNum fuel { s with buffer := buffer } ⟨.kExpectFrame, want⟩
      else .ok (some { s with context := some c })
    | .kExpectFrame =>
      if sizeT c.i32_want_size ≤ s.buffer.readableBytes then do
        let t ← dispatch workerThreadNum s c.i32_want_size
        match t.insertTimeWheel with
        | none => return some { t with context := some { c with enum_state := .kExpectFrameSize } }
        | some u => loop workerThreadNum fuel u { c with enum_state := .kExpectFrameSize }
      -- the source has no branch for a body that is not complete: `more` stays true
      else loop workerThreadNum fuel s c

/- `OnMsg` (`cthrift_svr.cc:400`). -/
def onMsg (workerThreadNum : Int) (fuel : Nat) (s : SvrConn) : Except SvrFault (Option SvrConn) :=
  match s.context with
  | none => .ok (some s)
  | some c =>
    match s.insertTimeWheel with
    | none => .ok (some s)
    | some t => loop workerThreadNum fuel t c

/-- The call of `OnMsg` after `chunk` was appended to the input ends in `t`. -/
def Returns (workerThreadNum : Int) (s : SvrConn) (chunk : Bytes) (t : SvrConn) : Prop :=
  ∃ buffer fuel, s.buffer.append chunk = .ok buffer ∧
    onMsg workerThreadNum fuel { s with buffer := buffer } = .ok (some t)

/-! ### Runs -/

/- What happens to a connection: input, a kick of its wheel, and the timer that resets the
position (`InitWorkerThreadPos`). -/
inductive Event where
  | receive (chunk : Bytes)
  | timewheelKick
  | initWorkerThreadPos
  deriving DecidableEq, Repr

/-- Each call returns, and after it exactly the frames that have been received completely have
been handed to `Process`, in their order and with their bodies. `received` is what came in
before. -/
def Serves (workerThreadNum : Int) : SvrConn → Bytes → List Event → Prop
  | _, _, [] => True
  | s, received, .receive chunk :: events => ∃ t, Returns workerThreadNum s chunk t ∧
      t.processed.map Prod.snd = framing.frames (received ++ chunk) ∧
      Serves workerThreadNum t (received ++ chunk) events
  | s, received, .timewheelKick :: events =>
      Serves workerThreadNum { s with kicks := s.kicks + 1 } received events
  | s, received, .initWorkerThreadPos :: events =>
      Serves workerThreadNum { s with workerThreadPos := 0 } received events

/-- While the entry of the connection is in the wheel, no piece of input ends inside a body or
just before one, and there is a worker loop if a frame comes in; and no frame comes in after
the entry is gone. -/
def AtBoundaries (workerThreadNum : Int) : Nat → Bytes → List Event → Prop
  | _, _, [] => True
  | kicks, received, .receive chunk :: events =>
      if kicks < kI8TimeWheelGridNum then
        (framing.rest (received ++ chunk)).length < 4 ∧
          (1 ≤ workerThreadNum ∨
            framing.frames (received ++ chunk) = framing.frames received) ∧
          AtBoundaries workerThreadNum 0 (received ++ chunk) events
      else framing.frames (received ++ chunk) = framing.frames received ∧
        AtBoundaries workerThreadNum kicks (received ++ chunk) events
  | kicks, received, .timewheelKick :: events =>
      AtBoundaries workerThreadNum (kicks + 1) received events
  | kicks, received, .initWorkerThreadPos :: events =>
      AtBoundaries workerThreadNum kicks received events

/-- The connection holds exactly `xs`. -/
def Remains (s : SvrConn) (xs : Bytes) : Prop :=
  ∃ c, s.context = some c ∧ pending c.enum_state c.i32_want_size s.buffer.contents = xs

variable {num : Int} {fuel : Nat} {s t : SvrConn} {c : ConnContext}

/-! ### One frame -/

theorem pickWorker_isSome (num : Int) (pos : Nat) : (pickWorker num pos).isSome ↔ 1 ≤ num := by
  unfold pickWorker
  split
  next h => exact iff_of_true rfl (Int.le_of_lt h)
  next h =>
    split
    next h1 => exact iff_of_true rfl (Int.le_of_eq h1.symm)
    next h1 => exact iff_of_false (by simp) (by omega)

theorem dispatch_spec (s : SvrConn) (want : BitVec 32)
    (h : sizeT want ≤ s.buffer.readableBytes) (hn : 1 ≤ num) :
    ∃ t, dispatch num s want = .ok t ∧
      t.processed.map Prod.snd =
        s.processed.map Prod.snd ++ [s.buffer.contents.take (sizeT want)] ∧
      t.buffer.contents = s.buffer.contents.drop (sizeT want) ∧ t.kicks = s.kicks := by
  obtain ⟨⟨worker, pos⟩, hp⟩ := Option.isSome_iff_exists.mp
    ((pickWorker_isSome num s.workerThreadPos).mpr hn)
  obtain ⟨r, hr, hc⟩ := s.buffer.retrieve_spec _ h
  simp only [dispatch, hp, hr]
  refine ⟨_, rfl, ?_, hc, rfl⟩
  rw [List.map_append]
  rfl

theorem dispatch_ok {want : BitVec 32} (h : dispatch num s want = .ok t) : 1 ≤ num := by
  rw [← pickWorker_isSome num s.workerThreadPos]
  unfold dispatch at h
  split at h
  · cases h
  next hp =>
    rw [hp]
    rfl

/-! ### The loop -/

/-- If the loop returns, it has handed on the complete frames and kept the rest, which is
then shorter than a length. -/
theorem loop_returns (hk : s.kicks = 0) (h : loop num fuel s c = .ok (some t)) :
    (framing.rest (pending c.enum_state c.i32_want_size s.buffer.contents)).length < 4 ∧
      (1 ≤ num ∨ framing.frames (pending c.enum_state c.i32_want_size s.buffer.contents) = []) ∧
      t.processed.map Prod.snd = s.processed.map Prod.snd ++
        framing.frames (pending c.enum_state c.i32_want_size s.buffer.contents) ∧
      t.Remains (framing.rest (pending c.enum_state c.i32_want_size s.buffer.contents)) ∧
      t.kicks = 0 := by
  induction fuel generalizing s c with
  | zero => cases h
  | succ fuel ih =>
    have hlen := s.buffer.length_contents
    cases hst : c.enum_state with
    | kExpectFrameSize =>
      simp only [loop, hst] at h
      by_cases h4 : 4 ≤ s.buffer.readableBytes
      · obtain ⟨r, hr, hrc⟩ := readInt32_spec s.buffer h4
        rw [if_pos h4, hr] at h
        have hnext := ih (s := { s with buffer := r })
          (c := ⟨.kExpectFrame, networkToHost32 (s.buffer.contents.take 4)⟩) hk h
        simp only [hrc] at hnext
        rw [pending_taken _ (by omega)] at hnext
        exact hnext
      · have hnone : framing.front s.buffer.contents = none := front_short _ (by omega)
        rw [if_neg h4] at h
        cases h
        simp only [pending]
        rw [Framing.frames_of_none hnone, Framing.rest_of_none hnone, List.append_nil]
        refine ⟨by omega, .inr rfl, rfl, ⟨c, rfl, ?_⟩, hk⟩
        rw [hst]
        rfl
    | kExpectFrame =>
      simp only [loop, hst] at h
      by_cases hfull : sizeT c.i32_want_size ≤ s.buffer.readableBytes
      · rw [if_pos hfull] at h
        obtain ⟨u, hu, hrest⟩ := bind_eq_ok h
        have hn := dispatch_ok hu
        obtain ⟨u', hu', hproc, hcont, hkicks⟩ := dispatch_spec s c.i32_want_size hfull hn
        cases hu.symm.trans hu'
        have hwheel : u.insertTimeWheel = some { u with kicks := 0 } := by
          rw [insertTimeWheel, hkicks, hk]
          rfl
        rw [hwheel] at hrest
        obtain ⟨hshort, -, hproc', hrem, hk'⟩ :=
          ih (s := { u with kicks := 0 }) (c := { c with enum_state := .kExpectFrameSize }) rfl
            hrest
        obtain ⟨hframes, hr⟩ := split_taken c.i32_want_size s.buffer.contents (by omega)
        simp only [pending] at hshort hproc' hrem ⊢
        rw [hcont] at hshort hproc' hrem
        rw [hframes, hr]
        refine ⟨hshort, .inl hn, ?_, hrem, hk'⟩
        rw [hproc', hproc, List.append_assoc]
        rfl
      · rw [if_neg hfull] at h
        have hnext := ih hk h
        rw [hst] at hnext
        exact hnext

/-- The loop returns if the rest is shorter than a length and there is a worker for the frames. -/
theorem loop_exists (num : Int) (s : SvrConn) (c : ConnContext) (hk : s.kicks = 0) (fuel : Nat)
    (hfuel : s.buffer.readableBytes +
      (match c.enum_state with | .kExpectFrameSize => 1 | .kExpectFrame => 2) ≤ fuel)
    (hshort : (framing.rest
      (pending c.enum_state c.i32_want_size s.buffer.contents)).length < 4)
    (hn : 1 ≤ num ∨
      framing.frames (pending c.enum_state c.i32_want_size s.buffer.contents) = []) :
    ∃ t, loop num fuel s c = .ok (some t) := by
  induction fuel generalizing s c with
  | zero =>
    cases hst : c.enum_state <;> simp only [hst] at hfuel <;> omega
  | succ fuel ih =>
    have hlen := s.buffer.length_contents
    cases hst : c.enum_state with
    | kExpectFrameSize =>
      simp only [hst] at hfuel hshort hn
      by_cases h4 : 4 ≤ s.buffer.readableBytes
      · obtain ⟨r, hr, hrc⟩ := readInt32_spec s.buffer h4
        have hrlen := r.length_contents
        rw [hrc, List.length_drop, hlen] at hrlen
        have hp : pending .kExpectFrame (networkToHost32 (s.buffer.contents.take 4)) r.contents =
            s.buffer.contents := by
          rw [hrc, pending_taken _ (by omega)]
        obtain ⟨t, ht⟩ := ih { s with buffer := r }
          ⟨.kExpectFrame, networkToHost32 (s.buffer.contents.take 4)⟩ hk (by simp only; omega)
          (by rw [hp]; exact hshort) (by rw [hp]; exact hn)
        refine ⟨t, ?_⟩
        simp only [loop, hst, if_pos h4, hr]
        exact ht
      · simp only [loop, hst, if_neg h4]
        exact ⟨_, rfl⟩
    | kExpectFrame =>
      simp only [hst, pending] at hfuel hshort hn
      by_cases hfull : sizeT c.i32_want_size ≤ s.buffer.readableBytes
      · obtain ⟨hframes, hr⟩ := split_taken c.i32_want_size s.buffer.contents (by omega)
        rw [hframes] at hn
        rw [hr] at hshort
        have hn' : 1 ≤ num := by
          rcases hn with hn | hn
          · exact hn
          · cases hn
        obtain ⟨u, hu, -, hcont, hkicks⟩ := dispatch_spec s c.i32_want_size hfull hn'
        have hulen := u.buffer.length_contents
        rw [hcont, List.length_drop, hlen] at hulen
        have hwheel : u.insertTimeWheel = some { u with kicks := 0 } := by
          rw [insertTimeWheel, hkicks, hk]
          rfl
        obtain ⟨t, ht⟩ := ih { u with kicks := 0 }
          { c with enum_state := .kExpectFrameSize } rfl (by simp only; omega)
          (by simp only [pending, hcont]; exact hshort) (.inl hn')
        refine ⟨t, ?_⟩
        simp only [loop, hst, if_pos hfull, hu, ok_bind, hwheel]
        exact ht
      · have hnone := front_waiting c.i32_want_size s.buffer.contents (by omega)
        rw [Framing.rest_of_none hnone, List.length_append, length_hostToNetwork32] at hshort
        omega

/-! ### The calls -/

/-- A call for a connection in the wheel returns exactly if the rest is that short and there is
a loop for the new frames; then these have been handed on. -/
theorem returns_iff (num : Int) {received : Bytes} (chunk : Bytes)
    (hk : s.kicks < kI8TimeWheelGridNum)
    (hproc : s.processed.map Prod.snd = framing.frames received)
    (hrem : s.Remains (framing.rest received)) :
    ((∃ t, Returns num s chunk t) ↔ (framing.rest (received ++ chunk)).length < 4 ∧
      (1 ≤ num ∨ framing.frames (received ++ chunk) = framing.frames received)) ∧
    ∀ t, Returns num s chunk t → t.processed.map Prod.snd = framing.frames (received ++ chunk) ∧
      t.Remains (framing.rest (received ++ chunk)) ∧ t.kicks = 0 := by
  obtain ⟨c, hc, hpend⟩ := hrem
  obtain ⟨b, hb, hbc⟩ := s.buffer.append_spec chunk
  obtain ⟨hframes, hrest⟩ := framing.split_append received chunk
  have hpend' : pending c.enum_state c.i32_want_size b.contents =
      framing.rest received ++ chunk := by
    rw [hbc, pending_append, hpend]
  have hcall : ∀ fuel, onMsg num fuel { s with buffer := b } =
      loop num fuel { s with buffer := b, kicks := 0 } c := by
    intro fuel
    simp only [onMsg, hc, insertTimeWheel, if_pos hk]
  have hloop : ∀ {t}, Returns num s chunk t →
      ∃ fuel, loop num fuel { s with buffer := b, kicks := 0 } c = .ok (some t) := by
    intro t ht
    obtain ⟨b', fuel, hb', hret⟩ := ht
    cases hb.symm.trans hb'
    exact ⟨fuel, by rw [← hcall]; exact hret⟩
  rw [hframes, hrest, List.append_right_eq_self]
  constructor
  · constructor
    · intro h
      obtain ⟨t, ht⟩ := h
      obtain ⟨fuel, hret⟩ := hloop ht
      obtain ⟨hshort, hn, -⟩ := loop_returns rfl hret
      simp only [hpend'] at hshort hn
      exact ⟨hshort, hn⟩
    · intro h
      obtain ⟨t, ht⟩ := loop_exists num { s with buffer := b, kicks := 0 } c
        rfl _ (Nat.le_refl _) (by simp only [hpend']; exact h.1) (by simp only [hpend']; exact h.2)
      exact ⟨t, b, _, hb, by rw [hcall]; exact ht⟩
  · intro t ht
    obtain ⟨fuel, hret⟩ := hloop ht
    obtain ⟨-, -, htp, htr, htk⟩ := loop_returns rfl hret
    simp only [hpend', hproc] at htp htr
    exact ⟨htp, htr, htk⟩

theorem returns_expired (num : Int) (chunk : Bytes) (hk : ¬ s.kicks < kI8TimeWheelGridNum)
    {xs : Bytes} (hrem : s.Remains xs) :
    (∃ t, Returns num s chunk t) ∧ ∀ t, Returns num s chunk t →
      t.processed = s.processed ∧ t.kicks = s.kicks ∧ t.Remains (xs ++ chunk) := by
  obtain ⟨c, hc, hpend⟩ := hrem
  obtain ⟨b, hb, hbc⟩ := s.buffer.append_spec chunk
  have hcall : ∀ fuel, onMsg num fuel { s with buffer := b } =
      .ok (some { s with buffer := b }) := by
    intro fuel
    simp only [onMsg, hc, insertTimeWheel, if_neg hk]
  constructor
  · exact ⟨{ s with buffer := b }, b, 0, hb, hcall 0⟩
  · intro t ht
    obtain ⟨b', fuel, hb', hloop⟩ := ht
    cases hb.symm.trans hb'
    rw [hcall] at hloop
    cases hloop
    refine ⟨rfl, rfl, c, hc, ?_⟩
    rw [hbc, pending_append, hpend]

theorem onMsg_expired (hk : ¬ s.kicks < kI8TimeWheelGridNum) {xs : Bytes} (hrem : s.Remains xs)
    {b : Buffer} : onMsg num fuel { s with buffer := b } = .ok (some { s with buffer := b }) := by
  obtain ⟨c, hc, -⟩ := hrem
  simp only [onMsg, hc, insertTimeWheel, if_neg hk]

theorem onMsg_ends_iff (hn : 1 ≤ num) {received chunk : Bytes}
    (hk : s.kicks < kI8TimeWheelGridNum)
    (hproc : s.processed.map Prod.snd = framing.frames received)
    (hrem : s.Remains (framing.rest received)) {b : Buffer} (hb : s.buffer.append chunk = .ok b) :
    (∃ t, onMsg num (b.readableBytes + 2) { s with buffer := b } = .ok (some t)) ↔
      (framing.rest (received ++ chunk)).length < 4 := by
  constructor
  · rintro ⟨t, ht⟩
    exact ((returns_iff num chunk hk hproc hrem).1.mp ⟨t, b, _, hb, ht⟩).1
  · intro hshort
    obtain ⟨c, hc, hpend⟩ := hrem
    have hpend' : pending c.enum_state c.i32_want_size b.contents =
        framing.rest received ++ chunk := by
      obtain ⟨b', hb', hbc⟩ := s.buffer.append_spec chunk
      cases hb.symm.trans hb'
      rw [hbc, pending_append, hpend]
    have hcall : onMsg num (b.readableBytes + 2) { s with buffer := b } =
        loop num (b.readableBytes + 2) { s with buffer := b, kicks := 0 } c := by
      simp only [onMsg, hc, insertTimeWheel, if_pos hk]
    rw [hcall]
    refine loop_exists num { s with buffer := b, kicks := 0 } c rfl _ ?_ ?_ (.inl hn)
    · cases c.enum_state with
      | kExpectFrameSize => exact Nat.le_succ _
      | kExpectFrame => exact Nat.le_refl _
    · rw [(framing.split_append received chunk).2] at hshort
      rw [hpend']
      exact hshort

theorem serves_iff (events : List Event) (s : SvrConn) (received : Bytes)
    (hproc : s.processed.map Prod.snd = framing.frames received)
    (hrem : s.Remains (framing.rest received)) :
    Serves num s received events ↔ AtBoundaries num s.kicks received events := by
  induction events generalizing s received with
  | nil => exact Iff.rfl
  | cons event events ih =>
    cases event with
    | timewheelKick => exact ih { s with kicks := s.kicks + 1 } received hproc hrem
    | initWorkerThreadPos => exact ih { s with workerThreadPos := 0 } received hproc hrem
    | receive chunk =>
      rw [Serves, AtBoundaries]
      by_cases hk : s.kicks < kI8TimeWheelGridNum
      · obtain ⟨hreturns, hafter⟩ := returns_iff num chunk hk hproc hrem
        rw [if_pos hk]
        constructor
        · intro h
          obtain ⟨t, ht, htp, hserves⟩ := h
          obtain ⟨-, htr, htk⟩ := hafter t ht
          obtain ⟨hshort, hn⟩ := hreturns.mp ⟨t, ht⟩
          rw [ih t _ htp htr, htk] at hserves
          exact ⟨hshort, hn, hserves⟩
        · intro h
          obtain ⟨hshort, hn, hevents⟩ := h
          obtain ⟨t, ht⟩ := hreturns.mpr ⟨hshort, hn⟩
          obtain ⟨htp, htr, htk⟩ := hafter t ht
          refine ⟨t, ht, htp, ?_⟩
          rw [ih t _ htp htr, htk]
          exact hevents
      · obtain ⟨hreturns, hafter⟩ := returns_expired num chunk hk hrem
        obtain ⟨hframes, hrest⟩ := framing.split_append received chunk
        -- without a new frame, what was left and the chunk are what is left now
        have hkept : framing.frames (received ++ chunk) = framing.frames received →
            framing.rest (received ++ chunk) = framing.rest received ++ chunk := by
          intro hsame
          rw [hframes, List.append_right_eq_self] at hsame
          rw [hrest, Framing.rest_of_frames_nil hsame]
        rw [if_neg hk]
        constructor
        · intro h
          obtain ⟨t, ht, htp, hserves⟩ := h
          obtain ⟨hsameproc, htk, htr⟩ := hafter t ht
          have hsame : framing.frames (received ++ chunk) = framing.frames received := by
            rw [← htp, hsameproc, hproc]
          rw [← hkept hsame] at htr
          rw [ih t _ htp htr, htk] at hserves
          exact ⟨hsame, hserves⟩
        · intro h
          obtain ⟨hsame, hevents⟩ := h
          obtain ⟨t, ht⟩ := hreturns
          obtain ⟨hsameproc, htk, htr⟩ := hafter t ht
          have htp : t.processed.map Prod.snd = framing.frames (received ++ chunk) := by
            rw [hsameproc, hproc, hsame]
          rw [← hkept hsame] at htr
          refine ⟨t, ht, htp, ?_⟩
          rw [ih t _ htp htr, htk]
          exact hevents

/-- From a new connection on, every call returns with exactly the received frames handed on, if
and only if no piece of input ends between the length and the end of a frame, there is a worker
loop for the frames, and no frame comes after the connection has left the wheel. -/
theorem onMsg_serves_iff (num : Int) (pos : Nat) (events : List Event) :
    Serves num (start pos) [] events ↔ AtBoundaries num 0 [] events := by
  have hempty : (Buffer.new kInitialSize).contents = [] := (Buffer.contents_eq_nil _).mpr rfl
  exact serves_iff events (start pos) [] rfl ⟨_, rfl, hempty⟩

/-- A call for the first half of a frame never returns. -/
theorem onMsg_hangs_in_body :
    ¬ ∃ t, Returns 40 (start 0) [0, 0, 0, 2, 1] t := by
  rintro ⟨t, b, fuel, hb, ht⟩
  obtain ⟨r, hr, hrc⟩ := (Buffer.new kInitialSize).append_spec [0, 0, 0, 2, 1]
  cases hb.symm.trans hr
  have hcall : onMsg 40 fuel { start 0 with buffer := b } =
      loop 40 fuel { start 0 with buffer := b } ⟨.kExpectFrameSize, 0⟩ := rfl
  rw [hcall] at ht
  obtain ⟨hshort, -⟩ := loop_returns rfl ht
  have hempty : (Buffer.new kInitialSize).contents = [] := (Buffer.contents_eq_nil _).mpr rfl
  simp only [pending, hrc, hempty] at hshort
  exact absurd hshort (by decide)

end SvrConn

end TstMuduo.Cthrift
