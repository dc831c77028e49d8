import TstMuduo.Base.AsyncLogging

/-!
# Stopping the asynchronous logger (muduo/base/AsyncLogging.h)

`stop()` clears `running_` without the lock and joins the thread, which reads it only at
the head of its loop. Whether the lines of the front end still get written is decided by
where the back end is at the store.
-/

namespace TstMuduo.Base
open TstMuduo.Lib

def StopCall.hasStored : StopCall → Bool
  | .notCalled => false
  | .called => false
  | _ => true

namespace AsyncLogging

/- The bytes of the lines whose `append` returned before `stop()` was called. -/
def markedBytes (s : AsyncLogging) : Bytes := (s.lines.take s.marked).flatten

/-- All of them were passed to `LogFile::append`. -/
def Drained (s : AsyncLogging) : Prop := s.markedBytes <+: s.output.flatten

instance (s : AsyncLogging) : Decidable s.Drained := inferInstanceAs (Decidable (_ <+: _))

def Taken (s : AsyncLogging) : Prop :=
  s.markedBytes.length ≤ s.swapped.flatten.flatten.length

/- The store of `stop()` finds the back end between its test of `running_` and its swap, or
with nothing left to swap out. -/
def StoresInTime (s : AsyncLogging) : LogAction → Prop
  | .stopStore => s.backEnd = .lock ∨ s.backEnd = .waiting ∨ s.Taken
  | _ => True

instance (s : AsyncLogging) : Decidable s.Taken := inferInstanceAs (Decidable (_ ≤ _))

instance (s : AsyncLogging) (a : LogAction) : Decidable (s.StoresInTime a) := by
  cases a <;> unfold StoresInTime <;> infer_instance

/-- The marked bytes are out of the front end, or the back end will swap once more. -/
def Safe (s : AsyncLogging) : Prop :=
  s.stopCall.hasStored = true → s.backEnd = .lock ∨ s.backEnd = .waiting ∨ s.Taken

structure Stopping (s : AsyncLogging) : Prop where
  halted : s.stopCall.hasStored = true → s.running = false
  marked_le : s.marked ≤ s.lines.length
  joined : s.stopCall = .returned → s.backEnd = .returned

theorem Stopping.init : AsyncLogging.init.Stopping where
  halted := fun h => by cases h
  marked_le := Nat.le_refl 0
  joined := fun h => by cases h

theorem markedBytes_append {s t : AsyncLogging} (hm : s.marked ≤ s.lines.length)
    (ht : t.marked = s.marked) {more : List Bytes} (hl : t.lines = s.lines ++ more) :
    t.markedBytes = s.markedBytes := by
  rw [markedBytes, markedBytes, ht, hl, List.take_append_of_le_length hm]

theorem Step.stays_returned {size : Nat} {s t : AsyncLogging} {a : LogAction}
    (h : Step size s a t) (hret : s.backEnd = .returned) : t.backEnd = .returned := by
  cases h <;> first | exact hret | rfl | simp_all

theorem Stopping.step {size : Nat} {s t : AsyncLogging} {a : LogAction} (hs : s.Stopping)
    (hsh : s.Shape) (h : Step size s a t) : t.Stopping := by
  have hgrow : s.lines.length ≤ t.lines.length := by
    rw [h.lines, List.length_append]
    omega
  have hmarked := hs.marked_le
  have hstay := h.stays_returned
  cases h with
  | start hb =>
    refine ⟨?_, hmarked, ?_⟩
    · intro hst
      -- the thread is not started, so nobody has called `stop()`
      have hcall : s.stopCall = .notCalled := by
        by_contra hne
        exact (hsh.stopped hne).1 hb
      change s.stopCall.hasStored = true at hst
      rw [hcall] at hst
      cases hst
    · intro hret
      have := hs.joined hret
      rw [hb] at this
      cases this
  | fits logline c hc hfit => exact ⟨hs.halted, Nat.le_trans hmarked hgrow, hs.joined⟩
  | next logline c n hc hn => exact ⟨hs.halted, Nat.le_trans hmarked hgrow, hs.joined⟩
  | allocate logline c hc hn => exact ⟨hs.halted, Nat.le_trans hmarked hgrow, hs.joined⟩
  | stopCall hst h => exact ⟨fun h => (by cases h), Nat.le_refl _, fun h => by cases h⟩
  | stopStore h => exact ⟨fun _ => rfl, hmarked, fun h => by cases h⟩
  | stopNotify h =>
    exact ⟨fun _ => hs.halted (by rw [h]; rfl), hmarked, fun h => by cases h⟩
  | stopReturn h hb => exact ⟨fun _ => hs.halted (by rw [h]; rfl), hmarked, fun _ => hb⟩
  | _ => exact ⟨hs.halted, hmarked, fun hr => hstay (hs.joined hr)⟩

theorem Content.taken_of_front {s : AsyncLogging} (h : s.Content) (hf : s.front.flatten = []) :
    s.Taken := by
  have hbytes := h.bytes
  rw [hf, List.append_nil] at hbytes
  rw [Taken, hbytes, markedBytes]
  conv => rhs; rw [← List.take_append_drop s.marked s.lines, List.flatten_append]
  rw [List.length_append]
  omega

theorem safe_of_not_stored {s : AsyncLogging} (h : s.stopCall.hasStored = false) : s.Safe := by
  intro hst
  rw [h] at hst
  cases hst

theorem safe_congr {s t : AsyncLogging} (hc : t.stopCall.hasStored = s.stopCall.hasStored)
    (hl : t.backEnd = .lock ∨ t.backEnd = .waiting ↔ s.backEnd = .lock ∨ s.backEnd = .waiting)
    (hm : t.markedBytes = s.markedBytes) (hsw : t.swapped = s.swapped) : t.Safe ↔ s.Safe := by
  rw [Safe, Safe, Taken, Taken, hc, hm, hsw, ← or_assoc, ← or_assoc, hl]

theorem safe_move {s t : AsyncLogging} (hc : t.stopCall = s.stopCall)
    (hs : s.backEnd ≠ .lock ∧ s.backEnd ≠ .waiting) (ht : t.backEnd ≠ .lock ∧ t.backEnd ≠ .waiting)
    (hm : t.markedBytes = s.markedBytes) (hsw : t.swapped = s.swapped) : t.Safe ↔ s.Safe := by
  refine safe_congr (by rw [hc]) ?_ hm hsw
  constructor
  · intro h
    exact absurd h (not_or.mpr ht)
  · intro h
    exact absurd h (not_or.mpr hs)

/-- Every action but the store keeps the lines as safe as they are, and the store finds them
safe exactly where it comes in time. -/
theorem Step.safe_iff {size : Nat} {s t : AsyncLogging} {a : LogAction} (hs : s.Inv)
    (hst : s.Stopping) (h : Step size s a t) : t.Safe ↔ s.Safe ∧ s.StoresInTime a := by
  have hcontent := hs.content.step hs.shape h
  have hp := hs.shape.phase
  cases h with
  | fits logline c hc hfit =>
    simp only [StoresInTime, and_true]
    exact safe_congr rfl Iff.rfl (markedBytes_append hst.marked_le rfl rfl) rfl
  | next logline c n hc hn =>
    simp only [StoresInTime, and_true]
    exact safe_congr rfl Iff.rfl (markedBytes_append hst.marked_le rfl rfl) rfl
  | allocate logline c hc hn =>
    simp only [StoresInTime, and_true]
    exact safe_congr rfl Iff.rfl (markedBytes_append hst.marked_le rfl rfl) rfl
  | again hb hr =>
    -- `running_` was true, so nothing was stored yet
    have hno : s.stopCall.hasStored = false := by
      by_contra hyes
      have := hst.halted (by simpa using hyes)
      rw [hr] at this
      cases this
    simp only [StoresInTime, and_true]
    exact iff_of_true (safe_of_not_stored hno) (safe_of_not_stored hno)
  | wait hb hempty =>
    simp only [StoresInTime, and_true]
    refine safe_congr rfl ?_ rfl rfl
    exact iff_of_true (Or.inr rfl) (Or.inl hb)
  | swap a c n1 n2 ha hc h1 h2 =>
    have hidle : s.Idle ∧ (s.backEnd = .lock ∨ s.backEnd = .waiting) ∧ s.StoresInTime a := by
      rcases ha with ⟨rfl, hb, -⟩ | ⟨rfl, hb⟩
      · rw [hb] at hp
        exact ⟨hp, .inl hb, trivial⟩
      · rw [hb] at hp
        exact ⟨hp, .inr hb, trivial⟩
    obtain ⟨⟨⟨m1, hm1, he1⟩, -, -⟩, hplace, hguard⟩ := hidle
    cases h1.symm.trans hm1
    refine iff_of_true ?_ ⟨fun _ => ?_, hguard⟩
    · intro _
      refine .inr (.inr (hcontent.taken_of_front ?_))
      simp only [front, List.nil_append, Option.toList_some, List.map_cons, List.map_nil, he1,
        List.flatten_cons, List.flatten_nil]
    · rcases hplace with hb | hb
      · exact .inl hb
      · exact .inr (.inl hb)
  | stopCall hstarted hcall =>
    simp only [StoresInTime, and_true]
    exact iff_of_true (safe_of_not_stored rfl) (safe_of_not_stored (by rw [hcall]; rfl))
  | stopStore hcall =>
    have hsafe : s.Safe := safe_of_not_stored (by rw [hcall]; rfl)
    rw [and_iff_right hsafe]
    exact ⟨fun h => h rfl, fun h _ => h⟩
  | stopNotify hcall =>
    simp only [StoresInTime, and_true]
    exact safe_congr (by rw [hcall]; rfl) Iff.rfl rfl rfl
  | stopReturn hcall hb =>
    simp only [StoresInTime, and_true]
    exact safe_congr (by rw [hcall]; rfl) Iff.rfl rfl rfl
  | _ =>
    rename_i hb
    simp only [StoresInTime, and_true]
    exact safe_move rfl (by simp_all) (by simp) rfl rfl

theorem drained_iff_safe {s : AsyncLogging} (hs : s.Inv) (hst : s.Stopping)
    (hb : ∀ b ∈ s.swapped, b.length ≤ 25) (hret : s.stopCall = .returned) :
    s.Drained ↔ s.Safe := by
  have hback := hst.joined hret
  have hout : s.output = s.swapped.flatten := by
    have := hs.content.output_batch hb
    simp only [batch, hback, List.append_nil] at this
    exact this
  have hsafe : s.Safe ↔ s.Taken := by
    rw [Safe, hret, hback]
    simp [StopCall.hasStored]
  rw [hsafe, Drained, hout, Taken]
  constructor
  · intro h
    exact h.length_le
  · intro hlen
    -- both are beginnings of the appended bytes
    have hmarked : s.markedBytes <+: s.lines.flatten := by
      refine ⟨(s.lines.drop s.marked).flatten, ?_⟩
      rw [markedBytes, ← List.flatten_append, List.take_append_drop]
    have hswapped : s.swapped.flatten.flatten <+: s.lines.flatten :=
      ⟨s.front.flatten, hs.content.bytes⟩
    exact List.prefix_of_prefix_length_le hmarked hswapped hlen

/-- When `stop()` has returned, the lines appended before its call are written exactly if
its store found the back end just before a swap, or nothing of them to swap out. -/
theorem stop_drains_iff (as : List LogAction) (hshort : ∀ a ∈ as, a.Short kLargeBuffer)
    (t : AsyncLogging) (h : (asyncLogging kLargeBuffer).run .init as = some (.ok t))
    (hb : ∀ b ∈ t.swapped, b.length ≤ 25) (hret : t.stopCall = .returned) :
    t.Drained ↔ (asyncLogging kLargeBuffer).Along StoresInTime .init as := by
  have hstep : ∀ s a x, s.Inv ∧ s.Stopping → a.Short kLargeBuffer →
      (asyncLogging kLargeBuffer).step s a = some x →
      ∃ t, x = .ok t ∧ (t.Inv ∧ t.Stopping) ∧ (t.Safe ↔ s.Safe ∧ s.StoresInTime a) := by
    intro s a x hs ha hx
    obtain ⟨t, ht, hst⟩ := step_ok hs.1.shape ha hx
    exact ⟨t, ht, ⟨hs.1.step hst, hs.2.step hs.1.shape hst⟩, hst.safe_iff hs.1 hs.2⟩
  obtain ⟨u, hu, hinv, hsafe⟩ := Machine.run_exact_of hstep ⟨.init, .init⟩ hshort h
  cases hu
  rw [drained_iff_safe hinv.1 hinv.2 hb hret, hsafe]
  exact and_iff_right (safe_of_not_stored rfl)

/- `stop()` comes while the back end waits: the line is swapped out once more. -/
def stopInTheWait : List LogAction :=
  [.start, .enter, .test, .lock, .append [1, 2], .stopCall, .stopStore, .stopNotify, .wake,
    .trim "", .write, .write, .recycle, .test, .stopReturn]

theorem stop_drains_in_the_wait :
    ∃ t, (asyncLogging kLargeBuffer).run .init stopInTheWait = some (.ok t) ∧
      t.stopCall = .returned ∧ t.markedBytes = [1, 2] ∧ t.Drained := by
  have hrun : (asyncLogging kLargeBuffer).runsTo .init stopInTheWait
      (fun t => t.stopCall == .returned && t.markedBytes == [1, 2] &&
        t.swapped == [[[1, 2]]]) = true := by
    decide +kernel
  obtain ⟨t, ht, htest⟩ := Machine.exists_of_runsTo hrun
  simp only [Bool.and_eq_true, beq_iff_eq] at htest
  have hshort : ∀ a ∈ stopInTheWait, a.Short kLargeBuffer := by
    simp [stopInTheWait, LogAction.Short, kLargeBuffer]
  refine ⟨t, ht, htest.1.1, htest.1.2, ?_⟩
  refine (stop_drains_iff _ hshort t ht ?_ htest.1.1).mpr (by decide +kernel)
  rw [htest.2]
  decide

/- `stop()` comes while the back end writes its batch: the line appended since the swap
stays in `currentBuffer_`. -/
def stopInTheWrite : List LogAction :=
  [.start, .enter, .append [1], .test, .lock, .wake, .trim "", .append [2], .stopCall,
    .stopStore, .stopNotify, .write, .write, .recycle, .test, .stopReturn]

theorem stop_loses_a_line :
    ∃ t, (∀ a ∈ stopInTheWrite, a.Short kLargeBuffer) ∧
      (asyncLogging kLargeBuffer).run .init stopInTheWrite = some (.ok t) ∧
      (∀ b ∈ t.swapped, b.length ≤ 25) ∧ t.stopCall = .returned ∧
      t.lines.take t.marked = [[1], [2]] ∧ t.output = [[1]] ∧ ¬ t.Drained := by
  have hrun : (asyncLogging kLargeBuffer).runsTo .init stopInTheWrite
      (fun t => t.stopCall == .returned && t.swapped == [[[1]]] &&
        t.lines.take t.marked == [[1], [2]] && t.output == [[1]] && !decide t.Drained) = true := by
    decide +kernel
  obtain ⟨t, ht, htest⟩ := Machine.exists_of_runsTo hrun
  simp only [Bool.and_eq_true, beq_iff_eq, Bool.not_eq_true', decide_eq_false_iff_not] at htest
  obtain ⟨⟨⟨⟨hret, hswapped⟩, hlines⟩, hout⟩, hnot⟩ := htest
  refine ⟨t, ?_, ht, ?_, hret, hlines, hout, hnot⟩
  · simp [stopInTheWrite, LogAction.Short, kLargeBuffer]
  · rw [hswapped]
    decide

end AsyncLogging

end TstMuduo.Base
