import TstMuduo.Lib.Framing
import TstMuduo.Net.BufferInt

/-!
# Frames on a connection (cthrift/util/cthrift_common.h, cthrift_svr.cc, cthrift_client_worker.cc)

A frame is the length of its body as an `int32_t` in network order, and the body. Both ends
read frames with a loop of two states. What such a loop has not handed on yet is the
contents of the buffer, behind the length that was already taken out of it.
-/

namespace TstMuduo.Cthrift
open TstMuduo.Lib TstMuduo.Net

inductive State where
  | kExpectFrameSize
  | kExpectFrame
  deriving DecidableEq, Repr

/- `static_cast<size_t>` of an `int32_t`: the sign is extended. -/
def sizeT (i : BitVec 32) : Nat := (i.signExtend 64).toNat

/- `readInt32` (`Buffer.h:302`). -/
def readInt32 (b : Buffer) : Except Assertion (BitVec 32 × Buffer) := do
  let result ← b.peekInt32
  let r ← b.retrieve 4
  return (result, r)

def framing : Framing Byte where
  headLen := 4
  headLen_pos := by decide
  size head := sizeT (networkToHost32 head)

/-- The input that is not handed on yet. -/
def pending (enum_state : State) (i32_want_size : BitVec 32) (contents : Bytes) : Bytes :=
  match enum_state with
  | .kExpectFrameSize => contents
  | .kExpectFrame => hostToNetwork32 i32_want_size ++ contents

theorem readInt32_spec (b : Buffer) (h : 4 ≤ b.readableBytes) :
    ∃ r, readInt32 b = .ok (networkToHost32 (b.contents.take 4), r) ∧
      r.contents = b.contents.drop 4 := by
  obtain ⟨r, hr, hc⟩ := b.retrieve_spec 4 h
  refine ⟨r, ?_, hc⟩
  simp only [readInt32, Buffer.peekInt32, check_ok h, ok_bind, hr]
  rfl

theorem pending_taken (contents : Bytes) (h : 4 ≤ contents.length) :
    pending .kExpectFrame (networkToHost32 (contents.take 4)) (contents.drop 4) = contents := by
  have hlen : (contents.take 4).length = 4 := by
    rw [List.length_take]
    omega
  rw [pending, hostToNetwork32_networkToHost32 _ hlen, List.take_append_drop]

theorem pending_append (enum_state : State) (want : BitVec 32) (contents chunk : Bytes) :
    pending enum_state want (contents ++ chunk) = pending enum_state want contents ++ chunk := by
  cases enum_state with
  | kExpectFrameSize => rfl
  | kExpectFrame => exact (List.append_assoc ..).symm

theorem front_short (contents : Bytes) (h : contents.length < 4) : framing.front contents = none :=
  if_neg (Nat.not_le_of_lt h)

theorem front_taken (want : BitVec 32) (contents : Bytes) :
    framing.front (hostToNetwork32 want ++ contents) =
      if sizeT want ≤ contents.length then some (sizeT want) else none := by
  have hsize : framing.size ((hostToNetwork32 want ++ contents).take framing.headLen) =
      sizeT want := congrArg sizeT (networkToHost32_hostToNetwork32 want)
  have hlen : (hostToNetwork32 want ++ contents).length = 4 + contents.length := by
    rw [List.length_append, length_hostToNetwork32]
  unfold Framing.front
  rw [hsize, hlen, if_pos (show framing.headLen ≤ 4 + contents.length from Nat.le_add_right 4 _)]
  have hle : framing.headLen + sizeT want ≤ 4 + contents.length ↔ sizeT want ≤ contents.length :=
    Nat.add_le_add_iff_left
  simp only [hle]

theorem split_taken (want : BitVec 32) (contents : Bytes) (h : sizeT want ≤ contents.length) :
    framing.frames (hostToNetwork32 want ++ contents) =
        contents.take (sizeT want) :: framing.frames (contents.drop (sizeT want)) ∧
      framing.rest (hostToNetwork32 want ++ contents) =
        framing.rest (contents.drop (sizeT want)) := by
  have hfront := front_taken want contents
  rw [if_pos h] at hfront
  have hdrop : (hostToNetwork32 want ++ contents).drop (framing.headLen + sizeT want) =
      contents.drop (sizeT want) := by
    rw [← List.drop_drop]
    rfl
  rw [Framing.frames_of_some hfront, Framing.rest_of_some hfront, hdrop]
  exact ⟨rfl, rfl⟩

theorem front_waiting (want : BitVec 32) (contents : Bytes) (h : contents.length < sizeT want) :
    framing.front (hostToNetwork32 want ++ contents) = none := by
  rw [front_taken, if_neg (Nat.not_le_of_lt h)]

/-! ### Streams of frames -/

/-- A frame whose length the length field can say. -/
structure Frame where
  body : Bytes
  fits : body.length < 2 ^ 31

def Frame.wire (f : Frame) : Bytes := hostToNetwork32 (.ofNat 32 f.body.length) ++ f.body

def stream (fs : List Frame) : Bytes := fs.flatMap Frame.wire

theorem sizeT_ofNat {n : Nat} (h : n < 2 ^ 31) : sizeT (.ofNat 32 n) = n := by
  have hmsb : (BitVec.ofNat 32 n).msb = false := by
    rw [BitVec.msb_eq_decide, decide_eq_false_iff_not, BitVec.toNat_ofNat]
    omega
  rw [sizeT, BitVec.signExtend_eq_setWidth_of_msb_false hmsb, BitVec.toNat_setWidth,
    BitVec.toNat_ofNat]
  omega

theorem Frame.length_wire (f : Frame) : f.wire.length = 4 + f.body.length := by
  rw [wire, List.length_append, length_hostToNetwork32]

theorem Frame.front_wire (f : Frame) (later : Bytes) :
    framing.front (f.wire ++ later) = some f.body.length := by
  rw [wire, List.append_assoc, front_taken, sizeT_ofNat f.fits, if_pos]
  rw [List.length_append]
  omega

theorem Frame.front_part (f : Frame) {xs : Bytes} (hp : xs <+: f.wire)
    (hlt : xs.length < f.wire.length) : framing.front xs = none := by
  by_cases h4 : xs.length < 4
  · exact front_short xs h4
  · obtain ⟨ys, hys⟩ := hp
    have hhead : hostToNetwork32 (.ofNat 32 f.body.length) = xs.take 4 := by
      have htake := congrArg (List.take 4) hys
      rw [List.take_append_of_le_length (Nat.le_of_not_lt h4)] at htake
      exact htake.symm
    rw [← List.take_append_drop 4 xs, ← hhead, front_taken, sizeT_ofNat f.fits, if_neg]
    rw [length_wire] at hlt
    rw [List.length_drop]
    omega

theorem split_stream (fs : List Frame) {xs : Bytes} (h : xs <+: stream fs) :
    ∃ done todo, fs = done ++ todo ∧ framing.frames xs = done.map Frame.body ∧
      xs = stream done ++ framing.rest xs ∧
      (todo = [] ∧ framing.rest xs = [] ∨ ∃ f later, todo = f :: later ∧
        framing.rest xs <+: f.wire ∧ (framing.rest xs).length < f.wire.length) := by
  induction fs generalizing xs with
  | nil =>
    have hnil : xs = [] := List.prefix_nil.mp h
    have hnone : framing.front xs = none := by
      rw [hnil]
      rfl
    rw [Framing.frames_of_none hnone, Framing.rest_of_none hnone, hnil]
    exact ⟨[], [], rfl, rfl, rfl, .inl ⟨rfl, rfl⟩⟩
  | cons f fs ih =>
    have hstream : stream (f :: fs) = f.wire ++ stream fs := List.flatMap_cons
    rw [hstream] at h
    by_cases hlt : xs.length < f.wire.length
    · have hp : xs <+: f.wire :=
        List.prefix_of_prefix_length_le h (List.prefix_append _ _) (Nat.le_of_lt hlt)
      have hnone := f.front_part hp hlt
      rw [Framing.frames_of_none hnone, Framing.rest_of_none hnone]
      exact ⟨[], f :: fs, rfl, rfl, rfl, .inr ⟨f, fs, rfl, hp, hlt⟩⟩
    · obtain ⟨ys, rfl⟩ : f.wire <+: xs :=
        List.prefix_of_prefix_length_le (List.prefix_append _ _) h (Nat.le_of_not_lt hlt)
      obtain ⟨done, todo, hfs, hframes, hxs, hrest⟩ := ih ((List.prefix_append_right_inj _).mp h)
      have hsome := f.front_wire ys
      have hdrop : (f.wire ++ ys).drop (framing.headLen + f.body.length) = ys :=
        List.drop_left' f.length_wire
      have hbody : ((f.wire ++ ys).drop framing.headLen).take f.body.length = f.body := by
        rw [Frame.wire, List.append_assoc]
        exact List.take_left
      rw [Framing.frames_of_some hsome, Framing.rest_of_some hsome, hdrop, hbody, hframes]
      refine ⟨f :: done, todo, ?_, rfl, ?_, hrest⟩
      · rw [hfs, List.cons_append]
      · rw [show stream (f :: done) = f.wire ++ stream done from List.flatMap_cons,
          List.append_assoc, ← hxs]

end TstMuduo.Cthrift
