import Mathlib.Data.List.Induction
import TstMuduo.Net.ProtobufCodecLite

/-!
# The raw callback of the codec (muduo/net/protobuf/ProtobufCodecLite.cc)

A callback that may answer by what it has been offered before. A frame that it refuses is
taken out of the buffer, and the loop is left.
-/

namespace TstMuduo.Net
open TstMuduo.Lib

variable {Msg : Type}

/- The codec, and the frames that `rawCb_` has been offered. -/
structure RawState (Msg : Type) where
  codec : CodecState Msg
  offered : List Bytes

/- What the callback says of a frame, after the frames before it. -/
abbrev RawRule := List Bytes → Bytes → Bool

namespace ProtobufCodecLite

/- The frame that a turn of the loop hands to `rawCb_` (`ProtobufCodecLite.cc:67`). -/
def rawFrame (c : ProtobufCodecLite Msg) (s : CodecState Msg) : Option Bytes :=
  if c.kMinMessageLen + kHeaderLen ≤ s.buffer.readableBytes then
    match s.buffer.peekInt32 with
    | .error _ => none
    | .ok len =>
      if (kMaxMessageLen : Int) < len.toInt ∨ len.toInt < c.kMinMessageLen then none
      else if kHeaderLen + len.toNat ≤ s.buffer.readableBytes then
        some (s.buffer.contents.take (kHeaderLen + len.toNat))
      else none
  else none

def withRule (c : ProtobufCodecLite Msg) (rule : RawRule) (offered : List Bytes) :
    ProtobufCodecLite Msg :=
  { c with rawCb := some (rule offered) }

def rawTurn (c : ProtobufCodecLite Msg) (rule : RawRule) (s : RawState Msg) :
    Except Assertion (Bool × RawState Msg) := do
  let (again, t) ← (c.withRule rule s.offered).turn s.codec
  return (again, ⟨t, s.offered ++ (c.rawFrame s.codec).toList⟩)

def rawLoop (c : ProtobufCodecLite Msg) (rule : RawRule) :
    Nat → RawState Msg → Except Assertion (Option (RawState Msg))
  | 0, _ => .ok none
  | fuel + 1, s => do
    let (again, t) ← c.rawTurn rule s
    if again then c.rawLoop rule fuel t else return some t

def rawOnMessage (c : ProtobufCodecLite Msg) (rule : RawRule) (s : RawState Msg) :
    Except Assertion (Option (RawState Msg)) :=
  c.rawLoop rule (s.codec.buffer.readableBytes + 1) s

/- Chunks that are appended to the input buffer, with `onMessage` after each one. -/
def rawReceive (c : ProtobufCodecLite Msg) (rule : RawRule) :
    RawState Msg → List Bytes → Except Assertion (Option (RawState Msg))
  | s, [] => .ok (some s)
  | s, chunk :: chunks => do
    let b ← s.codec.buffer.append chunk
    match ← c.rawOnMessage rule { s with codec := { s.codec with buffer := b } } with
    | none => return none
    | some t => c.rawReceive rule t chunks

variable {c : ProtobufCodecLite Msg}

/-! ### A turn on well-formed frames -/

theorem peekInt32_of_le {s : CodecState Msg}
    (h : c.kMinMessageLen + kHeaderLen ≤ s.buffer.readableBytes) :
    s.buffer.peekInt32 = .ok (networkToHost32 (s.buffer.contents.take kHeaderLen)) := by
  have h4 : 4 ≤ s.buffer.readableBytes := by
    unfold kHeaderLen at h
    omega
  simp only [Buffer.peekInt32, check_ok h4, ok_bind]
  rfl

theorem turn_short {s : CodecState Msg} (h : c.front s.buffer.contents = .short) :
    c.turn s = .ok (false, s) ∧ c.rawFrame s = none := by
  by_cases hmin : c.kMinMessageLen + kHeaderLen ≤ s.buffer.readableBytes
  · have hread := peekInt32_of_le hmin
    unfold front at h
    unfold turn rawFrame
    rw [Buffer.length_contents, if_pos hmin] at h
    rw [if_pos hmin, if_pos hmin, hread]
    generalize networkToHost32 (s.buffer.contents.take kHeaderLen) = len at h ⊢
    simp only [ok_bind] at h ⊢
    by_cases hbad : (kMaxMessageLen : Int) < len.toInt ∨ len.toInt < c.kMinMessageLen
    · rw [if_pos hbad] at h
      cases h
    · rw [if_neg hbad] at h
      rw [if_neg hbad, if_neg hbad]
      by_cases hlen : kHeaderLen + len.toNat ≤ s.buffer.readableBytes
      · rw [if_pos hlen] at h
        split at h
        · cases h
        · cases h
      · rw [if_neg hlen, if_neg hlen]
        exact ⟨rfl, rfl⟩
  · unfold turn rawFrame
    rw [if_neg hmin, if_neg hmin]
    exact ⟨rfl, rfl⟩

theorem turn_good {s : CodecState Msg} {n : Nat} {m : Msg}
    (h : c.front s.buffer.contents = .good n m) :
    c.rawFrame s = some (s.buffer.contents.take n) ∧
      ∃ b : Buffer, b.contents = s.buffer.contents.drop n ∧
        c.turn s = .ok (if c.rawRefused (s.buffer.contents.take n) then
            (false, { s with buffer := b })
          else (true, { s with buffer := b, events := s.events ++ [.message m] })) := by
  by_cases hmin : c.kMinMessageLen + kHeaderLen ≤ s.buffer.readableBytes
  · have hread := peekInt32_of_le hmin
    unfold front at h
    unfold turn rawFrame
    rw [Buffer.length_contents, if_pos hmin] at h
    rw [if_pos hmin, if_pos hmin, hread]
    generalize networkToHost32 (s.buffer.contents.take kHeaderLen) = len at h ⊢
    simp only [ok_bind] at h ⊢
    by_cases hbad : (kMaxMessageLen : Int) < len.toInt ∨ len.toInt < c.kMinMessageLen
    · rw [if_pos hbad] at h
      cases h
    · rw [if_neg hbad] at h
      rw [if_neg hbad, if_neg hbad]
      by_cases hlen : kHeaderLen + len.toNat ≤ s.buffer.readableBytes
      · rw [if_pos hlen] at h
        rw [if_pos hlen, if_pos hlen]
        obtain ⟨b, hb, hc⟩ := s.buffer.retrieve_spec _ hlen
        cases hp : c.parse ((s.buffer.contents.drop kHeaderLen).take len.toNat) with
        | error e =>
          rw [hp] at h
          cases h
        | ok m' =>
          rw [hp] at h
          cases h
          refine ⟨rfl, b, hc, ?_⟩
          simp only [hb, ok_bind]
          split
          · rfl
          · rfl
      · rw [if_neg hlen] at h
        cases h
  · unfold front at h
    rw [Buffer.length_contents, if_neg hmin] at h
    cases h

theorem front_nil : c.front [] = .short := by
  unfold front
  exact if_neg (by simp [kHeaderLen])

theorem front_of_part {bytes xs : Bytes} {m : Msg} (h : c.WellFormed bytes m) (hx : xs <+: bytes)
    (hlt : xs.length < bytes.length) : c.front xs = .short := by
  by_contra hne
  obtain ⟨zs, rfl⟩ := hx
  have hwhole := front_of_wellFormed h []
  rw [List.append_nil, c.front_append xs zs hne] at hwhole
  have hle := (front_good_le hwhole).2
  omega

end ProtobufCodecLite

/-! ### Frames of a stream -/

def wholeFrames : List (Bytes × Msg) → Nat → List (Bytes × Msg)
  | [], _ => []
  | f :: fs, n => if f.1.length ≤ n then f :: wholeFrames fs (n - f.1.length) else []

def frameBytes (fs : List (Bytes × Msg)) : Bytes := (fs.map Prod.fst).flatten

def accepted (rule : RawRule) : List Bytes → List (Bytes × Msg) → List Msg
  | _, [] => []
  | before, f :: fs =>
    (if rule before f.1 then [f.2] else []) ++ accepted rule (before ++ [f.1]) fs

def untilRefused (rule : RawRule) : List Bytes → List (Bytes × Msg) → List (Bytes × Msg)
  | _, [] => []
  | before, f :: fs =>
    f :: if rule before f.1 then untilRefused rule (before ++ [f.1]) fs else []

theorem frameBytes_cons (f : Bytes × Msg) (fs : List (Bytes × Msg)) :
    frameBytes (f :: fs) = f.1 ++ frameBytes fs := rfl

theorem frameBytes_append (fs gs : List (Bytes × Msg)) :
    frameBytes (fs ++ gs) = frameBytes fs ++ frameBytes gs := by
  simp [frameBytes]

theorem accepted_append (rule : RawRule) (before : List Bytes) (fs gs : List (Bytes × Msg)) :
    accepted rule before (fs ++ gs) =
      accepted rule before fs ++ accepted rule (before ++ fs.map Prod.fst) gs := by
  induction fs generalizing before with
  | nil => simp [accepted]
  | cons f fs ih => simp [accepted, ih]

theorem untilRefused_prefix (rule : RawRule) (before : List Bytes) (fs : List (Bytes × Msg)) :
    untilRefused rule before fs <+: fs := by
  induction fs generalizing before with
  | nil => exact List.prefix_rfl
  | cons f fs ih =>
    rw [untilRefused, List.prefix_cons_inj]
    split
    · exact ih _
    · exact List.nil_prefix

theorem untilRefused_eq_iff {rule : RawRule} {before : List Bytes} {fs : List (Bytes × Msg)} :
    untilRefused rule before fs = fs ↔
      ∀ i f, i + 1 < fs.length → fs[i]? = some f →
        rule (before ++ (fs.take i).map Prod.fst) f.1 = true := by
  induction fs generalizing before with
  | nil => simp [untilRefused]
  | cons f fs ih =>
    rw [untilRefused, List.cons.injEq]
    simp only [true_and]
    constructor
    · intro h i g hi hg
      have hrule : rule before f.1 = true := by
        by_contra hno
        rw [if_neg hno] at h
        rw [← h] at hi
        simp at hi
      rw [if_pos hrule, ih] at h
      cases i with
      | zero =>
        cases hg
        simpa using hrule
      | succ i =>
        have hnext := h i g (by simpa using hi) (by simpa using hg)
        simpa using hnext
    · intro h
      cases fs with
      | nil => simp [untilRefused]
      | cons g fs =>
        have hrule : rule before f.1 = true := by
          have hzero := h 0 f (by simp) rfl
          simpa using hzero
        rw [if_pos hrule, ih]
        intro i k hi hk
        have hsucc := h (i + 1) k (by simpa using hi) (by simpa using hk)
        simpa using hsucc

theorem wholeFrames_prefix (fs : List (Bytes × Msg)) (n : Nat) : wholeFrames fs n <+: fs := by
  induction fs generalizing n with
  | nil => exact List.prefix_rfl
  | cons f fs ih =>
    rw [wholeFrames]
    split
    · rw [List.prefix_cons_inj]
      exact ih _
    · exact List.nil_prefix

theorem wholeFrames_spec (fs : List (Bytes × Msg)) (n : Nat) :
    (frameBytes (wholeFrames fs n)).length ≤ n ∧
      ∀ f gs, fs = wholeFrames fs n ++ f :: gs →
        n < (frameBytes (wholeFrames fs n)).length + f.1.length := by
  induction fs generalizing n with
  | nil =>
    refine ⟨by simp [wholeFrames, frameBytes], ?_⟩
    intro f gs h
    cases h
  | cons g fs ih =>
    rw [wholeFrames]
    split
    next hle =>
      obtain ⟨hlen, hnext⟩ := ih (n - g.1.length)
      simp only [frameBytes_cons, List.length_append]
      refine ⟨by omega, ?_⟩
      intro f gs h
      have hlt := hnext f gs (List.cons.inj h).2
      omega
    next hlt =>
      refine ⟨by simp [frameBytes], ?_⟩
      intro f gs h
      cases h
      simp only [frameBytes, List.map_nil, List.flatten_nil, List.length_nil]
      omega

theorem wholeFrames_append (fs gs : List (Bytes × Msg)) (n : Nat) :
    wholeFrames (fs ++ gs) ((frameBytes fs).length + n) = fs ++ wholeFrames gs n := by
  induction fs with
  | nil => simp [frameBytes]
  | cons f fs ih =>
    rw [List.cons_append, wholeFrames, frameBytes_cons, List.length_append, if_pos (by omega),
      List.cons_append, ← ih]
    congr 2
    omega

theorem wholeFrames_received {frames : List (Bytes × Msg)} {received : Bytes}
    (h : received <+: frameBytes frames) :
    ∃ part, received = frameBytes (wholeFrames frames received.length) ++ part := by
  obtain ⟨later, hlater⟩ := wholeFrames_prefix frames received.length
  have hwhole : frameBytes (wholeFrames frames received.length) <+: frameBytes frames := by
    nth_rewrite 2 [← hlater]
    rw [frameBytes_append]
    exact List.prefix_append _ _
  obtain ⟨part, hpart⟩ := List.prefix_of_prefix_length_le hwhole h
    (wholeFrames_spec frames received.length).1
  exact ⟨part, hpart.symm⟩

theorem untilRefused_append_iff (rule : RawRule) (whole : List (Bytes × Msg))
    {new fs : List (Bytes × Msg)} (hnew : new <+: fs) :
    untilRefused rule (whole.map Prod.fst) new = new ↔
      ∀ i f, whole.length ≤ i → i + 1 < (whole ++ new).length → (whole ++ fs)[i]? = some f →
        rule (((whole ++ fs).take i).map Prod.fst) f.1 = true := by
  obtain ⟨later, rfl⟩ := hnew
  rw [untilRefused_eq_iff]
  simp only [List.length_append]
  constructor
  · intro h i f hi hlt hf
    have hfnew : new[i - whole.length]? = some f := by
      rw [List.getElem?_append_right hi, List.getElem?_append_left (by omega)] at hf
      exact hf
    have hans := h (i - whole.length) f (by omega) hfnew
    rw [List.take_append, List.take_of_length_le hi, List.take_append_of_le_length (by omega),
      List.map_append]
    exact hans
  · intro h i f hlt hf
    have hfall : (whole ++ (new ++ later))[whole.length + i]? = some f := by
      rw [List.getElem?_append_right (by omega), Nat.add_sub_cancel_left,
        List.getElem?_append_left (by omega)]
      exact hf
    have hans := h (whole.length + i) f (by omega) (by omega) hfall
    rw [List.take_append, List.take_of_length_le (by omega), Nat.add_sub_cancel_left,
      List.take_append_of_le_length (by omega), List.map_append] at hans
    exact hans

/-! ### The loop and the chunks -/

namespace ProtobufCodecLite

variable {c : ProtobufCodecLite Msg} {rule : RawRule}

theorem rawLoop_codec (f : Bytes → Bool) (fuel : Nat) (s : RawState Msg) :
    (do return (← c.rawLoop (fun _ => f) fuel s).map RawState.codec) =
      ({ c with rawCb := some f } : ProtobufCodecLite Msg).loop fuel s.codec := by
  induction fuel generalizing s with
  | zero => rfl
  | succ fuel ih =>
    have hrule : c.withRule (fun _ => f) s.offered = { c with rawCb := some f } := rfl
    simp only [rawLoop, rawTurn, loop, hrule]
    cases ({ c with rawCb := some f } : ProtobufCodecLite Msg).turn s.codec with
    | error e => rfl
    | ok x =>
      obtain ⟨again, t⟩ := x
      cases again with
      | false => rfl
      | true => exact ih ⟨t, s.offered ++ (c.rawFrame s.codec).toList⟩

theorem rawTurn_short {s : RawState Msg} (h : c.front s.codec.buffer.contents = .short) :
    c.rawTurn rule s = .ok (false, s) := by
  obtain ⟨hturn, hframe⟩ := turn_short (c := c.withRule rule s.offered) h
  have hframe' : c.rawFrame s.codec = none := hframe
  simp only [rawTurn, hturn, ok_bind, hframe', Option.toList_none, List.append_nil]
  rfl

theorem rawTurn_whole (rule : RawRule) {s : RawState Msg} {f : Bytes × Msg} {xs : Bytes}
    (hwf : c.WellFormed f.1 f.2) (hxs : s.codec.buffer.contents = f.1 ++ xs) :
    ∃ b : Buffer, b.contents = xs ∧ c.rawTurn rule s = .ok (rule s.offered f.1,
      ⟨{ s.codec with
          buffer := b
          events := s.codec.events ++ if rule s.offered f.1 then [.message f.2] else [] },
        s.offered ++ [f.1]⟩) := by
  have hfront : (c.withRule rule s.offered).front s.codec.buffer.contents =
      .good f.1.length f.2 := by
    rw [hxs]
    exact front_of_wellFormed (c := c.withRule rule s.offered) hwf xs
  obtain ⟨hframe, b, hb, hturn⟩ := turn_good hfront
  have hframe' : c.rawFrame s.codec = some (s.codec.buffer.contents.take f.1.length) := hframe
  have hrefused : (c.withRule rule s.offered).rawRefused f.1 = !rule s.offered f.1 := rfl
  rw [hxs, List.take_left] at hturn hframe'
  rw [hxs, List.drop_left] at hb
  refine ⟨b, hb, ?_⟩
  simp only [rawTurn, hturn, hrefused, ok_bind, hframe', Option.toList_some]
  cases rule s.offered f.1 with
  | false =>
    rw [if_neg Bool.false_ne_true, List.append_nil]
    rfl
  | true => rfl

/-- The loop handles the whole frames up to the first one that the rule refuses. -/
theorem rawLoop_spec (rule : RawRule) {fuel : Nat} {s : RawState Msg} {fs : List (Bytes × Msg)}
    (hw : ∀ f ∈ fs, c.WellFormed f.1 f.2) (hpre : s.codec.buffer.contents <+: frameBytes fs)
    (hfuel : s.codec.buffer.readableBytes < fuel) :
    ∃ t done, c.rawLoop rule fuel s = .ok (some t) ∧
      done = untilRefused rule s.offered (wholeFrames fs s.codec.buffer.contents.length) ∧
      t.offered = s.offered ++ done.map Prod.fst ∧
      t.codec.delivered = s.codec.delivered ++ accepted rule s.offered done ∧
      t.codec.buffer.contents = s.codec.buffer.contents.drop (frameBytes done).length := by
  induction fuel generalizing s fs with
  | zero => omega
  | succ fuel ih =>
    have hwait : c.front s.codec.buffer.contents = .short →
        c.rawLoop rule (fuel + 1) s = .ok (some s) := by
      intro hf
      rw [rawLoop, rawTurn_short hf]
      rfl
    cases fs with
    | nil =>
      have hnil : s.codec.buffer.contents = [] := List.prefix_nil.mp hpre
      refine ⟨s, [], hwait (by rw [hnil]; exact front_nil), rfl, ?_, ?_, rfl⟩
      · exact (List.append_nil _).symm
      · exact (List.append_nil _).symm
    | cons f fs =>
      have hwf := hw f List.mem_cons_self
      rw [frameBytes_cons] at hpre
      by_cases hle : f.1.length ≤ s.codec.buffer.contents.length
      · obtain ⟨xs, hxs⟩ := List.prefix_of_prefix_length_le (List.prefix_append _ _) hpre hle
        have hrest : xs <+: frameBytes fs := by
          rw [← hxs, List.prefix_append_right_inj] at hpre
          exact hpre
        obtain ⟨b, hb, hturn⟩ := rawTurn_whole rule hwf hxs.symm
        have hwhole : wholeFrames (f :: fs) s.codec.buffer.contents.length =
            f :: wholeFrames fs xs.length := by
          rw [wholeFrames, if_pos hle, ← hxs, List.length_append, Nat.add_sub_cancel_left]
        have hdrop : ∀ n, s.codec.buffer.contents.drop (f.1.length + n) = xs.drop n := by
          intro n
          rw [← hxs, ← List.drop_drop, List.drop_left]
        rw [rawLoop, hturn]
        cases hans : rule s.offered f.1 with
        | false =>
          refine ⟨_, [f], rfl, ?_, rfl, ?_, ?_⟩
          · rw [hwhole, untilRefused, hans]
            rfl
          · simp [accepted, hans, CodecState.delivered]
          · rw [frameBytes_cons, List.length_append, hdrop]
            exact hb
        | true =>
          have hlt : b.readableBytes < fuel := by
            have hpos : 0 < f.1.length := (front_good_le (front_of_wellFormed hwf xs)).1
            rw [← Buffer.length_contents] at hfuel ⊢
            rw [← hxs, List.length_append] at hfuel
            rw [hb]
            omega
          obtain ⟨t, done, ht, hdone, hoff, hdel, hbuf⟩ := ih
            (s := ⟨{ s.codec with buffer := b, events := s.codec.events ++ [.message f.2] },
              s.offered ++ [f.1]⟩)
            (fun g hg => hw g (List.mem_cons_of_mem _ hg)) (by rw [hb]; exact hrest) hlt
          rw [hb] at hdone hbuf
          refine ⟨t, f :: done, ht, ?_, ?_, ?_, ?_⟩
          · rw [hwhole, untilRefused, hans, hdone]
            rfl
          · rw [hoff, List.map_cons, List.append_assoc]
            rfl
          · rw [hdel, accepted, hans]
            simp [CodecState.delivered]
          · rw [hbuf, frameBytes_cons, List.length_append, hdrop]
      · have hpart : s.codec.buffer.contents <+: f.1 :=
          List.prefix_of_prefix_length_le hpre (List.prefix_append _ _) (by omega)
        have hnone : wholeFrames (f :: fs) s.codec.buffer.contents.length = [] := by
          rw [wholeFrames, if_neg hle]
        refine ⟨s, [], hwait (front_of_part hwf hpart (by omega)), ?_, ?_, ?_, rfl⟩
        · rw [hnone]
          rfl
        · exact (List.append_nil _).symm
        · exact (List.append_nil _).symm

/-- What `onMessage` is to have made of the bytes received: every whole frame has been
offered once, in order, the accepted ones are delivered, and no whole frame is left. -/
structure Unstalled (c : ProtobufCodecLite Msg) (rule : RawRule) (frames : List (Bytes × Msg))
    (received : Bytes) (s : RawState Msg) : Prop where
  offered : s.offered = (wholeFrames frames received.length).map Prod.fst
  delivered : s.codec.delivered = accepted rule [] (wholeFrames frames received.length)
  contents : s.codec.buffer.contents =
    received.drop (frameBytes (wholeFrames frames received.length)).length
  maximal : c.Maximal s.codec.buffer.contents

/-- No frame that the rule refuses comes in the same chunk as the end of the frame behind
it: of the frames that a chunk completes the last one alone may be refused. -/
def RefusedLast (rule : RawRule) (frames : List (Bytes × Msg)) (chunks : List Bytes) : Prop :=
  ∀ before chunk after, chunks = before ++ chunk :: after →
    ∀ i f, (wholeFrames frames before.flatten.length).length ≤ i →
      i + 1 < (wholeFrames frames (before ++ [chunk]).flatten.length).length →
      frames[i]? = some f → rule ((frames.take i).map Prod.fst) f.1 = true

theorem rawReceive_append (s : RawState Msg) (xs ys : List Bytes) :
    c.rawReceive rule s (xs ++ ys) = (do
      match ← c.rawReceive rule s xs with
      | none => return none
      | some t => c.rawReceive rule t ys) := by
  induction xs generalizing s with
  | nil => rfl
  | cons x xs ih =>
    simp only [List.cons_append, rawReceive]
    cases s.codec.buffer.append x with
    | error e => rfl
    | ok b =>
      simp only [ok_bind]
      cases c.rawOnMessage rule { s with codec := { s.codec with buffer := b } } with
      | error e => rfl
      | ok o =>
        cases o with
        | none => rfl
        | some t => exact ih t

theorem maximal_rest {fs : List (Bytes × Msg)} {xs : Bytes}
    (hw : ∀ f ∈ fs, c.WellFormed f.1 f.2) (hxs : xs <+: frameBytes fs) :
    c.Maximal (xs.drop (frameBytes (wholeFrames fs xs.length)).length) := by
  obtain ⟨hlen, hnext⟩ := wholeFrames_spec fs xs.length
  obtain ⟨later, hlater⟩ := wholeFrames_prefix fs xs.length
  generalize wholeFrames fs xs.length = whole at *
  rw [maximal_iff]
  intro n m hfront
  have hrest : xs.drop (frameBytes whole).length <+: frameBytes later := by
    rw [← hlater, frameBytes_append] at hxs
    obtain ⟨zs, hzs⟩ := hxs
    refine ⟨zs, ?_⟩
    rw [← List.drop_append_of_le_length hlen, hzs, List.drop_left]
  cases later with
  | nil =>
    rw [List.prefix_nil.mp hrest, front_nil] at hfront
    cases hfront
  | cons f later =>
    have hlt := hnext f later hlater.symm
    have hwf := hw f (by rw [← hlater]; simp)
    have hlt' : (xs.drop (frameBytes whole).length).length < f.1.length := by
      rw [List.length_drop]
      omega
    have hpart : xs.drop (frameBytes whole).length <+: f.1 :=
      List.prefix_of_prefix_length_le hrest (List.prefix_append _ _) (by omega)
    rw [front_of_part hwf hpart hlt'] at hfront
    cases hfront

/-- A chunk keeps the decoder unstalled exactly where the frames that it completes are
accepted, the last one apart. -/
theorem rawReceive_chunk {frames : List (Bytes × Msg)} (hw : ∀ f ∈ frames, c.WellFormed f.1 f.2)
    {received chunk : Bytes} {s : RawState Msg} (hs : c.Unstalled rule frames received s)
    (hpre : received ++ chunk <+: frameBytes frames) :
    ∃ t, c.rawReceive rule s [chunk] = .ok (some t) ∧
      (c.Unstalled rule frames (received ++ chunk) t ↔
        ∀ i f, (wholeFrames frames received.length).length ≤ i →
          i + 1 < (wholeFrames frames (received ++ chunk).length).length →
          frames[i]? = some f → rule ((frames.take i).map Prod.fst) f.1 = true) := by
  obtain ⟨hoff, hdel, hcont, _⟩ := hs
  obtain ⟨part, hpart⟩ := wholeFrames_received ((List.prefix_append _ _).trans hpre)
  obtain ⟨fs, hfs⟩ := wholeFrames_prefix frames received.length
  generalize wholeFrames frames received.length = whole at hoff hdel hcont hpart hfs
  subst hfs hpart
  rw [List.drop_left] at hcont
  obtain ⟨b, hb, hbc⟩ := s.codec.buffer.append_spec chunk
  rw [hcont] at hbc
  have hrest : part ++ chunk <+: frameBytes fs := by
    rw [frameBytes_append, List.append_assoc, List.prefix_append_right_inj] at hpre
    exact hpre
  obtain ⟨t, done, ht, hdone, htoff, htdel, htbuf⟩ :=
    rawLoop_spec rule (s := { s with codec := { s.codec with buffer := b } })
      (fun f hf => hw f (List.mem_append_right _ hf)) (by rw [hbc]; exact hrest)
      (Nat.lt_succ_self _)
  rw [hbc] at hdone htbuf
  refine ⟨t, ?_, ?_⟩
  · simp only [rawReceive, hb, ok_bind, rawOnMessage, ht]
  have hnow : wholeFrames (whole ++ fs) (frameBytes whole ++ part ++ chunk).length =
      whole ++ wholeFrames fs (part ++ chunk).length := by
    rw [List.append_assoc, List.length_append]
    exact wholeFrames_append _ _ _
  rw [hnow]
  have hmaximal := maximal_rest (fun f hf => hw f (List.mem_append_right _ hf)) hrest
  have hnewfs := wholeFrames_prefix fs (part ++ chunk).length
  generalize wholeFrames fs (part ++ chunk).length = new at *
  have hreach := untilRefused_append_iff rule whole hnewfs
  rw [← hoff, ← hdone] at hreach
  rw [← hreach]
  constructor
  · intro h
    -- what has been offered counts the frames that were handled
    have hcount := congrArg List.length h.offered
    rw [htoff, hnow] at hcount
    simp only [hoff, List.length_append, List.length_map] at hcount
    have hprefix : done <+: new := by
      rw [hdone]
      exact untilRefused_prefix _ _ _
    exact hprefix.eq_of_length (by omega)
  · intro h
    rw [h] at htoff htdel htbuf
    have hcontents : t.codec.buffer.contents = (part ++ chunk).drop (frameBytes new).length := htbuf
    refine ⟨?_, ?_, ?_, ?_⟩
    · rw [htoff, hnow]
      simp only [hoff, List.map_append]
    · have hdel' : t.codec.delivered = s.codec.delivered ++ accepted rule s.offered new := htdel
      rw [hdel', hnow, hdel, hoff, accepted_append, List.nil_append]
    · rw [hcontents, hnow, frameBytes_append, List.length_append, List.append_assoc,
        ← List.drop_drop, List.drop_left]
    · rw [hcontents]
      exact hmaximal

theorem unstalled_nil {frames : List (Bytes × Msg)} (hw : ∀ f ∈ frames, c.WellFormed f.1 f.2)
    {b : Buffer} (hb : b.contents = []) (connected : Bool) :
    c.Unstalled rule frames [] ⟨⟨b, connected, []⟩, []⟩ := by
  have hnone : wholeFrames frames ([] : Bytes).length = [] := by
    cases frames with
    | nil => rfl
    | cons f fs =>
      obtain ⟨payload, hf, _⟩ := hw f List.mem_cons_self
      have hlen := c.length_frame payload
      rw [← hf] at hlen
      unfold kHeaderLen at hlen
      rw [wholeFrames, if_neg (by rw [List.length_nil]; omega)]
  refine ⟨by rw [hnone]; rfl, by rw [hnone]; rfl, hb.trans List.drop_nil.symm, ?_⟩
  rw [hb, maximal_iff]
  intro n m hf
  rw [front_nil] at hf
  cases hf

/-- The stream never stalls exactly where no chunk brings a refused frame together with the
end of the frame behind it. -/
theorem raw_filter_iff (c : ProtobufCodecLite Msg) (rule : RawRule) (frames : List (Bytes × Msg))
    (hw : ∀ f ∈ frames, c.WellFormed f.1 f.2) (chunks : List Bytes)
    (hpre : chunks.flatten <+: frameBytes frames) (b : Buffer) (hb : b.contents = [])
    (connected : Bool) :
    (∀ before, before <+: chunks → ∃ s,
        c.rawReceive rule ⟨⟨b, connected, []⟩, []⟩ before = .ok (some s) ∧
          c.Unstalled rule frames before.flatten s) ↔ RefusedLast rule frames chunks := by
  induction chunks using List.reverseRecOn with
  | nil =>
    constructor
    · intro _ before chunk after h
      exact absurd h (by simp)
    · intro _ before h
      cases List.prefix_nil.mp h
      exact ⟨_, rfl, unstalled_nil hw hb connected⟩
  | append_singleton chunks chunk ih =>
    rw [List.flatten_append, List.flatten_singleton] at hpre
    have hih := ih ((List.prefix_append _ _).trans hpre)
    constructor
    · intro h before last after hcut i f hi hlt hf
      have hbefore := hih.mp fun p hp => h p (hp.trans (List.prefix_append _ _))
      rcases List.eq_nil_or_concat after with rfl | ⟨after, x, rfl⟩
      · obtain ⟨rfl, hlast⟩ := List.append_inj' hcut rfl
        cases hlast
        obtain ⟨s, hs, hun⟩ := h chunks (List.prefix_append _ _)
        obtain ⟨t, ht, hiff⟩ := rawReceive_chunk hw hun hpre
        obtain ⟨u, hu, hun'⟩ := h (chunks ++ [chunk]) List.prefix_rfl
        rw [rawReceive_append, hs, ok_bind] at hu
        cases hu.symm.trans ht
        rw [List.flatten_append, List.flatten_singleton] at hun' hlt
        exact hiff.mp hun' i f hi hlt hf
      · have hcut' : chunks ++ [chunk] = (before ++ last :: after) ++ [x] := by
          rw [hcut]
          simp
        obtain ⟨hchunks, _⟩ := List.append_inj' hcut' rfl
        exact hbefore before last after hchunks i f hi hlt hf
    · intro h
      have hbefore : RefusedLast rule frames chunks := by
        intro before last after hcut
        exact h before last (after ++ [chunk]) (by rw [hcut]; simp)
      have hall := hih.mpr hbefore
      intro p hp
      rcases List.prefix_concat_iff.mp hp with rfl | hp
      · obtain ⟨s, hs, hun⟩ := hall chunks List.prefix_rfl
        obtain ⟨t, ht, hiff⟩ := rawReceive_chunk hw hun hpre
        refine ⟨t, ?_, ?_⟩
        · rw [rawReceive_append, hs, ok_bind]
          exact ht
        · rw [List.flatten_append, List.flatten_singleton]
          refine hiff.mpr ?_
          intro i f hi hlt hf
          refine h chunks chunk [] rfl i f hi ?_ hf
          rw [List.flatten_append, List.flatten_singleton]
          exact hlt
      · exact hall p hp

/- Two requests, of which the rule refuses the first. -/
def testFrames : List (Bytes × Unit) := [(testWire, ()), (testWire, ())]
def testRule : RawRule := fun before _ => decide (before ≠ [])

theorem testFrames_wellFormed : ∀ f ∈ testFrames, testCodec.WellFormed f.1 f.2 := by
  have hgood : testCodec.WellFormed testWire () :=
    ⟨testPayload, by decide, by decide, by decide⟩
  intro f hf
  simp only [testFrames, List.mem_cons, List.not_mem_nil, or_false, or_self] at hf
  subst hf
  exact hgood

theorem raw_filter_iff_one_per_read :
    ∃ s, testCodec.rawReceive testRule ⟨⟨Buffer.new kInitialSize, true, []⟩, []⟩
        [testWire, testWire] = .ok (some s) ∧
      testCodec.Unstalled testRule testFrames [testWire, testWire].flatten s := by
  refine (raw_filter_iff testCodec testRule testFrames testFrames_wellFormed [testWire, testWire]
    (by decide) _ (Buffer.contents_new _) true).mpr ?_ _ List.prefix_rfl
  intro before chunk after hcut i f hi hlt _
  -- no chunk completes more than one frame
  have hone : (wholeFrames testFrames (before ++ [chunk]).flatten.length).length ≤
      (wholeFrames testFrames before.flatten.length).length + 1 := by
    match before, hcut with
    | [], hcut =>
      cases hcut
      decide
    | [x], hcut =>
      cases hcut
      decide
    | x :: y :: before, hcut =>
      simp only [List.cons_append, List.cons.injEq] at hcut
      exact absurd hcut.2.2 (by simp)
  omega

/-- In one read the second request stays behind in the buffer. -/
theorem raw_filter_stalls :
    (∃ s, testCodec.rawReceive testRule ⟨⟨Buffer.new kInitialSize, true, []⟩, []⟩
        [testWire ++ testWire] = .ok (some s) ∧ s.codec.buffer.contents = testWire) ∧
      ¬ ∀ before, before <+: [testWire ++ testWire] → ∃ s,
        testCodec.rawReceive testRule ⟨⟨Buffer.new kInitialSize, true, []⟩, []⟩ before =
          .ok (some s) ∧ testCodec.Unstalled testRule testFrames before.flatten s := by
  have hrun : ((testCodec.rawReceive testRule ⟨⟨Buffer.new kInitialSize, true, []⟩, []⟩
      [testWire ++ testWire]).toOption.join.map fun s => (s.offered, s.codec.buffer.contents)) =
      some ([testWire], testWire) := by decide +kernel
  cases hs : testCodec.rawReceive testRule ⟨⟨Buffer.new kInitialSize, true, []⟩, []⟩
      [testWire ++ testWire] with
  | error e =>
    rw [hs] at hrun
    cases hrun
  | ok o =>
    rw [hs] at hrun
    cases o with
    | none => cases hrun
    | some s =>
      have hpair : (s.offered, s.codec.buffer.contents) = ([testWire], testWire) :=
        Option.some.inj hrun
      refine ⟨⟨s, rfl, congrArg Prod.snd hpair⟩, ?_⟩
      intro h
      obtain ⟨t, ht, hun⟩ := h [testWire ++ testWire] List.prefix_rfl
      cases hs.symm.trans ht
      have hoff : s.offered = [testWire] := congrArg Prod.fst hpair
      have hall := hun.offered
      rw [hoff] at hall
      revert hall
      decide

end ProtobufCodecLite

end TstMuduo.Net
