import TstMuduo.ShmQueue.Layout
import Mathlib.Data.Int.Range
import Mathlib.Data.List.Forall2

/-!
# Runs of the queue

Calls of `sq_put` and `sq_get` one at a time on a fresh queue. A message that `sq_get` reports as
too long leaves its start tokens behind; they are harmless until a put skips their nodes.
-/

namespace TstMuduo.ShmQueue
open TstMuduo.Lib SqHead

/-- The queue, the messages of the puts that succeeded, and what the gets returned, each with the
size of its buffer. -/
structure SqRun where
  q : SqHead
  accepted : List Bytes
  log : List (Int × Got)

namespace SqRun

inductive Act where
  | put (data : Bytes) (now : Timeval)
  | get (buf_sz : Int)

def step (s : SqRun) : Act → Except SqFault SqRun
  | .put data now => do
    let (ret, q) ← s.q.sqPut data now
    return { s with q := q, accepted := if ret = 0 then s.accepted ++ [data] else s.accepted }
  | .get buf_sz => do
    let (got, q) ← s.q.sqGet buf_sz
    return { s with q := q, log := s.log ++ [(buf_sz, got)] }

def machine (q : SqHead) : Machine SqRun Act SqFault where
  init := ⟨q, [], []⟩
  step s a := some (s.step a)

def outcomes (s : SqRun) : List (Int × Got) :=
  s.log.filter fun e => e.2.ret ≠ 0 ∧ e.2.ret ≠ -1

def Returned (e : Int × Got) (m : Bytes) : Prop :=
  e.2.ret = m.length ∧ e.2.buf = m ∧ m.length ≤ e.1

def TooLong (e : Int × Got) (m : Bytes) : Prop := e.2.ret = -2 ∧ e.1 < m.length

/-- The calls were about the accepted messages, one each and in their order. -/
def Settled (R : Int × Got → Bytes → Prop) (s : SqRun) : Prop :=
  List.Forall₂ R s.outcomes (s.accepted.take s.outcomes.length)

/-- The next `sq_get` returns, and it returns 0 exactly if no accepted message is left. -/
def Answers (s : SqRun) (buf_sz : Int) : Prop :=
  ∃ got q, s.q.sqGet buf_sz = .ok (got, q) ∧
    (got.ret = 0 ↔ s.outcomes.length = s.accepted.length)

/-- The nodes that a put is about to skip have no start token. -/
def SkipsNoToken (s : SqRun) : Act → Prop
  | .put data _ => s.q.head_pos ≤ s.q.tail_pos → need s.q.width data.length < s.q.head_pos →
      s.q.ele_count < s.q.tail_pos + need s.q.width data.length →
      ∀ i, s.q.tail_pos ≤ i → i ≤ s.q.ele_count → ¬ Token s.q.width s.q.nodes i
  | .get _ => True

/-- The buffer is large enough for the next message. -/
def LargeEnough (s : SqRun) : Act → Prop
  | .put _ _ => True
  | .get buf_sz => ∀ m ∈ s.accepted[s.outcomes.length]?, (m.length : Int) ≤ buf_sz

end SqRun

/-- The sizes that give nodes inside the segment and positions whose sums fit an `int`. -/
def SizesFit (ele_size ele_count : Int) : Prop := ele_size ≤ 2147483640 ∧ ele_count < 1073741824

namespace SqRun

/-- The messages that are neither returned nor reported lie in the queue. -/
structure Inv (R : Int × Got → Bytes → Prop) (s : SqRun) : Prop where
  sized : s.q.Sized
  head : s.q.Pos s.q.head_pos
  tail : s.q.Pos s.q.tail_pos
  messages : ∃ gone ms e, s.accepted = gone ++ ms ∧ List.Forall₂ R s.outcomes gone ∧
    Layout s.q.ele_count s.q.width s.q.nodes s.q.head_pos s.q.tail_pos e ms

def FreeCleared (s : SqRun) : Prop :=
  ∀ i, s.q.Pos i → ¬ Used s.q.head_pos s.q.tail_pos i → ¬ Token s.q.width s.q.nodes i

variable {R : Int × Got → Bytes → Prop} {s t : SqRun}

theorem sqPut_spec (hs : s.q.Sized) (hh : s.q.Pos s.q.head_pos) (ht : s.q.Pos s.q.tail_pos)
    (data : Bytes) (now : Timeval) :
    (∃ ret, s.q.sqPut data now = .ok (ret, s.q) ∧ ret ≠ 0) ∨
      ∃ idx new mem, s.q.sqPut data now = .ok (0, { s.q with tail_pos := new, nodes := mem }) ∧
        Planned s.q.ele_count s.q.head_pos s.q.tail_pos (need s.q.width data.length) idx new ∧
        Stored s.q.width mem idx data ∧
        ∀ a, a / s.q.width < idx ∨ idx + need s.q.width data.length ≤ a / s.q.width →
          mem a = s.q.nodes a := by
  by_cases hlen : 1 ≤ (data.length : Int) ∧ (data.length : Int) ≤ maxSqDataLength
  · have hput : s.q.sqPut data now = s.q.putPlan data.length >>= _ := if_neg (by omega)
    rcases putPlan_spec hs hh ht hlen with hplan | ⟨idx, new, hplan, hplanned⟩
    · exact .inl ⟨-2, by rw [hput, hplan]; rfl, by decide⟩
    · obtain ⟨hidx, hend, -⟩ := hplanned.free ht hh.2
      obtain ⟨mem, hwrite, hstored, hother⟩ := putWrite_spec hs now hidx hlen hend
      refine .inr ⟨idx, new, mem, ?_, hplanned, hstored, hother⟩
      rw [hput, hplan, ok_bind]
      simp only [hwrite, ok_bind]
      rfl
  · refine .inl ⟨-1, ?_, by decide⟩
    rw [sqPut, if_pos (by omega)]
    rfl

/-- One put. -/
theorem Inv.put (h : s.Inv R) (data : Bytes) (now : Timeval)
    (hskip : s.SkipsNoToken (.put data now)) :
    ∃ t, s.step (.put data now) = .ok t ∧ t.Inv R ∧ (s.FreeCleared → t.FreeCleared) := by
  obtain ⟨gone, ms, e, haccepted, houtcomes, hl⟩ := h.messages
  have hw := h.sized.width_pos
  rcases sqPut_spec h.sized h.head h.tail data now with
    ⟨ret, hput, hret⟩ | ⟨idx, new, mem, hput, hplanned, hstored, hother⟩
  · refine ⟨s, ?_, h, id⟩
    simp only [step, hput, ok_bind, if_neg hret]
    rfl
  · have hone := hstored.need_pos hw
    refine ⟨⟨{ s.q with tail_pos := new, nodes := mem }, s.accepted ++ [data], s.log⟩, ?_, ?_, ?_⟩
    · simp only [step, hput, ok_bind]
      rfl
    · refine ⟨⟨h.sized.size_ge, h.sized.size_le, h.sized.count_ge, h.sized.count_lt,
        h.sized.limit_ge⟩, h.head, hplanned.pos h.tail h.head.2 hone, gone, ms ++ [data],
        if new < s.q.tail_pos then s.q.tail_pos else e, ?_, houtcomes, ?_⟩
      · rw [haccepted, List.append_assoc]
      · have hl' := hl.write h.sized.width_ge hplanned hother h.head h.tail
        apply hl'.put hw hplanned hstored h.tail.2
        intro hlt i h1 h2 htoken
        unfold Planned at hplanned
        apply hskip (by omega) (by omega) (by omega) i h1 h2
        apply htoken.congr h.sized.width_ge
        intro a ha
        exact hother a (by rw [ha]; omega)
    · intro hfree i hi hunused htoken
      obtain ⟨hbefore, hnot⟩ := hplanned.unused hone hunused
      apply hfree i hi hbefore
      apply htoken.congr h.sized.width_ge
      intro a ha
      exact hother a (by rw [show a / s.q.width = i from ha]; exact hnot)

theorem outcomes_concat (s : SqRun) (q : SqHead) (e : Int × Got) :
    outcomes { s with q := q, log := s.log ++ [e] } =
      if e.2.ret ≠ 0 ∧ e.2.ret ≠ -1 then s.outcomes ++ [e] else s.outcomes := by
  rw [outcomes, outcomes, List.filter_append, List.filter_cons, List.filter_nil]
  split
  next he => rw [if_pos (of_decide_eq_true he)]
  next he => rw [if_neg (fun hp => he (decide_eq_true hp)), List.append_nil]

theorem front_eq {gone ms : List Bytes} (haccepted : s.accepted = gone ++ ms)
    (houtcomes : List.Forall₂ R s.outcomes gone) :
    s.accepted[s.outcomes.length]? = ms.head? := by
  rw [haccepted, houtcomes.length_eq, List.getElem?_append_right (Nat.le_refl _), Nat.sub_self,
    List.head?_eq_getElem?]

/-- One get: the next message is returned or reported as too long. -/
theorem Inv.get (h : s.Inv R) (buf_sz : Int)
    (hR : ∀ m ∈ s.accepted[s.outcomes.length]?, ∀ got : Got,
      (if buf_sz < m.length then got.ret = -2 else got.ret = m.length ∧ got.buf = m) →
      R (buf_sz, got) m) :
    ∃ t, s.step (.get buf_sz) = .ok t ∧ t.Inv R ∧
      ((∀ m ∈ s.accepted[s.outcomes.length]?, (m.length : Int) ≤ buf_sz) →
        s.FreeCleared → t.FreeCleared) := by
  obtain ⟨gone, ms, e, haccepted, houtcomes, hl⟩ := h.messages
  have hw := h.sized.width_pos
  have hkeep : ∀ got, ¬ (got.ret ≠ 0 ∧ got.ret ≠ -1) →
      Inv R { s with q := s.q, log := s.log ++ [(buf_sz, got)] } := by
    intro got hgot
    refine ⟨h.sized, h.head, h.tail, gone, ms, e, haccepted, ?_, hl⟩
    rw [outcomes_concat, if_neg hgot]
    exact houtcomes
  by_cases hbuf : buf_sz < 1
  · have hget : s.q.sqGet buf_sz = .ok (⟨-1, [], none⟩, s.q) := if_pos hbuf
    refine ⟨_, by simp only [step, hget, ok_bind]; rfl, hkeep _ (by decide), fun _ hf => hf⟩
  · cases ms with
    | nil =>
      have hget := sqGet_empty h.sized hl (show 1 ≤ buf_sz by omega)
      exact ⟨_, by simp only [step, hget, ok_bind]; rfl, hkeep _ (by decide), fun _ hf => hf⟩
    | cons m ms =>
      have hfront : s.accepted[s.outcomes.length]? = some m := front_eq haccepted houtcomes
      obtain ⟨new, mem, time, hget, hadv, hrest, hcleared, hkept⟩ :=
        sqGet_front h.sized h.head h.tail hl (show 1 ≤ buf_sz by omega)
      have hlen : 1 ≤ (m.length : Int) := by
        rcases hl.front hw h.head.1 h.tail with hf | ⟨-, -, -, hf⟩
        · exact hf.stored.nonempty
        · exact hf.stored.nonempty
      refine ⟨_, by simp only [step, hget, ok_bind]; rfl, ?_, ?_⟩
      · refine ⟨⟨h.sized.size_ge, h.sized.size_le, h.sized.count_ge, h.sized.count_lt,
          h.sized.limit_ge⟩, hadv.pos h.head.1 h.tail.2, h.tail, gone ++ [m], ms, e, ?_, ?_, hrest⟩
        · rw [List.append_assoc]
          exact haccepted
        · have hret : (if buf_sz < m.length then (⟨-2, [], some time⟩ : Got)
              else ⟨m.length, m, some time⟩).ret ≠ 0 ∧ (if buf_sz < m.length then
                (⟨-2, [], some time⟩ : Got) else ⟨m.length, m, some time⟩).ret ≠ -1 := by
            split
            · exact ⟨show (-2 : Int) ≠ 0 by decide, show (-2 : Int) ≠ -1 by decide⟩
            · exact ⟨by dsimp only; omega, by dsimp only; omega⟩
          rw [outcomes_concat, if_pos hret]
          apply List.rel_append houtcomes
          refine .cons ?_ .nil
          apply hR m hfront
          split
          · rfl
          · exact ⟨rfl, rfl⟩
      · intro hlarge hfree i hi hunused htoken
        have hlong : ¬ buf_sz < m.length := by
          have := hlarge m hfront
          omega
        by_cases hread : Used s.q.head_pos new i
        · exact hcleared hlong i hi hread htoken
        · have hbefore : ¬ Used s.q.head_pos s.q.tail_pos i :=
            (hadv.free hunused).resolve_left hread
          apply hfree i hi hbefore
          apply htoken.congr h.sized.width_ge
          intro a ha
          have hblock : a / s.q.width = i := ha
          exact hkept a (by rw [hblock]; exact hi) (by rw [hblock]; exact hread)

theorem sqCreate_sized {ele_size ele_count : Int} {q : SqHead}
    (hq : sqCreate ele_size ele_count = some q) (hfit : SizesFit ele_size ele_count) :
    q.Sized ∧ q.head_pos = 0 ∧ q.tail_pos = 0 ∧ q.ele_count = ele_count ∧ q.nodes = fun _ => 0 := by
  obtain ⟨hsize, hcount⟩ := hfit
  unfold sqCreate at hq
  split at hq
  · cases hq
  next hpos =>
    have haligned : castInt32 ((ele_size + 7) / 8 * 8) = (ele_size + 7) / 8 * 8 :=
      castInt32_ok (by omega)
    cases hq
    refine ⟨⟨?_, ?_, ?_, hcount, ?_⟩, rfl, rfl, rfl, rfl⟩
    · rw [haligned]
      dsimp only
      omega
    · rw [haligned]
      dsimp only
      omega
    · dsimp only
      omega
    · rw [haligned]
      simp only [sizeofHead, sizeofNodeHead]
      rw [Int.mul_comm]
      omega

theorem not_token_zero (w p : Int) : ¬ Token w (fun _ => 0) p := by
  intro htoken
  have hslice : slice (fun _ => 0) (p * w) 4 = [0, 0, 0, 0] := rfl
  rw [Token, hslice] at htoken
  exact absurd htoken (by decide)

theorem inv_init {ele_size ele_count : Int} {q : SqHead}
    (hq : sqCreate ele_size ele_count = some q) (hfit : SizesFit ele_size ele_count) :
    Inv R ⟨q, [], []⟩ ∧ FreeCleared ⟨q, [], []⟩ := by
  obtain ⟨hs, hhead, htail, -, hnodes⟩ := sqCreate_sized hq hfit
  have hcount := hs.count_ge
  have hpos : q.Pos 0 := ⟨Int.le_refl 0, by omega⟩
  constructor
  · exact ⟨hs, by rw [hhead]; exact hpos, by rw [htail]; exact hpos, [], [], 0, rfl, .nil,
      .inl ⟨by rw [hhead, htail], by rw [hhead, htail]; rfl⟩⟩
  · intro i _ _
    rw [hnodes]
    exact not_token_zero _ i

/-- The calls so far are settled, and the next one answers. -/
theorem Inv.settled (h : s.Inv R) : s.Settled R ∧ ∀ buf_sz, 1 ≤ buf_sz → s.Answers buf_sz := by
  obtain ⟨gone, ms, e, haccepted, houtcomes, hl⟩ := h.messages
  have hlen := houtcomes.length_eq
  have hsum : s.accepted.length = gone.length + ms.length := by
    rw [haccepted, List.length_append]
  constructor
  · rw [Settled, haccepted, hlen, List.take_left']
    · exact houtcomes
    · rfl
  · intro buf_sz hbuf
    cases ms with
    | nil =>
      refine ⟨_, _, sqGet_empty h.sized hl hbuf, ?_⟩
      rw [hlen, hsum]
      exact ⟨fun _ => rfl, fun _ => rfl⟩
    | cons m ms =>
      obtain ⟨new, mem, time, hget, -⟩ := sqGet_front h.sized h.head h.tail hl hbuf
      have hpos : 1 ≤ (m.length : Int) := by
        rcases hl.front h.sized.width_pos h.head.1 h.tail with hf | ⟨-, -, -, hf⟩
        · exact hf.stored.nonempty
        · exact hf.stored.nonempty
      refine ⟨_, _, hget, ?_⟩
      rw [List.length_cons] at hsum
      constructor
      · intro hret
        exfalso
        split at hret
        · cases hret
        · dsimp only at hret
          omega
      · intro heq
        omega

/-- Every accepted message is returned by one `sq_get` or reported as too long by one, in the order
of the puts, as long as no put skips a node with a start token. -/
theorem sq_messages_settled (ele_size ele_count : Int) (q : SqHead)
    (hq : sqCreate ele_size ele_count = some q) (hfit : SizesFit ele_size ele_count)
    (acts : List Act) (hskip : (machine q).Along SkipsNoToken (machine q).init acts) :
    ∃ s, (machine q).run (machine q).init acts = some (.ok s) ∧
      s.Settled (fun e m => Returned e m ∨ TooLong e m) ∧
      ∀ buf_sz, 1 ≤ buf_sz → s.Answers buf_sz := by
  have hstep : ∀ s a, Inv (fun e m => Returned e m ∨ TooLong e m) s → SkipsNoToken s a →
      ∃ t, (machine q).step s a = some (.ok t) ∧
        Inv (fun e m => Returned e m ∨ TooLong e m) t := by
    intro s a hinv hs
    cases a with
    | put data now =>
      obtain ⟨t, ht, hinv', -⟩ := hinv.put data now hs
      exact ⟨t, congrArg some ht, hinv'⟩
    | get buf_sz =>
      obtain ⟨t, ht, hinv', -⟩ := hinv.get buf_sz (by
        intro m _ got hgot
        split at hgot
        next hlong => exact .inr ⟨hgot, hlong⟩
        next hlong => exact .inl ⟨hgot.1, hgot.2, by dsimp only; omega⟩)
      exact ⟨t, congrArg some ht, hinv'⟩
  obtain ⟨s, hrun, hinv⟩ := Machine.run_good hstep (inv_init hq hfit).1 hskip
  exact ⟨s, hrun, hinv.settled⟩

/-- With buffers that are large enough the queue is a FIFO: no put ever skips a node with a start
token. -/
theorem sq_fifo (ele_size ele_count : Int) (q : SqHead)
    (hq : sqCreate ele_size ele_count = some q) (hfit : SizesFit ele_size ele_count)
    (acts : List Act) (hlarge : (machine q).Along LargeEnough (machine q).init acts) :
    ∃ s, (machine q).run (machine q).init acts = some (.ok s) ∧ s.Settled Returned ∧
      ∀ buf_sz, 1 ≤ buf_sz → s.Answers buf_sz := by
  have hstep : ∀ s a, Inv Returned s ∧ FreeCleared s → LargeEnough s a →
      ∃ t, (machine q).step s a = some (.ok t) ∧ Inv Returned t ∧ FreeCleared t := by
    intro s a hinv hs
    cases a with
    | put data now =>
      obtain ⟨t, ht, hinv', hfree⟩ := hinv.1.put data now (by
        intro hle hroom hend i h1 h2
        apply hinv.2 i ⟨by have := hinv.1.tail.1; omega, h2⟩
        rw [Used, if_pos hle]
        omega)
      exact ⟨t, congrArg some ht, hinv', hfree hinv.2⟩
    | get buf_sz =>
      obtain ⟨t, ht, hinv', hfree⟩ := hinv.1.get buf_sz (by
        intro m hm got hgot
        have hle := hs m hm
        rw [if_neg (by omega)] at hgot
        exact ⟨hgot.1, hgot.2, hle⟩)
      exact ⟨t, congrArg some ht, hinv', hfree hs hinv.2⟩
  obtain ⟨s, hrun, hinv⟩ := Machine.run_good hstep (inv_init hq hfit) hlarge
  exact ⟨s, hrun, hinv.1.settled⟩

/-! ### Small and large queues -/

instance (s : SqRun) (a : Act) : Decidable (s.LargeEnough a) :=
  match a with
  | .put _ _ => inferInstanceAs (Decidable True)
  | .get buf_sz => inferInstanceAs (Decidable
      (∀ m ∈ s.accepted[s.outcomes.length]?, (m.length : Int) ≤ buf_sz))

instance (w : Int) (mem : Int → UInt8) (p : Int) : Decidable (Token w mem p) :=
  inferInstanceAs (Decidable (_ = _))

instance (s : SqRun) (a : Act) : Decidable (s.SkipsNoToken a) :=
  match a with
  | .put data _ => inferInstanceAs (Decidable
      (s.q.head_pos ≤ s.q.tail_pos → need s.q.width data.length < s.q.head_pos →
        s.q.ele_count < s.q.tail_pos + need s.q.width data.length →
        ∀ i, s.q.tail_pos ≤ i → i ≤ s.q.ele_count → ¬ Token s.q.width s.q.nodes i))
  | .get _ => inferInstanceAs (Decidable True)

instance (e : Int × Got) (m : Bytes) : Decidable (Returned e m) :=
  inferInstanceAs (Decidable (_ ∧ _))

instance (e : Int × Got) (m : Bytes) : Decidable (TooLong e m) :=
  inferInstanceAs (Decidable (_ ∧ _))

instance (R : Int × Got → Bytes → Prop) [∀ e m, Decidable (R e m)] (s : SqRun) :
    Decidable (s.Settled R) := inferInstanceAs (Decidable (List.Forall₂ _ _ _))

/- Five nodes of 32 bytes. -/
def smallQueue : SqHead where
  ele_size := 8
  ele_count := 4
  head_pos := 0
  tail_pos := 0
  limit := 4194008
  nodes := fun _ => 0

theorem sqCreate_small : sqCreate 8 4 = some smallQueue := rfl

def epoch : Timeval := ⟨List.replicate 16 0, rfl⟩

def shortMsg (b : UInt8) : Bytes := List.replicate 8 b

/- A message of two nodes whose second node begins with the start token. -/
def longMsg : Bytes := List.replicate 8 7 ++ leBytes 4 startToken

/- The last put wraps around the end of the ring. -/
def wrapActs : List Act :=
  [.put (shortMsg 1) epoch, .put longMsg epoch, .get 8, .get 12, .put longMsg epoch, .get 12]

theorem sq_fifo_wrap :
    ∃ s, (machine smallQueue).run (machine smallQueue).init wrapActs = some (.ok s) ∧
      s.Settled Returned ∧ s.outcomes.length = 3 := by
  obtain ⟨s, hs, hsettled, -⟩ :=
    sq_fifo 8 4 smallQueue sqCreate_small ⟨by decide, by decide⟩ wrapActs
    (by decide +kernel)
  have hrun : (machine smallQueue).runsTo (machine smallQueue).init wrapActs
      (fun t => decide (t.outcomes.length = 3)) = true := by decide +kernel
  obtain ⟨t, ht, hthree⟩ := Machine.exists_of_runsTo hrun
  cases hs.symm.trans ht
  exact ⟨s, hs, hsettled, of_decide_eq_true hthree⟩

/- The size of an element is rounded up to 2 ^ 31, which is negative as an `int`. -/
def largeQueue : SqHead where
  ele_size := -2147483648
  ele_count := 2
  head_pos := 0
  tail_pos := 0
  limit := 6446644952
  nodes := fun _ => 0

/-- Node 1 of the largest elements lies outside of the segment. -/
theorem sq_fifo_large :
    sqCreate 2147483647 2 = some largeQueue ∧
      (machine largeQueue).Along LargeEnough (machine largeQueue).init
        [.put [1] epoch, .get 1, .put [2] epoch] ∧
      (machine largeQueue).run (machine largeQueue).init
        [.put [1] epoch, .get 1, .put [2] epoch] = some (.error .outOfBounds) := by
  refine ⟨rfl, by decide +kernel, ?_⟩
  exact Machine.run_of_failsWith (by decide +kernel)

/- A message that is too long for its buffer, two behind it, and one that goes back to node 0
and skips the last node. -/
def rejectActs : List Act :=
  [.put longMsg epoch, .put (shortMsg 2) epoch, .get 11, .get 8, .put (shortMsg 3) epoch, .get 8,
    .put longMsg epoch, .get 12]

theorem sq_messages_settled_reject :
    ∃ s, (machine smallQueue).run (machine smallQueue).init rejectActs = some (.ok s) ∧
      s.Settled (fun e m => Returned e m ∨ TooLong e m) ∧
      s.outcomes.map (·.2.ret) = [-2, 8, 8, 12] ∧ s.q.tail_pos = 2 := by
  obtain ⟨s, hs, hsettled, -⟩ := sq_messages_settled 8 4 smallQueue sqCreate_small
    ⟨by decide, by decide⟩ rejectActs (by decide +kernel)
  have hrun : (machine smallQueue).runsTo (machine smallQueue).init rejectActs
      (fun t => decide (t.outcomes.map (·.2.ret) = [-2, 8, 8, 12] ∧ t.q.tail_pos = 2)) = true := by
    decide +kernel
  obtain ⟨t, ht, hfacts⟩ := Machine.exists_of_runsTo hrun
  cases hs.symm.trans ht
  exact ⟨s, hs, hsettled, of_decide_eq_true hfacts⟩

/- The fourth message is reported as too long; its node is skipped a revolution later. -/
def staleActs : List Act :=
  [.put (shortMsg 1) epoch, .put (shortMsg 2) epoch, .put (shortMsg 3) epoch,
    .put (shortMsg 4) epoch, .get 8, .get 8, .get 8, .get 7,
    .put (shortMsg 5) epoch, .get 8, .put (shortMsg 6) epoch, .get 8,
    .put (shortMsg 7) epoch, .get 8, .put longMsg epoch, .get 12]

/-- The message that was reported as too long is returned in place of the next one. -/
theorem sq_stale_token :
    ∃ s, (machine smallQueue).run (machine smallQueue).init staleActs = some (.ok s) ∧
      s.outcomes.map (·.2.ret) = [8, 8, 8, -2, 8, 8, 8, 8] ∧
      s.outcomes.getLast?.map (·.2.buf) = some (shortMsg 4) ∧
      ¬ s.Settled (fun e m => Returned e m ∨ TooLong e m) := by
  have hrun : (machine smallQueue).runsTo (machine smallQueue).init staleActs
      (fun t => decide (t.outcomes.map (·.2.ret) = [8, 8, 8, -2, 8, 8, 8, 8] ∧
        t.outcomes.getLast?.map (·.2.buf) = some (shortMsg 4) ∧
        ¬ t.Settled (fun e m => Returned e m ∨ TooLong e m))) = true := by decide +kernel
  obtain ⟨s, hs, hfacts⟩ := Machine.exists_of_runsTo hrun
  exact ⟨s, hs, of_decide_eq_true hfacts⟩

end SqRun

end TstMuduo.ShmQueue
