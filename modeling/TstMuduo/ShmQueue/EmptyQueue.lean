import TstMuduo.ShmQueue.Fifo

/-!
# Putting into an empty queue

Whatever the gets have made of the tokens, head and tail stay in the ring. Where an empty queue has
its head decides which messages it takes: one that does not fit behind the tail has to fit before
the head, and no get moves the head of an empty queue.
-/

namespace TstMuduo.ShmQueue
open TstMuduo.Lib SqHead

/-- The sizes and positions of a queue, whatever its nodes hold. -/
structure InRing (q : SqHead) : Prop where
  sized : q.Sized
  head : q.Pos q.head_pos
  tail : q.Pos q.tail_pos

variable {q t : SqHead} {p : Int}

theorem numNeededNodes_pos (hs : q.Sized) {datalen : Int} (h : 0 ≤ datalen ∧ datalen < 2147483648) :
    0 ≤ q.numNeededNodes datalen := by
  have hge := hs.size_ge
  have hle := hs.size_le
  have hwidth : 32 ≤ q.width ∧ q.width ≤ 2147483664 := by
    unfold width
    omega
  have hmod : (datalen + sizeofNodeHead + q.width - 1) % 18446744073709551616 =
      datalen + 24 + q.width - 1 := by
    unfold sizeofNodeHead
    exact Int.emod_eq_of_lt (by omega) (by omega)
  have hlow : 0 ≤ (datalen + 24 + q.width - 1) / q.width :=
    Int.ediv_nonneg (by omega) (by omega)
  have hhigh : (datalen + 24 + q.width - 1) / q.width ≤ 2147483647 := by
    apply Int.lt_add_one_iff.mp
    rw [Int.ediv_lt_iff_lt_mul (by omega)]
    nlinarith
  rw [numNeededNodes, hs.nodeSize_eq, hmod, castInt32_ok (by omega)]
  exact hlow

theorem castInt32_lt (x : Int) : castInt32 x < 2147483648 := by
  unfold castInt32
  omega

/-- Where a scan ends is in the ring, unless the length of the message that it found is negative. -/
def ScanInRing (q : SqHead) : Scan → Prop
  | .atTail head => head = q.tail_pos
  | .found head datalen new_head => q.Pos head ∧ (0 ≤ datalen → q.Pos new_head)

theorem scan_in_ring (hs : q.Sized) (ht : q.Pos q.tail_pos) {fuel : Nat} (hp : q.Pos p) {r : Scan}
    (h : q.scan fuel p = .ok r) : ScanInRing q r := by
  have hone : 0 ≤ (1 : Int) ∧ 1 ≤ q.ele_count := ⟨by decide, hs.count_ge⟩
  induction fuel generalizing p with
  | zero => cases h
  | succ fuel ih =>
    have hnext : q.addPos p 1 = .ok (if p + 1 ≤ q.ele_count then p + 1 else 0) ∧
        q.Pos (if p + 1 ≤ q.ele_count then p + 1 else 0) := by
      have hcount := hs.count_ge
      obtain ⟨h0, h1⟩ := hp
      rw [hs.addPos_eq ⟨h0, h1⟩ hone]
      unfold Pos
      by_cases hle : p + 1 ≤ q.ele_count
      · rw [if_pos hle, if_pos hle]
        exact ⟨rfl, by omega, hle⟩
      · rw [if_neg hle, if_neg hle]
        exact ⟨congrArg Except.ok (by omega), Int.le_refl 0, by omega⟩
    rw [scan] at h
    by_cases htail : q.tail_pos = p
    · rw [if_pos htail] at h
      cases h
      exact htail.symm
    · rw [if_neg htail, hs.nodePtr_eq hp, ok_bind] at h
      obtain ⟨token, -, h⟩ := bind_eq_ok h
      by_cases htoken : token ≠ startToken
      · rw [if_pos htoken, hnext.1, ok_bind] at h
        exact ih hnext.2 h
      · rw [if_neg htoken] at h
        obtain ⟨len, -, h⟩ := bind_eq_ok h
        dsimp only at h
        obtain ⟨used, hused, h⟩ := bind_eq_ok h
        by_cases hfew : used < q.numNeededNodes (castInt32 len)
        · rw [if_pos hfew, hnext.1, ok_bind] at h
          exact ih hnext.2 h
        · rw [if_neg hfew] at h
          obtain ⟨new, hnew, h⟩ := bind_eq_ok h
          cases h
          refine ⟨hp, fun h0 => ?_⟩
          have hnr := numNeededNodes_pos hs ⟨h0, castInt32_lt len⟩
          have hle : used ≤ q.ele_count := by
            rw [hs.usedNodes2_eq hp ht] at hused
            have hval := Except.ok.inj hused
            obtain ⟨hp0, -⟩ := hp
            obtain ⟨-, ht1⟩ := ht
            split_ifs at hval <;> omega
          rw [hs.addPos_eq hp ⟨hnr, by omega⟩] at hnew
          have hval := Except.ok.inj hnew
          obtain ⟨hp0, hp1⟩ := hp
          unfold Pos
          split_ifs at hval <;> omega

theorem write_fields {off : Int} {bytes : Bytes} (h : q.write off bytes = .ok t) :
    ∃ mem, t = { q with nodes := mem } := by
  unfold SqHead.write at h
  split at h
  · cases h
    exact ⟨_, rfl⟩
  · cases h

theorem clearTokens_fields {fuel : Nat} {old new : Int} (h : q.clearTokens fuel old new = .ok t) :
    ∃ mem, t = { q with nodes := mem } := by
  induction fuel generalizing q old with
  | zero => cases h
  | succ fuel ih =>
    rw [clearTokens] at h
    by_cases heq : old = new
    · rw [if_pos heq] at h
      cases h
      exact ⟨_, rfl⟩
    · rw [if_neg heq] at h
      obtain ⟨u, hu, h⟩ := bind_eq_ok h
      obtain ⟨node, -, hu⟩ := bind_eq_ok hu
      obtain ⟨mem, rfl⟩ := write_fields hu
      obtain ⟨next, -, h⟩ := bind_eq_ok h
      obtain ⟨mem', ht⟩ := ih h
      exact ⟨mem', ht⟩

theorem InRing.moved (h : InRing q) {head : Int} (hhead : q.Pos head) (mem : Int → UInt8) :
    InRing { q with head_pos := head, nodes := mem } where
  sized := ⟨h.sized.size_ge, h.sized.size_le, h.sized.count_ge, h.sized.count_lt, h.sized.limit_ge⟩
  head := hhead
  tail := h.tail

/-- A get that returns leaves the head in the ring. -/
theorem InRing.get (h : InRing q) {buf_sz : Int} {got : Got}
    (hget : q.sqGet buf_sz = .ok (got, t)) :
    InRing t := by
  unfold sqGet at hget
  by_cases hbuf : buf_sz < 1
  · rw [if_pos hbuf] at hget
    cases hget
    exact h
  rw [if_neg hbuf, getLoop] at hget
  obtain ⟨r, hscan, hget⟩ := bind_eq_ok hget
  have hr := scan_in_ring h.sized h.tail h.head hscan
  cases r with
  | atTail head =>
    dsimp only at hget
    by_cases hmoved : head ≠ q.head_pos
    · rw [if_pos hmoved, cas, if_pos rfl] at hget
      obtain ⟨u, hu, hget⟩ := bind_eq_ok hget
      cases hget
      obtain ⟨mem, rfl⟩ := clearTokens_fields hu
      have hhead : head = q.tail_pos := hr
      exact h.moved (hhead ▸ h.tail) mem
    · rw [if_neg hmoved] at hget
      cases hget
      exact h
  | found head datalen new_head =>
    dsimp only at hget
    rw [cas, if_pos rfl] at hget
    obtain ⟨node, -, hget⟩ := bind_eq_ok hget
    obtain ⟨time, -, hget⟩ := bind_eq_ok hget
    by_cases hlong : datalen > buf_sz
    · rw [if_pos hlong] at hget
      cases hget
      exact h.moved (hr.2 (by omega)) q.nodes
    · rw [if_neg hlong] at hget
      obtain ⟨data, hdata, hget⟩ := bind_eq_ok hget
      obtain ⟨u, hu, hget⟩ := bind_eq_ok hget
      cases hget
      obtain ⟨mem, rfl⟩ := clearTokens_fields hu
      have h0 : 0 ≤ datalen := by
        by_contra hneg
        rw [SqHead.read, if_neg fun hle => hneg hle.1] at hdata
        cases hdata
      exact h.moved (hr.2 h0) mem

theorem InRing.put (h : InRing q) {data : Bytes} {now : Timeval} {ret : Int}
    (hput : q.sqPut data now = .ok (ret, t)) : InRing t := by
  rcases SqRun.sqPut_spec (s := ⟨q, [], []⟩) h.sized h.head h.tail data now with
    ⟨ret', hput', -⟩ | ⟨idx, new, mem, hput', hplanned, hstored, -⟩
  · cases hput.symm.trans hput'
    exact h
  · cases hput.symm.trans hput'
    have hone := hstored.need_pos h.sized.width_pos
    exact {
      sized := ⟨h.sized.size_ge, h.sized.size_le, h.sized.count_ge, h.sized.count_lt,
        h.sized.limit_ge⟩
      head := h.head
      tail := hplanned.pos h.tail h.head.2 hone }

/-- An empty queue takes a message behind its tail or before its head, or refuses it. -/
theorem sqPut_empty (h : InRing q) (hempty : q.head_pos = q.tail_pos) {data : Bytes}
    (now : Timeval) (hlen : 1 ≤ (data.length : Int) ∧ (data.length : Int) ≤ maxSqDataLength)
    (hneed : q.numNeededNodes data.length ≤ q.ele_count) :
    (q.tail_pos + q.numNeededNodes data.length ≤ q.ele_count ∨
        q.numNeededNodes data.length < q.head_pos → ∃ t, q.sqPut data now = .ok (0, t)) ∧
    (¬ (q.tail_pos + q.numNeededNodes data.length ≤ q.ele_count ∨
        q.numNeededNodes data.length < q.head_pos) → q.sqPut data now = .ok (-2, q)) := by
  have hs := h.sized
  have hone := (need_fits hs.width_pos hlen.1).1
  obtain ⟨h0, h1⟩ := h.tail
  have hcount := hs.count_lt
  rw [hs.numNeededNodes_eq hlen] at hneed ⊢
  have hplan : q.putPlan data.length = .ok
      (if q.tail_pos + need q.width data.length ≤ q.ele_count then
        some (q.tail_pos, q.tail_pos + need q.width data.length)
      else if need q.width data.length < q.head_pos then some (0, need q.width data.length)
      else none) := by
    have hfree : q.emptyNodes2 q.head_pos = .ok q.ele_count := by
      rw [hs.emptyNodes2_eq h.head h.tail, if_pos (by omega)]
      exact congrArg Except.ok (by omega)
    simp only [putPlan, hs.numNeededNodes_eq hlen, hfree, ok_bind]
    rw [if_neg (by omega), hs.nodePtr_eq h.tail, ok_bind, hs.addPos_eq h.tail (by omega), ok_bind]
    by_cases hend : q.tail_pos + need q.width data.length ≤ q.ele_count
    · rw [if_pos hend, if_pos hend, if_neg (by omega)]
      rfl
    · rw [if_neg hend, if_neg hend, if_pos (by omega), int_bind (by omega)]
      by_cases hroom : need q.width data.length < q.head_pos
      · rw [if_neg (by omega), if_pos hroom]
        rfl
      · rw [if_pos (by omega), if_neg hroom]
        rfl
  have hwrite : ∀ idx new, 0 ≤ idx → idx + need q.width data.length ≤ q.ele_count →
      q.putPlan data.length = .ok (some (idx, new)) → ∃ t, q.sqPut data now = .ok (0, t) := by
    intro idx new hidx hend hplan
    obtain ⟨mem, hmem, -⟩ := putWrite_spec hs now hidx hlen hend
    rw [sqPut, if_neg (by omega), hplan, ok_bind]
    simp only [hmem, ok_bind]
    exact ⟨_, rfl⟩
  constructor
  · intro hroom
    by_cases hend : q.tail_pos + need q.width data.length ≤ q.ele_count
    · rw [if_pos hend] at hplan
      exact hwrite _ _ h0 hend hplan
    · have hbefore := hroom.resolve_left hend
      rw [if_neg hend, if_pos hbefore] at hplan
      exact hwrite _ _ (Int.le_refl 0) (by omega) hplan
  · intro hnone
    rw [if_neg fun hend => hnone (.inl hend), if_neg fun hroom => hnone (.inr hroom)] at hplan
    rw [sqPut, if_neg (by omega), hplan]
    rfl

theorem sqGet_keeps_empty (h : InRing q) (hempty : q.head_pos = q.tail_pos) (buf_sz : Int) :
    ∃ got, q.sqGet buf_sz = .ok (got, q) := by
  by_cases hbuf : 1 ≤ buf_sz
  · exact ⟨_, sqGet_empty (e := 0) h.sized (.inl ⟨Int.le_of_eq hempty, hempty⟩) hbuf⟩
  · exact ⟨_, if_pos (by omega)⟩

namespace SqRun

theorem inRing_step {s t : SqRun} (h : InRing s.q) {a : Act} (hstep : s.step a = .ok t) :
    InRing t.q := by
  cases a with
  | put data now =>
    obtain ⟨⟨ret, q⟩, hput, hstep⟩ := bind_eq_ok hstep
    cases hstep
    exact h.put hput
  | get buf_sz =>
    obtain ⟨⟨got, q⟩, hget, hstep⟩ := bind_eq_ok hstep
    cases hstep
    exact h.get hget

theorem inRing_run {ele_size ele_count : Int} {q : SqHead}
    (hq : sqCreate ele_size ele_count = some q) (hfit : SizesFit ele_size ele_count)
    {acts : List Act} {s : SqRun}
    (hrun : (machine q).run (machine q).init acts = some (.ok s)) : InRing s.q := by
  obtain ⟨hs, hhead, htail, -⟩ := sqCreate_sized hq hfit
  have hcount := hs.count_ge
  have hpos : q.Pos 0 := ⟨Int.le_refl 0, by omega⟩
  have hinit : InRing (machine q).init.q := ⟨hs, hhead ▸ hpos, htail ▸ hpos⟩
  apply Machine.run_inv_all (P := fun s => InRing s.q) ?_ hinit hrun
  intro s a t h hstep
  exact inRing_step h (Option.some.inj hstep)

/-- An empty queue takes a message exactly if it fits behind the tail or before the head; and if it
does not, it refuses the message after every get as well. -/
theorem sq_put_empty_iff {ele_size ele_count : Int} {q : SqHead}
    (hq : sqCreate ele_size ele_count = some q) (hfit : SizesFit ele_size ele_count)
    (acts : List Act) {s : SqRun} (hrun : (machine q).run (machine q).init acts = some (.ok s))
    (hempty : s.q.head_pos = s.q.tail_pos) {data : Bytes} (now : Timeval)
    (hlen : 1 ≤ (data.length : Int) ∧ (data.length : Int) ≤ maxSqDataLength)
    (hneed : s.q.numNeededNodes data.length ≤ s.q.ele_count) :
    ((∃ t, s.q.sqPut data now = .ok (0, t)) ↔
      s.q.tail_pos + s.q.numNeededNodes data.length ≤ s.q.ele_count ∨
        s.q.numNeededNodes data.length < s.q.head_pos) ∧
    ∀ buf_sz, ∃ got, s.q.sqGet buf_sz = .ok (got, s.q) := by
  have h := inRing_run hq hfit hrun
  obtain ⟨htakes, hrefuses⟩ := sqPut_empty h hempty now hlen hneed
  refine ⟨⟨fun ⟨t, ht⟩ => ?_, htakes⟩, sqGet_keeps_empty h hempty⟩
  by_contra hnone
  cases ht.symm.trans (hrefuses hnone)

/- Two messages of one node were put and got; head and tail are at node 2. -/
def twoActs : List Act :=
  [.put (shortMsg 1) epoch, .get 8, .put (shortMsg 2) epoch, .get 8]

/- A message of three nodes. -/
def threeNodes : Bytes := List.replicate 72 7

theorem sq_put_empty_iff_two :
    ∃ s, (machine smallQueue).run (machine smallQueue).init twoActs = some (.ok s) ∧
      ((∃ t, s.q.sqPut longMsg epoch = .ok (0, t)) ↔
        s.q.tail_pos + s.q.numNeededNodes longMsg.length ≤ s.q.ele_count ∨
          s.q.numNeededNodes longMsg.length < s.q.head_pos) := by
  have hrun : (machine smallQueue).runsTo (machine smallQueue).init twoActs (fun s =>
      decide (s.q.head_pos = s.q.tail_pos ∧ s.q.numNeededNodes longMsg.length ≤ s.q.ele_count)) =
      true := by decide +kernel
  obtain ⟨s, hs, hfacts⟩ := Machine.exists_of_runsTo hrun
  obtain ⟨hempty, hneed⟩ := of_decide_eq_true hfacts
  exact ⟨s, hs, (sq_put_empty_iff sqCreate_small ⟨by decide, by decide⟩ twoActs hs hempty epoch
    (by decide) hneed).1⟩

/-- The queue is empty, and refuses three of its five nodes. -/
theorem sq_put_empty_refused :
    ∃ s, (machine smallQueue).run (machine smallQueue).init twoActs = some (.ok s) ∧
      s.q.head_pos = s.q.tail_pos ∧ s.q.numNeededNodes threeNodes.length = 3 ∧
      s.q.ele_count = 4 ∧ (s.q.sqPut threeNodes epoch).map Prod.fst = .ok (-2) := by
  have hrun : (machine smallQueue).runsTo (machine smallQueue).init twoActs (fun s =>
      decide (s.q.head_pos = s.q.tail_pos ∧ s.q.numNeededNodes threeNodes.length = 3 ∧
        s.q.ele_count = 4 ∧ (s.q.sqPut threeNodes epoch).map Prod.fst = .ok (-2))) = true := by
    decide +kernel
  obtain ⟨s, hs, hfacts⟩ := Machine.exists_of_runsTo hrun
  exact ⟨s, hs, of_decide_eq_true hfacts⟩

end SqRun

end TstMuduo.ShmQueue
