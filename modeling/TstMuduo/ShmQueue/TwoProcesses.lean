import TstMuduo.ShmQueue.Fifo

/-!
# A writer and a reader

One process puts and another one gets, and the steps of the two calls are interleaved. The reader
stores `head_pos` before it copies the message and clears the tokens, so the writer may take nodes
that the reader is not done with.
-/

namespace TstMuduo.ShmQueue
open TstMuduo.Lib SqHead SqRun

/-- Where the writer is in `sq_put`: outside, with the nodes for its message, or with the message
in them and `tail_pos` not stored. -/
inductive Writer where
  | idle
  | planned (data : Bytes) (idx new_tail : Int)
  | written (data : Bytes) (idx new_tail : Int)

/-- Where the reader is in `sq_get`: outside, before the scan, before a `CAS32`, before the copy,
or in the loop that clears the tokens. -/
inductive Reader where
  | idle
  | looping (buf_sz : Int)
  | atTail (buf_sz old_head head : Int)
  | found (buf_sz old_head head datalen new_head : Int)
  | taken (buf_sz old_head head datalen new_head : Int)
  | clearing (buf_sz old_head new_head : Int) (got : Got)

structure SqPair extends SqRun where
  writer : Writer
  reader : Reader

namespace SqPair

inductive Act where
  | plan (data : Bytes)
  | write (now : Timeval)
  | storeTail
  | get (buf_sz : Int)
  | scan
  | cas
  | copy
  | clear

def returns (s : SqPair) (buf_sz : Int) (got : Got) : SqPair :=
  { s with log := s.log ++ [(buf_sz, got)], reader := .idle }

/- `sq_put` up to the message (`shm_queue.cpp:403` to `435`). -/
def plan (s : SqPair) (data : Bytes) : Except SqFault SqPair := do
  if (data.length : Int) ≤ 0 ∨ (data.length : Int) > maxSqDataLength then return s
  match ← s.q.putPlan data.length with
  | none => return s
  | some (idx, new_tail) => return { s with writer := .planned data idx new_tail }

def write (s : SqPair) (data : Bytes) (idx new_tail : Int) (now : Timeval) :
    Except SqFault SqPair := do
  return { s with q := ← s.q.putWrite idx data now, writer := .written data idx new_tail }

/- The message is accepted (`shm_queue.cpp:442`). -/
def storeTail (s : SqPair) (data : Bytes) (new_tail : Int) : SqPair :=
  { s with q := s.q.storeTail new_tail, accepted := s.accepted ++ [data], writer := .idle }

def get (s : SqPair) (buf_sz : Int) : SqPair :=
  if buf_sz < 1 then s.returns buf_sz ⟨-1, [], none⟩ else { s with reader := .looping buf_sz }

def scan (s : SqPair) (buf_sz : Int) : Except SqFault SqPair := do
  let old_head := s.q.head_pos
  match ← s.q.scan s.q.fuel old_head with
  | .atTail head =>
    if head ≠ old_head then return { s with reader := .atTail buf_sz old_head head }
    return s.returns buf_sz ⟨0, [], none⟩
  | .found head datalen new_head =>
    return { s with reader := .found buf_sz old_head head datalen new_head }

/- The `CAS32` at the end of the queue (`shm_queue.cpp:496`). -/
def casTail (s : SqPair) (buf_sz old_head head : Int) : SqPair :=
  match s.q.cas old_head head with
  | none => s.returns buf_sz ⟨0, [], none⟩
  | some q => { s with q := q, reader := .clearing buf_sz old_head head ⟨0, [], none⟩ }

/- The `CAS32` at a message (`shm_queue.cpp:520`). -/
def casFound (s : SqPair) (buf_sz old_head head datalen new_head : Int) : SqPair :=
  match s.q.cas old_head new_head with
  | none => { s with reader := .looping buf_sz }
  | some q => { s with q := q, reader := .taken buf_sz old_head head datalen new_head }

/- `shm_queue.cpp:522` to `529`. -/
def copy (s : SqPair) (buf_sz old_head head datalen new_head : Int) : Except SqFault SqPair := do
  let node ← s.q.nodePtr head
  let time ← s.q.read (node + 8) 16
  if datalen > buf_sz then return s.returns buf_sz ⟨-2, [], some time⟩
  let data ← s.q.read (node + 24) datalen
  return { s with reader := .clearing buf_sz old_head new_head ⟨datalen, data, some time⟩ }

def clear (s : SqPair) (buf_sz old_head new_head : Int) (got : Got) : Except SqFault SqPair := do
  if old_head = new_head then return s.returns buf_sz got
  let q ← s.q.clearToken old_head
  return { s with q := q, reader := .clearing buf_sz (← q.addPos old_head 1) new_head got }

/-- A step of one of the two; `none` if it is not the next one of its process. -/
def step (s : SqPair) : Act → Option (Except SqFault SqPair)
  | .plan data =>
    match s.writer with
    | .idle => some (s.plan data)
    | _ => none
  | .write now =>
    match s.writer with
    | .planned data idx new_tail => some (s.write data idx new_tail now)
    | _ => none
  | .storeTail =>
    match s.writer with
    | .written data _ new_tail => some (.ok (s.storeTail data new_tail))
    | _ => none
  | .get buf_sz =>
    match s.reader with
    | .idle => some (.ok (s.get buf_sz))
    | _ => none
  | .scan =>
    match s.reader with
    | .looping buf_sz => some (s.scan buf_sz)
    | _ => none
  | .cas =>
    match s.reader with
    | .atTail buf_sz old_head head => some (.ok (s.casTail buf_sz old_head head))
    | .found buf_sz old_head head datalen new_head =>
      some (.ok (s.casFound buf_sz old_head head datalen new_head))
    | _ => none
  | .copy =>
    match s.reader with
    | .taken buf_sz old_head head datalen new_head =>
      some (s.copy buf_sz old_head head datalen new_head)
    | _ => none
  | .clear =>
    match s.reader with
    | .clearing buf_sz old_head new_head got => some (s.clear buf_sz old_head new_head got)
    | _ => none

def machine (q : SqHead) : Machine SqPair Act SqFault where
  init := ⟨⟨q, [], []⟩, .idle, .idle⟩
  step := step

def Pending : Reader → Int → Prop
  | .taken _ old_head _ _ new_head, i => Used old_head new_head i
  | .clearing _ old_head new_head _, i => Used old_head new_head i
  | _, _ => False

/-- The writer has written the node and not yet stored `tail_pos`. -/
def Unpublished (w : Int) : Writer → Int → Prop
  | .written data idx _, i => idx ≤ i ∧ i < idx + need w data.length
  | _, _ => False

/- What the writer is about to write are nodes that the reader is done with. -/
def PlansDone (w : Int) (r : Reader) : Writer → Prop
  | .planned data idx _ => ∀ i, idx ≤ i → i < idx + need w data.length → ¬ Pending r i
  | _ => True

/-- The writer does not write into a node that the reader is not done with. -/
def WritesDone (s : SqPair) : Act → Prop
  | .write _ => PlansDone s.q.width s.reader s.writer
  | _ => True

def Fits (next : Option Bytes) : Reader → Prop
  | .looping buf_sz => ∀ m ∈ next, (m.length : Int) ≤ buf_sz
  | _ => True

/-- The buffer is large enough for the message that the scan finds. -/
def LargeEnough (s : SqPair) : Act → Prop
  | .scan => Fits s.accepted[s.outcomes.length]? s.reader
  | _ => True

/-- No message is lost: if the reader is not at one already, its scan finds one exactly if an
accepted one is left. -/
def Delivers (s : SqPair) : Prop :=
  match s.reader with
  | .idle | .looping _ => ∃ found, s.q.scan s.q.fuel s.q.head_pos = .ok found ∧
      ((∃ head, found = .atTail head) ↔ s.outcomes.length = s.accepted.length)
  | _ => s.outcomes.length < s.accepted.length

end SqPair

/-! ### What the other process leaves alone -/

section
variable {c w h t e i p new_head nr idx new_tail : Int} {mem mem' : Int → UInt8} {m data : Bytes}
  {ms : List Bytes}

theorem Planned.advance (hp : Planned c h t nr idx new_tail) (hadv : Advanced c h t new_head) :
    Planned c new_head t nr idx new_tail := by
  unfold Planned at *
  unfold Advanced at hadv
  split at hadv <;> omega

theorem Advanced.used (hadv : Advanced c h t new_head) (hused : Used h new_head i) :
    Used h t i := by
  unfold Advanced at hadv
  unfold Used at *
  split_ifs at * <;> omega

theorem Advanced.put (hadv : Advanced c h t new_head) (hp : Planned c h t nr idx new_tail)
    (hnr : 1 ≤ nr) (ht : t ≤ c) : Advanced c h new_tail new_head := by
  unfold Planned at hp
  unfold Advanced at *
  split_ifs at * <;> omega

theorem Planned.held (hp : Planned c h t nr idx new_tail) (hnr : 1 ≤ nr) (hi : 0 ≤ i)
    (hheld : Held h new_tail (if new_tail < t then t else e) i) :
    Held h t e i ∨ idx ≤ i ∧ i < idx + nr := by
  rcases hp with ⟨rfl, rfl, -, -⟩ | ⟨rfl, rfl, hle, hroom, -⟩
  · rw [if_neg (by omega)] at hheld
    unfold Held at *
    split_ifs at * <;> omega
  · rw [if_pos (by omega), Held, if_neg (by omega)] at hheld
    rw [Held, if_pos hle]
    omega

/-- The message that the reader has found stays where it is while the writer writes. -/
theorem Front.write (hw : 4 ≤ w) (hf : Front c w mem h t e m ms p new_head)
    (hp : Planned c h t nr idx new_tail)
    (hmem : ∀ a, a / w < idx ∨ idx + nr ≤ a / w → mem' a = mem a)
    (hh : 0 ≤ h ∧ h ≤ c) (ht : 0 ≤ t ∧ t ≤ c) : Front c w mem' h t e m ms p new_head := by
  obtain ⟨-, -, hfree⟩ := hp.free ht hh.2
  have hkept : ∀ a, Used h new_head (a / w) → mem a = mem' a := by
    intro a hused
    symm
    apply hmem
    by_contra hin
    exact hfree (a / w) (by omega) (by omega) (hf.advanced.used hused)
  have hend := hf.new_head_eq
  exact {
    stored := by
      apply hf.stored.congr (by omega)
      intro a h1 h2
      exact hkept a (hf.read (a / w) h1 (by omega))
    new_head_eq := hf.new_head_eq
    range := hf.range
    advanced := hf.advanced
    read := hf.read
    tokens := by
      intro i hi hused htoken
      apply hf.tokens i hi hused
      apply htoken.congr hw
      intro a ha
      subst ha
      exact (hkept a hused).symm
    rest := hf.rest.write hw (hp.advance hf.advanced) hmem (hf.advanced.pos hh.1 ht.2) ht }

theorem Front.put (hw : 0 < w) (hf : Front c w mem h t e m ms p new_head)
    (hp : Planned c h t (need w data.length) idx new_tail) (hs : Stored w mem idx data)
    (ht : t ≤ c) (hskip : new_tail < t → ∀ i, t ≤ i → i ≤ c → ¬ Token w mem i) :
    Front c w mem h new_tail (if new_tail < t then t else e) m (ms ++ [data]) p new_head where
  stored := hf.stored
  new_head_eq := hf.new_head_eq
  range := hf.range
  advanced := hf.advanced.put hp (hs.need_pos hw) ht
  read := hf.read
  tokens := hf.tokens
  rest := hf.rest.put hw (hp.advance hf.advanced) hs ht hskip

end

namespace SqPair

/-! ### The invariant -/

/-- What the writer has: nodes that stay free, and in the end its message in them. -/
inductive Holds (q : SqHead) (r : Reader) : Writer → Prop
  | idle : Holds q r .idle
  | planned {data : Bytes} {idx new_tail : Int}
      (hlen : 1 ≤ (data.length : Int) ∧ (data.length : Int) ≤ maxSqDataLength)
      (hp : Planned q.ele_count q.head_pos q.tail_pos (need q.width data.length) idx new_tail) :
      Holds q r (.planned data idx new_tail)
  | written {data : Bytes} {idx new_tail : Int}
      (hp : Planned q.ele_count q.head_pos q.tail_pos (need q.width data.length) idx new_tail)
      (hs : Stored q.width q.nodes idx data)
      (hdone : ∀ i, idx ≤ i → i < idx + need q.width data.length → ¬ Pending r i) :
      Holds q r (.written data idx new_tail)

/-- What the reader has: the first message in the queue, then the message that it has taken from
the queue, at last a copy of it. The messages behind it are `ms`. -/
inductive Carries (q : SqHead) (e : Int) : Reader → List Bytes → List Bytes → Prop
  | idle {ms : List Bytes} : Carries q e .idle [] ms
  | looping {buf_sz : Int} {ms : List Bytes} : Carries q e (.looping buf_sz) [] ms
  | found {buf_sz head new_head : Int} {m : Bytes} {ms : List Bytes}
      (hf : Front q.ele_count q.width q.nodes q.head_pos q.tail_pos e m ms head new_head)
      (hfits : (m.length : Int) ≤ buf_sz) :
      Carries q e (.found buf_sz q.head_pos head m.length new_head) [] (m :: ms)
  | taken {buf_sz old_head head : Int} {m : Bytes} {ms : List Bytes} (hold : q.Pos old_head)
      (hs : Stored q.width q.nodes head m) (hhead : 0 ≤ head)
      (hend : q.head_pos = head + need q.width m.length)
      (hread : ∀ i, head ≤ i → i < q.head_pos → Used old_head q.head_pos i)
      (hfits : (m.length : Int) ≤ buf_sz) :
      Carries q e (.taken buf_sz old_head head m.length q.head_pos) [m] ms
  | clearing {buf_sz old_head : Int} {got : Got} {m : Bytes} {ms : List Bytes}
      (hold : q.Pos old_head) (hlen : 1 ≤ (m.length : Int)) (hgot : Returned (buf_sz, got) m) :
      Carries q e (.clearing buf_sz old_head q.head_pos got) [m] ms

/-- The accepted messages are those that were returned, the one the reader carries and those in the
queue. A free node has a token only if one of the two is at it, and the tokens that the reader has
still to clear are before the head. -/
structure Inv (s : SqPair) : Prop where
  sized : s.q.Sized
  head : s.q.Pos s.q.head_pos
  tail : s.q.Pos s.q.tail_pos
  holds : Holds s.q s.reader s.writer
  messages : ∃ gone carried ms e, s.accepted = gone ++ (carried ++ ms) ∧
    List.Forall₂ Returned s.outcomes gone ∧
    Layout s.q.ele_count s.q.width s.q.nodes s.q.head_pos s.q.tail_pos e ms ∧
    (∀ i, s.q.Pos i → Pending s.reader i → ¬ Held s.q.head_pos s.q.tail_pos e i) ∧
    Carries s.q e s.reader carried ms
  tokens : ∀ i, s.q.Pos i → ¬ Used s.q.head_pos s.q.tail_pos i → Token s.q.width s.q.nodes i →
    Unpublished s.q.width s.writer i ∨ Pending s.reader i ∧ i < s.q.head_pos

variable {s t : SqPair} {b buf_sz old_head head datalen new_head idx new_tail : Int} {data : Bytes}

/-! ### The writer -/

theorem Inv.plan (h : s.Inv) (hwriter : s.writer = .idle) (data : Bytes) :
    ∃ t, s.plan data = .ok t ∧ t.Inv := by
  by_cases hlen : 1 ≤ (data.length : Int) ∧ (data.length : Int) ≤ maxSqDataLength
  · rw [SqPair.plan, if_neg (by omega)]
    rcases putPlan_spec h.sized h.head h.tail hlen with hplan | ⟨idx, new_tail, hplan, hp⟩
    · rw [hplan]
      exact ⟨s, rfl, h⟩
    · rw [hplan]
      refine ⟨_, rfl, h.sized, h.head, h.tail, .planned hlen hp, h.messages, ?_⟩
      intro i hi hfree htoken
      rcases h.tokens i hi hfree htoken with hin | hpending
      · rw [hwriter] at hin
        exact hin.elim
      · exact .inr hpending
  · rw [SqPair.plan, if_pos (by omega)]
    exact ⟨s, rfl, h⟩

/-- The message is written into nodes that neither the queue nor the reader needs. -/
theorem Inv.write (h : s.Inv) (hwriter : s.writer = .planned data idx new_tail)
    (hdone : ∀ i, idx ≤ i → i < idx + need s.q.width data.length → ¬ Pending s.reader i)
    (now : Timeval) : ∃ t, s.write data idx new_tail now = .ok t ∧ t.Inv := by
  have hholds := h.holds
  rw [hwriter] at hholds
  cases hholds with
  | planned hlen hp =>
    obtain ⟨gone, carried, ms, e, haccepted, houtcomes, hl, hheld, hcarries⟩ := h.messages
    obtain ⟨hidx, hend, hfree⟩ := hp.free h.tail h.head.2
    obtain ⟨mem, hwrite, hstored, hother⟩ := putWrite_spec h.sized now hidx hlen hend
    have hw := h.sized.width_ge
    rw [SqPair.write, hwrite]
    refine ⟨_, rfl, h.sized.withNodes mem, h.head, h.tail, .written hp hstored hdone,
      ⟨gone, carried, ms, e, haccepted, houtcomes, hl.write hw hp hother h.head h.tail, hheld, ?_⟩,
      ?_⟩
    · generalize s.reader = reader at hcarries hdone ⊢
      cases hcarries with
      | idle => exact .idle
      | looping => exact .looping
      | found hf hfits => exact .found (hf.write hw hp hother h.head h.tail) hfits
      | taken hold hs hhead hendeq hread hfits =>
        have hs' : Stored s.q.width mem _ _ := hs.congr h.sized.width_pos fun a h1 h2 => by
          symm
          apply hother
          by_contra hin
          exact hdone (a / s.q.width) (by omega) (by omega) (hread (a / s.q.width) h1 (by omega))
        exact .taken hold hs' hhead hendeq hread hfits
      | clearing hold hlen hgot => exact .clearing hold hlen hgot
    · intro i hi hunused htoken
      by_cases hin : idx ≤ i ∧ i < idx + need s.q.width data.length
      · exact .inl hin
      · have hbefore : Token s.q.width s.q.nodes i := by
          apply htoken.congr hw
          intro a ha
          have hblock : a / s.q.width = i := ha
          exact hother a (by omega)
        rcases h.tokens i hi hunused hbefore with hin | hpending
        · rw [hwriter] at hin
          exact hin.elim
        · exact .inr hpending

/-- The message comes into the queue; a wrap skips nodes without a token. -/
theorem Inv.storeTail (h : s.Inv) (hwriter : s.writer = .written data idx new_tail) :
    (s.storeTail data new_tail).Inv := by
  have hholds := h.holds
  rw [hwriter] at hholds
  cases hholds with
  | written hp hs hdone =>
    obtain ⟨gone, carried, ms, e, haccepted, houtcomes, hl, hheld, hcarries⟩ := h.messages
    have hw := h.sized.width_pos
    have hone := hs.need_pos hw
    have htokens : ∀ i, s.q.Pos i → ¬ Used s.q.head_pos s.q.tail_pos i →
        (i < idx ∨ idx + need s.q.width data.length ≤ i) → Token s.q.width s.q.nodes i →
        Pending s.reader i ∧ i < s.q.head_pos := by
      intro i hi hunused hnot htoken
      rcases h.tokens i hi hunused htoken with hin | hpending
      · rw [hwriter] at hin
        unfold Unpublished at hin
        omega
      · exact hpending
    have hskip : new_tail < s.q.tail_pos → ∀ i, s.q.tail_pos ≤ i → i ≤ s.q.ele_count →
        ¬ Token s.q.width s.q.nodes i := by
      intro hlt i h1 h2 htoken
      have ht0 := h.tail.1
      unfold Planned at hp
      have hle : s.q.head_pos ≤ s.q.tail_pos := by omega
      have hpending := htokens i ⟨by omega, h2⟩ (by rw [Used, if_pos hle]; omega) (by omega) htoken
      omega
    refine ⟨⟨h.sized.size_ge, h.sized.size_le, h.sized.count_ge, h.sized.count_lt,
      h.sized.limit_ge⟩, h.head, hp.pos h.tail h.head.2 hone, .idle,
      ⟨gone, carried, ms ++ [data], if new_tail < s.q.tail_pos then s.q.tail_pos else e, ?_,
        houtcomes, hl.put hw hp hs h.tail.2 hskip, ?_, ?_⟩, ?_⟩
    · rw [SqPair.storeTail, haccepted, List.append_assoc, List.append_assoc]
    · intro i hi hpending hin
      rcases hp.held hone hi.1 hin with hbefore | hnew
      · exact hheld i hi hpending hbefore
      · exact hdone i hnew.1 hnew.2 hpending
    · rw [show (s.storeTail data new_tail).reader = s.reader from rfl]
      generalize s.reader = reader at hcarries ⊢
      cases hcarries with
      | idle => exact .idle
      | looping => exact .looping
      | found hf hfits => exact .found (hf.put hw hp hs h.tail.2 hskip) hfits
      | taken hold hs hhead hendeq hread hfits => exact .taken hold hs hhead hendeq hread hfits
      | clearing hold hlen hgot => exact .clearing hold hlen hgot
    · intro i hi hunused htoken
      obtain ⟨hbefore, hnot⟩ := hp.unused hone hunused
      exact .inr (htokens i hi hbefore hnot htoken)

/-! ### The reader -/

theorem Carries.outside {q : SqHead} {e : Int} {r : Reader} {carried ms : List Bytes}
    (hc : Carries q e r carried ms) (hr : r = .idle ∨ r = .looping buf_sz) :
    carried = [] ∧ ∀ i, ¬ Pending r i := by
  rcases hr with rfl | rfl
  · cases hc
    exact ⟨rfl, fun _ hpending => hpending⟩
  · cases hc
    exact ⟨rfl, fun _ hpending => hpending⟩

theorem Holds.shrink {q : SqHead} {r r' : Reader} {w : Writer} (hh : Holds q r w)
    (hle : ∀ i, Pending r' i → Pending r i) : Holds q r' w := by
  cases hh with
  | idle => exact .idle
  | planned hlen hp => exact .planned hlen hp
  | written hp hs hdone =>
    exact .written hp hs fun i h1 h2 hpending => hdone i h1 h2 (hle i hpending)

/-- The reader moves on outside of the queue. -/
theorem Inv.outside (h : s.Inv) (hr : s.reader = .idle ∨ s.reader = .looping b)
    (hr' : t.reader = .idle ∨ t.reader = .looping b) (hq : t.q = s.q)
    (hwriter : t.writer = s.writer) (haccepted : t.accepted = s.accepted)
    (houtcomes : t.outcomes = s.outcomes) : t.Inv := by
  obtain ⟨gone, carried, ms, e, hsum, hout, hl, -, hcarries⟩ := h.messages
  obtain ⟨rfl, hnone⟩ := hcarries.outside hr
  have hcarries' : Carries t.q e t.reader [] ms := by
    rcases hr' with hidle | hlooping
    · rw [hidle]
      exact .idle
    · rw [hlooping]
      exact .looping
  obtain ⟨-, hnone'⟩ := hcarries'.outside hr'
  have hholds := h.holds.shrink fun i hp => (hnone' i hp).elim
  refine ⟨hq ▸ h.sized, ?_, ?_, ?_, ⟨gone, [], ms, e, ?_, ?_, ?_, ?_, hcarries'⟩, ?_⟩
  · rw [hq]
    exact h.head
  · rw [hq]
    exact h.tail
  · rw [hq, hwriter]
    exact hholds
  · rw [haccepted]
    exact hsum
  · rw [houtcomes]
    exact hout
  · rw [hq]
    exact hl
  · intro i _ hpending
    exact (hnone' i hpending).elim
  · rw [hq, hwriter]
    intro i hi hunused htoken
    rcases h.tokens i hi hunused htoken with hin | hpending
    · exact .inl hin
    · exact (hnone i hpending.1).elim

theorem outcomes_returns (s : SqPair) (buf_sz : Int) (got : Got) :
    (s.returns buf_sz got).outcomes =
      if got.ret ≠ 0 ∧ got.ret ≠ -1 then s.outcomes ++ [(buf_sz, got)] else s.outcomes :=
  outcomes_concat s.toSqRun s.q (buf_sz, got)

theorem Inv.get (h : s.Inv) (hreader : s.reader = .idle) (buf_sz : Int) : (s.get buf_sz).Inv := by
  by_cases hbuf : buf_sz < 1
  · rw [SqPair.get, if_pos hbuf]
    have hsame := outcomes_returns s buf_sz ⟨-1, [], none⟩
    rw [if_neg (by decide)] at hsame
    exact h.outside (b := buf_sz) (.inl hreader) (.inl rfl) rfl rfl rfl hsame
  · rw [SqPair.get, if_neg hbuf]
    exact h.outside (.inl hreader) (.inr rfl) rfl rfl rfl rfl

/-- The scan ends at the tail only if the queue is empty. -/
theorem Inv.scan (h : s.Inv) (hreader : s.reader = .looping buf_sz)
    (hfits : ∀ m ∈ s.accepted[s.outcomes.length]?, (m.length : Int) ≤ buf_sz) :
    ∃ t, s.scan buf_sz = .ok t ∧ t.Inv := by
  obtain ⟨gone, carried, ms, e, haccepted, houtcomes, hl, hheld, hcarries⟩ := h.messages
  obtain ⟨rfl, hnone⟩ := hcarries.outside (.inr hreader)
  rw [List.nil_append] at haccepted
  cases ms with
  | nil =>
    refine ⟨s.returns buf_sz ⟨0, [], none⟩, ?_, ?_⟩
    · rw [SqPair.scan, scan_empty hl.eq_of_nil h.sized, ok_bind]
      simp only [ne_eq, not_true_eq_false, if_false]
      rfl
    · have hsame := outcomes_returns s buf_sz ⟨0, [], none⟩
      rw [if_neg (by decide)] at hsame
      exact h.outside (.inr hreader) (.inl rfl) rfl rfl rfl hsame
  | cons m ms =>
    obtain ⟨p, new_head, hscan, hf⟩ := scan_front h.sized h.head h.tail hl
    have hfit := hfits m (front_eq haccepted houtcomes)
    refine ⟨{ s with reader := .found buf_sz s.q.head_pos p m.length new_head },
      by rw [SqPair.scan, hscan, ok_bind]; rfl, h.sized, h.head, h.tail,
      h.holds.shrink fun i hp => hp.elim,
      ⟨gone, [], m :: ms, e, haccepted, houtcomes, hl, fun i _ hp => hp.elim, .found hf hfit⟩, ?_⟩
    intro i hi hunused htoken
    rcases h.tokens i hi hunused htoken with hin | hpending
    · exact .inl hin
    · exact (hnone i hpending.1).elim

theorem Inv.casFound (h : s.Inv)
    (hreader : s.reader = .found buf_sz old_head head datalen new_head) :
    (s.casFound buf_sz old_head head datalen new_head).Inv := by
  obtain ⟨gone, carried, ms, e, haccepted, houtcomes, hl, hheld, hcarries⟩ := h.messages
  rw [hreader] at hcarries
  cases hcarries with
  | @found _ _ _ m ms hf hfits =>
    have hcas : s.q.cas s.q.head_pos new_head = some { s.q with head_pos := new_head } := if_pos rfl
    have hw := h.sized.width_pos
    have hadv := hf.advanced
    rw [SqPair.casFound, hcas]
    refine ⟨⟨h.sized.size_ge, h.sized.size_le, h.sized.count_ge, h.sized.count_lt,
      h.sized.limit_ge⟩, hadv.pos h.head.1 h.tail.2, h.tail, ?_,
      ⟨gone, [m], ms, e, haccepted, houtcomes, hf.rest, ?_, ?_⟩, ?_⟩
    · have hholds := h.holds
      dsimp only
      generalize s.writer = writer at hholds ⊢
      cases hholds with
      | idle => exact .idle
      | planned hlen hp => exact .planned hlen (hp.advance hadv)
      | written hp hs hdone =>
        obtain ⟨-, -, hfree⟩ := hp.free h.tail h.head.2
        exact .written (hp.advance hadv) hs fun i h1 h2 hused => hfree i h1 h2 (hadv.used hused)
    · intro i _ hpending hin
      exact hadv.disjoint hin.used hpending
    · exact .taken h.head hf.stored hf.range.1 hf.new_head_eq hf.read hfits
    · intro i hi hunused htoken
      by_cases hread : Used s.q.head_pos new_head i
      · exact .inr ⟨hread, hf.tokens i hi.2 hread htoken⟩
      · rcases h.tokens i hi ((hadv.free hunused).resolve_left hread) htoken with hin | hpending
        · exact .inl hin
        · rw [hreader] at hpending
          exact hpending.1.elim

/-- The copy is the message. -/
theorem Inv.copy (h : s.Inv) (hreader : s.reader = .taken buf_sz old_head head datalen new_head) :
    ∃ t, s.copy buf_sz old_head head datalen new_head = .ok t ∧ t.Inv := by
  obtain ⟨gone, carried, ms, e, haccepted, houtcomes, hl, hheld, hcarries⟩ := h.messages
  rw [hreader] at hcarries hheld
  cases hcarries with
  | @taken _ _ _ m _ hold hs hhead hend hread hfits =>
    have hw := h.sized.width_pos
    obtain ⟨hone, hfit⟩ := need_fits hw hs.nonempty
    have hle := h.head.2
    have hlimit : head * s.q.width + (24 + m.length) ≤ s.q.limit := by
      have hle := h.sized.mul_width_le (p := s.q.head_pos) (by omega)
      rw [hend, Int.add_mul] at hle
      omega
    have htime : s.q.read (head * s.q.width + 8) 16 =
        .ok (slice s.q.nodes (head * s.q.width + 8) 16) := if_pos ⟨by decide, by omega⟩
    have hdata : s.q.read (head * s.q.width + 24) m.length = .ok m := by
      rw [SqHead.read, if_pos ⟨by omega, by omega⟩, Int.toNat_natCast]
      exact congrArg Except.ok hs.data
    have hptr : s.q.nodePtr head = .ok (head * s.q.width) :=
      h.sized.nodePtr_eq ⟨hhead, by omega⟩
    rw [SqPair.copy, hptr, ok_bind, htime, ok_bind, if_neg (by omega), hdata, ok_bind]
    refine ⟨_, rfl, h.sized, h.head, h.tail, ?_, ⟨gone, [m], ms, e, haccepted, houtcomes, hl, hheld,
      .clearing hold hs.nonempty ⟨rfl, rfl, hfits⟩⟩, ?_⟩
    · apply h.holds.shrink
      rw [hreader]
      exact fun i hp => hp
    · have htokens := h.tokens
      rw [hreader] at htokens
      exact htokens

/-- A token is cleared that the queue does not need, or the call returns its message. -/
theorem Inv.clear {got : Got} (h : s.Inv)
    (hreader : s.reader = .clearing buf_sz old_head new_head got) :
    ∃ t, s.clear buf_sz old_head new_head got = .ok t ∧ t.Inv := by
  obtain ⟨gone, carried, ms, e, haccepted, houtcomes, hl, hheld, hcarries⟩ := h.messages
  have hholds := h.holds
  have htokens := h.tokens
  rw [hreader] at hcarries hheld hholds htokens
  cases hcarries with
  | @clearing _ _ _ m _ hold hlen hgot =>
    by_cases hlast : old_head = s.q.head_pos
    · have hnone : ∀ i, ¬ Used old_head s.q.head_pos i := by
        intro i hused
        rw [hlast, Used, if_pos (Int.le_refl _)] at hused
        omega
      have hret : got.ret ≠ 0 ∧ got.ret ≠ -1 := by
        have heq : got.ret = m.length := hgot.1
        omega
      refine ⟨s.returns buf_sz got, by rw [SqPair.clear, if_pos hlast]; rfl, h.sized, h.head,
        h.tail, hholds.shrink fun i hp => hp.elim, ⟨gone ++ [m], [], ms, e, ?_, ?_, hl,
        fun i _ hp => hp.elim, .idle⟩, ?_⟩
      · rw [List.append_assoc]
        exact haccepted
      · rw [outcomes_returns, if_pos hret]
        exact List.rel_append houtcomes (.cons hgot .nil)
      · intro i hi hunused htoken
        exact .inl ((htokens i hi hunused htoken).resolve_right fun hp => hnone i hp.1)
    · obtain ⟨mem, hclear, hcleared, hother⟩ := clearToken_spec h.sized hold
      have hw := h.sized.width_ge
      have hone : 0 ≤ (1 : Int) ∧ 1 ≤ s.q.ele_count := ⟨by decide, h.sized.count_ge⟩
      have hadd : ({ s.q with nodes := mem } : SqHead).addPos old_head 1 = _ :=
        (h.sized.withNodes mem).addPos_eq hold hone
      have hstep := fun i hi => used_step (i := i) hlast hold h.head hi
      have hself : Used old_head s.q.head_pos old_head := (hstep old_head hold).mpr (.inl rfl)
      have hless : ∀ i, s.q.Pos i → Used (if old_head + 1 ≤ s.q.ele_count then old_head + 1
          else old_head + 1 - (s.q.ele_count + 1)) s.q.head_pos i → Used old_head s.q.head_pos i :=
        fun i hi hu => (hstep i hi).mpr (.inr hu)
      have hnext : s.q.Pos (if old_head + 1 ≤ s.q.ele_count then old_head + 1
          else old_head + 1 - (s.q.ele_count + 1)) := by
        obtain ⟨h0, h1⟩ := hold
        unfold Pos
        split <;> omega
      have hbefore : ∀ i, Token s.q.width mem i → i ≠ old_head ∧ Token s.q.width s.q.nodes i := by
        intro i htoken
        have hne : i ≠ old_head := by
          intro heq
          subst heq
          exact hcleared htoken
        refine ⟨hne, htoken.congr hw ?_⟩
        intro a ha
        exact hother a (by omega)
      rw [SqPair.clear, if_neg hlast, hclear, ok_bind, hadd, ok_bind]
      refine ⟨_, rfl, h.sized.withNodes mem, h.head, h.tail, ?_, ⟨gone, [m], ms, e, haccepted,
        houtcomes, ?_, ?_, .clearing hnext hlen hgot⟩, ?_⟩
      · dsimp only
        generalize s.writer = writer at hholds ⊢
        cases hholds with
        | idle => exact .idle
        | planned hlen hp => exact .planned hlen hp
        | @written data idx _ hp hs hdone =>
          obtain ⟨hidx, hend, -⟩ := hp.free h.tail h.head.2
          have hs' : Stored s.q.width mem _ _ := hs.congr h.sized.width_pos fun a h1 h2 => by
            symm
            apply hother
            intro heq
            exact hdone old_head (by omega) (by omega) hself
          have hdone' : ∀ i, idx ≤ i → i < idx + need s.q.width data.length → ¬ Used
              (if old_head + 1 ≤ s.q.ele_count then old_head + 1
                else old_head + 1 - (s.q.ele_count + 1)) s.q.head_pos i := by
            intro i h1 h2 hused
            exact hdone i h1 h2 (hless i ⟨by omega, by omega⟩ hused)
          exact .written hp hs' hdone'
      · apply hl.congr h.sized.width_pos ?_ (fun i _ _ _ ht => (hbefore i ht).2) h.head.1 h.tail.2
        intro a h1 h2 hin
        symm
        apply hother
        intro heq
        rw [heq] at hin
        exact hheld old_head hold hself hin
      · intro i hi hpending
        exact hheld i hi (hless i hi hpending)
      · intro i hi hunused htoken
        obtain ⟨hne, htoken'⟩ := hbefore i htoken
        rcases htokens i hi hunused htoken' with hin | hpending
        · exact .inl hin
        · exact .inr ⟨((hstep i hi).mp hpending.1).resolve_left hne, hpending.2⟩

theorem Inv.step (h : s.Inv) {a : Act} (hwrites : s.WritesDone a) (hlarge : s.LargeEnough a)
    {x : Except SqFault SqPair} (hx : s.step a = some x) : ∃ t, x = .ok t ∧ t.Inv := by
  cases a with
  | plan data =>
    unfold SqPair.step at hx
    dsimp only at hx
    split at hx
    next hwriter =>
      obtain ⟨t, ht, hinv⟩ := h.plan hwriter data
      cases hx
      exact ⟨t, ht, hinv⟩
    next => cases hx
  | write now =>
    unfold SqPair.step at hx
    dsimp only at hx
    split at hx
    next data idx new_tail hwriter =>
      have hdone : PlansDone s.q.width s.reader s.writer := hwrites
      rw [hwriter] at hdone
      obtain ⟨t, ht, hinv⟩ := h.write hwriter hdone now
      cases hx
      exact ⟨t, ht, hinv⟩
    next => cases hx
  | storeTail =>
    unfold SqPair.step at hx
    dsimp only at hx
    split at hx
    next data idx new_tail hwriter =>
      cases hx
      exact ⟨_, rfl, h.storeTail hwriter⟩
    next => cases hx
  | get buf_sz =>
    unfold SqPair.step at hx
    dsimp only at hx
    split at hx
    next hreader =>
      cases hx
      exact ⟨_, rfl, h.get hreader buf_sz⟩
    next => cases hx
  | scan =>
    unfold SqPair.step at hx
    dsimp only at hx
    split at hx
    next buf_sz hreader =>
      have hfits : Fits s.accepted[s.outcomes.length]? s.reader := hlarge
      rw [hreader] at hfits
      obtain ⟨t, ht, hinv⟩ := h.scan hreader hfits
      cases hx
      exact ⟨t, ht, hinv⟩
    next => cases hx
  | cas =>
    unfold SqPair.step at hx
    dsimp only at hx
    split at hx
    next buf_sz old_head head hreader =>
      -- The scan never ends at the tail with a head that has moved.
      obtain ⟨gone, carried, ms, e, -, -, -, -, hcarries⟩ := h.messages
      rw [hreader] at hcarries
      cases hcarries
    next buf_sz old_head head datalen new_head hreader =>
      cases hx
      exact ⟨_, rfl, h.casFound hreader⟩
    next => cases hx
  | copy =>
    unfold SqPair.step at hx
    dsimp only at hx
    split at hx
    next buf_sz old_head head datalen new_head hreader =>
      obtain ⟨t, ht, hinv⟩ := h.copy hreader
      cases hx
      exact ⟨t, ht, hinv⟩
    next => cases hx
  | clear =>
    unfold SqPair.step at hx
    dsimp only at hx
    split at hx
    next buf_sz old_head new_head got hreader =>
      obtain ⟨t, ht, hinv⟩ := h.clear hreader
      cases hx
      exact ⟨t, ht, hinv⟩
    next => cases hx

/-- What the invariant says about the returned messages. -/
theorem Inv.delivers (h : s.Inv) : s.Settled Returned ∧ s.Delivers := by
  obtain ⟨gone, carried, ms, e, haccepted, houtcomes, hl, -, hcarries⟩ := h.messages
  have hlen := houtcomes.length_eq
  have hsum : s.accepted.length = gone.length + (carried.length + ms.length) := by
    rw [haccepted, List.length_append, List.length_append]
  have hscan : carried = [] → ∃ found, s.q.scan s.q.fuel s.q.head_pos = .ok found ∧
      ((∃ head, found = .atTail head) ↔ s.outcomes.length = s.accepted.length) := by
    intro hnone
    rw [hnone, List.length_nil] at hsum
    cases ms with
    | nil =>
      refine ⟨_, scan_empty hl.eq_of_nil h.sized, ?_⟩
      rw [List.length_nil] at hsum
      exact ⟨fun _ => by omega, fun _ => ⟨_, rfl⟩⟩
    | cons m ms =>
      obtain ⟨p, new_head, hfound, -⟩ := scan_front h.sized h.head h.tail hl
      refine ⟨_, hfound, ?_⟩
      rw [List.length_cons] at hsum
      constructor
      · rintro ⟨head, heq⟩
        cases heq
      · omega
  constructor
  · rw [Settled, haccepted, hlen, List.take_left']
    · exact houtcomes
    · rfl
  · unfold Delivers
    generalize s.reader = reader at hcarries ⊢
    cases hcarries with
    | idle => exact hscan rfl
    | looping => exact hscan rfl
    | found hf _ =>
      rw [List.length_nil, List.length_cons] at hsum
      dsimp only
      omega
    | taken _ _ _ _ _ _ =>
      rw [List.length_singleton] at hsum
      dsimp only
      omega
    | clearing _ _ _ =>
      rw [List.length_singleton] at hsum
      dsimp only
      omega

theorem inv_machine {ele_size ele_count : Int} {q : SqHead}
    (hq : sqCreate ele_size ele_count = some q) (hfit : SizesFit ele_size ele_count) :
    (machine q).init.Inv := by
  obtain ⟨hinv, hfree⟩ := inv_init (R := Returned) hq hfit
  obtain ⟨gone, ms, e, haccepted, houtcomes, hl⟩ := hinv.messages
  refine ⟨hinv.sized, hinv.head, hinv.tail, .idle,
    ⟨gone, [], ms, e, haccepted, houtcomes, hl, fun i _ hp => hp.elim, .idle⟩, ?_⟩
  intro i hi hunused htoken
  exact (hfree i hi hunused htoken).elim

/-- However the steps of the writer and of the reader are interleaved, the accepted messages are
returned one each, intact and in order, as long as the writer writes only into nodes that the
reader is done with. -/
theorem sq_two_processes (ele_size ele_count : Int) (q : SqHead)
    (hq : sqCreate ele_size ele_count = some q) (hfit : SizesFit ele_size ele_count)
    (acts : List Act) (hwrites : (machine q).Along WritesDone (machine q).init acts)
    (hlarge : (machine q).Along LargeEnough (machine q).init acts)
    (x : Except SqFault SqPair) (hrun : (machine q).run (machine q).init acts = some x) :
    ∃ s, x = .ok s ∧ s.Settled Returned ∧ s.Delivers := by
  have hstep : ∀ s a x, Inv s → WritesDone s a ∧ LargeEnough s a →
      (machine q).step s a = some x → ∃ t, x = .ok t ∧ t.Inv := by
    intro s a x hinv hguard hx
    exact hinv.step hguard.1 hguard.2 hx
  obtain ⟨s, hs, hinv⟩ := Machine.run_ok hstep (inv_machine hq hfit)
    (Machine.along_and hwrites hlarge) hrun
  exact ⟨s, hs, hinv.delivers⟩

/-! ### Two interleavings -/

instance (h t i : Int) : Decidable (Used h t i) :=
  inferInstanceAs (Decidable (if h ≤ t then h ≤ i ∧ i < t else h ≤ i ∨ i < t))

instance (r : Reader) (i : Int) : Decidable (Pending r i) :=
  match r with
  | .taken _ old_head _ _ new_head => inferInstanceAs (Decidable (Used old_head new_head i))
  | .clearing _ old_head new_head _ => inferInstanceAs (Decidable (Used old_head new_head i))
  | .idle | .looping _ | .atTail _ _ _ | .found _ _ _ _ _ => inferInstanceAs (Decidable False)

instance (w : Int) (r : Reader) (x : Writer) : Decidable (PlansDone w r x) :=
  match x with
  | .planned data idx _ => inferInstanceAs (Decidable
      (∀ i, idx ≤ i → i < idx + need w data.length → ¬ Pending r i))
  | .idle | .written _ _ _ => inferInstanceAs (Decidable True)

instance (s : SqPair) (a : Act) : Decidable (s.WritesDone a) :=
  match a with
  | .write _ => inferInstanceAs (Decidable (PlansDone s.q.width s.reader s.writer))
  | .plan _ | .storeTail | .get _ | .scan | .cas | .copy | .clear =>
    inferInstanceAs (Decidable True)

instance (next : Option Bytes) (r : Reader) : Decidable (Fits next r) :=
  match r with
  | .looping buf_sz => inferInstanceAs (Decidable (∀ m ∈ next, (m.length : Int) ≤ buf_sz))
  | .idle | .atTail _ _ _ | .found _ _ _ _ _ | .taken _ _ _ _ _ | .clearing _ _ _ _ =>
    inferInstanceAs (Decidable True)

instance (s : SqPair) (a : Act) : Decidable (s.LargeEnough a) :=
  match a with
  | .scan => inferInstanceAs (Decidable (Fits s.accepted[s.outcomes.length]? s.reader))
  | .plan _ | .write _ | .storeTail | .get _ | .cas | .copy | .clear =>
    inferInstanceAs (Decidable True)

def putActs (data : Bytes) : List Act := [.plan data, .write epoch, .storeTail]

/- The second message is written while the reader copies the first one, and the last put wraps
around the end of the ring. -/
def interleavedActs : List Act :=
  putActs longMsg ++ [.plan (shortMsg 2), .get 12, .scan, .cas, .write epoch, .copy, .storeTail,
    .clear, .clear, .clear] ++ putActs (shortMsg 3) ++
    [.plan (shortMsg 4), .get 12, .scan, .write epoch, .cas, .copy, .storeTail, .clear, .clear]

theorem sq_two_processes_interleaved :
    ∃ s, (machine smallQueue).run (machine smallQueue).init interleavedActs = some (.ok s) ∧
      s.Settled Returned ∧ s.outcomes.length = 2 ∧ s.accepted.length = 4 := by
  have hrun : (machine smallQueue).runsTo (machine smallQueue).init interleavedActs
      (fun t => decide (t.outcomes.length = 2 ∧ t.accepted.length = 4)) = true := by
    decide +kernel
  obtain ⟨s, hs, hcounts⟩ := Machine.exists_of_runsTo hrun
  obtain ⟨t, ht, hsettled, -⟩ := sq_two_processes 8 4 smallQueue sqCreate_small
    ⟨by decide, by decide⟩ interleavedActs (by decide +kernel) (by decide +kernel) _ hs
  cases ht
  exact ⟨s, hs, hsettled, of_decide_eq_true hcounts⟩

/- The reader has moved the head over a message of two nodes and not copied it yet; the third put
behind it wraps around and takes the first of the two nodes. -/
def overwriteActs : List Act :=
  putActs longMsg ++ [.get 12, .scan, .cas] ++ putActs (shortMsg 2) ++ putActs (shortMsg 3) ++
    putActs (shortMsg 4) ++ [.copy, .clear, .clear, .clear]

/-- What the reader copies is no longer its message. -/
theorem sq_two_processes_overwrite :
    (machine smallQueue).Along LargeEnough (machine smallQueue).init overwriteActs ∧
      ∃ s, (machine smallQueue).run (machine smallQueue).init overwriteActs = some (.ok s) ∧
        s.accepted = [longMsg, shortMsg 2, shortMsg 3, shortMsg 4] ∧
        s.outcomes.map (·.2.buf) = [shortMsg 4 ++ leBytes 4 startToken] ∧
        ¬ s.Settled Returned := by
  have hrun : (machine smallQueue).runsTo (machine smallQueue).init overwriteActs
      (fun t => decide (t.accepted = [longMsg, shortMsg 2, shortMsg 3, shortMsg 4] ∧
        t.outcomes.map (·.2.buf) = [shortMsg 4 ++ leBytes 4 startToken] ∧
        ¬ t.Settled Returned)) = true := by decide +kernel
  obtain ⟨s, hs, hfacts⟩ := Machine.exists_of_runsTo hrun
  exact ⟨by decide +kernel, s, hs, of_decide_eq_true hfacts⟩

end SqPair

end TstMuduo.ShmQueue
