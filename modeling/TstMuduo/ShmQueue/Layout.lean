import TstMuduo.ShmQueue.Queue

/-!
# Where the messages lie

Between `head_pos` and `tail_pos` the messages stand one behind the other. If the tail has
wrapped around, some nodes at the end of the ring are skipped, none of which has a start token,
and the messages go on at node 0.
-/

namespace TstMuduo.ShmQueue
open TstMuduo.Lib SqHead

def Token (w : Int) (mem : Int → UInt8) (p : Int) : Prop :=
  slice mem (p * w) 4 = leBytes 4 startToken

/-- The message begins at node `p`. -/
structure Stored (w : Int) (mem : Int → UInt8) (p : Int) (m : Bytes) : Prop where
  token : Token w mem p
  datalen : slice mem (p * w + 4) 4 = leBytes 4 m.length
  data : slice mem (p * w + 24) m.length = m
  nonempty : 1 ≤ (m.length : Int)
  short : (m.length : Int) ≤ maxSqDataLength

/-- The messages fill the nodes from `p` up to `e`. -/
def Contig (w : Int) (mem : Int → UInt8) : Int → List Bytes → Int → Prop
  | p, [], e => p = e
  | p, m :: ms, e => Stored w mem p m ∧ Contig w mem (p + need w m.length) ms e

/-- The node is one of those from `h` up to `t`, around the end of the ring. -/
def Used (h t i : Int) : Prop := if h ≤ t then h ≤ i ∧ i < t else h ≤ i ∨ i < t

/-- The node is one of a message, if those before the end of the ring end at `e`. -/
def Held (h t e i : Int) : Prop := if h ≤ t then h ≤ i ∧ i < t else h ≤ i ∧ i < e ∨ i < t

/-- The messages between head and tail in a ring whose last node is `c`; if the tail has wrapped
around, the nodes from `e` on were skipped. -/
def Layout (c w : Int) (mem : Int → UInt8) (h t e : Int) (ms : List Bytes) : Prop :=
  h ≤ t ∧ Contig w mem h ms t ∨
    t < h ∧ ∃ ms1 ms2, ms = ms1 ++ ms2 ∧ ms2 ≠ [] ∧ Contig w mem h ms1 e ∧ e ≤ c ∧
      (∀ i, e ≤ i → i ≤ c → ¬ Token w mem i) ∧ Contig w mem 0 ms2 t

variable {c w p e h t i : Int} {mem mem' : Int → UInt8} {m : Bytes} {ms : List Bytes}

theorem Stored.need_pos (hw : 0 < w) (hs : Stored w mem p m) : 1 ≤ need w m.length :=
  (need_fits hw hs.nonempty).1

theorem Token.congr (hw : 4 ≤ w) (hmem : ∀ a, a / w = p → mem a = mem' a)
    (ht : Token w mem p) : Token w mem' p := by
  rw [Token, ← ht]
  apply slice_congr_blocks (by omega) (k := 1) (Int.le_refl _)
  · rw [Int.add_mul]
    omega
  · intro a h1 h2
    exact (hmem a (by omega)).symm

/-- A message is read from its own nodes only. -/
theorem Stored.congr (hw : 0 < w)
    (hmem : ∀ a, p ≤ a / w → a / w < p + need w m.length → mem a = mem' a)
    (hs : Stored w mem p m) : Stored w mem' p m := by
  have hfit := (need_fits hw hs.nonempty).2
  have hsame : ∀ off len, p * w ≤ off → off + (len : Nat) ≤ p * w + (24 + m.length) →
      slice mem' off len = slice mem off len := by
    intro off len hge hle
    symm
    apply slice_congr_blocks hw hge (k := need w m.length) _ hmem
    rw [Int.add_mul]
    omega
  exact {
    token := by
      rw [Token, hsame _ _ (Int.le_refl _) (by omega)]
      exact hs.token
    datalen := by
      rw [hsame _ _ (by omega) (by omega)]
      exact hs.datalen
    data := by
      rw [hsame _ _ (by omega) (by omega)]
      exact hs.data
    nonempty := hs.nonempty
    short := hs.short }

theorem Contig.le (hw : 0 < w) (hc : Contig w mem p ms e) : p ≤ e := by
  induction ms generalizing p with
  | nil => exact Int.le_of_eq hc
  | cons m ms ih =>
    have hpos := hc.1.need_pos hw
    have hrest := ih hc.2
    omega

theorem Contig.congr (hw : 0 < w) (hmem : ∀ a, p ≤ a / w → a / w < e → mem a = mem' a)
    (hc : Contig w mem p ms e) : Contig w mem' p ms e := by
  induction ms generalizing p with
  | nil => exact hc
  | cons m ms ih =>
    have hpos := hc.1.need_pos hw
    have hrest := hc.2.le hw
    refine ⟨hc.1.congr hw ?_, ih ?_ hc.2⟩
    · intro a h1 h2
      exact hmem a h1 (by omega)
    · intro a h1 h2
      exact hmem a (by omega) h2

theorem Contig.concat (hc : Contig w mem p ms e) (hs : Stored w mem e m) :
    Contig w mem p (ms ++ [m]) (e + need w m.length) := by
  induction ms generalizing p with
  | nil =>
    cases hc
    exact ⟨hs, rfl⟩
  | cons m' ms ih => exact ⟨hc.1, ih hc.2⟩

theorem Layout.congr (hw : 0 < w)
    (hmem : ∀ a, 0 ≤ a / w → a / w ≤ c → Held h t e (a / w) → mem a = mem' a)
    (htoken : ∀ i, t < h → e ≤ i → i ≤ c → Token w mem' i → Token w mem i)
    (hh : 0 ≤ h) (ht : t ≤ c) (hl : Layout c w mem h t e ms) : Layout c w mem' h t e ms := by
  rcases hl with ⟨hle, hc⟩ | ⟨hlt, ms1, ms2, rfl, hne, hc1, he, hskip, hc2⟩
  · refine .inl ⟨hle, hc.congr hw ?_⟩
    intro a h1 h2
    exact hmem a (by omega) (by omega) (by rw [Held, if_pos hle]; exact ⟨h1, h2⟩)
  · have hheld : ∀ a, 0 ≤ a / w → a / w ≤ c → (h ≤ a / w ∧ a / w < e ∨ a / w < t) →
        mem a = mem' a := by
      intro a h1 h2 h3
      exact hmem a h1 h2 (by rw [Held, if_neg (by omega)]; exact h3)
    refine .inr ⟨hlt, ms1, ms2, rfl, hne, hc1.congr hw ?_, he, ?_, hc2.congr hw ?_⟩
    · intro a h1 h2
      exact hheld a (by omega) (by omega) (by omega)
    · intro i h1 h2 htok
      exact hskip i h1 h2 (htoken i hlt h1 h2 htok)
    · intro a h1 h2
      exact hheld a h1 (by omega) (by omega)

theorem Held.used (hheld : Held h t e i) : Used h t i := by
  unfold Held at hheld
  unfold Used
  split_ifs at * <;> omega

theorem Layout.le_end (hw : 0 < w) (hl : Layout c w mem h t e ms) (hlt : t < h) : h ≤ e := by
  rcases hl with ⟨hle, -⟩ | ⟨-, ms1, ms2, -, -, hc1, -⟩
  · omega
  · exact hc1.le hw

theorem Layout.congr_used (hw : 4 ≤ w)
    (hmem : ∀ a, 0 ≤ a / w → a / w ≤ c → Used h t (a / w) → mem a = mem' a)
    (hh : 0 ≤ h) (ht : t ≤ c) (hl : Layout c w mem h t e ms) : Layout c w mem' h t e ms := by
  have hpos : 0 < w := by omega
  apply hl.congr hpos (fun a h1 h2 hheld => hmem a h1 h2 hheld.used) ?_ hh ht
  intro i hlt h1 h2 htok
  have hle := hl.le_end hpos hlt
  apply htok.congr hw
  intro a ha
  exact (hmem a (by omega) (by omega) (by rw [Used, if_neg (by omega)]; omega)).symm

/-! ### Putting a message -/

/-- `nr` nodes from `idx` on were free when the head was at `h` and the tail at `t`: behind the
tail, or at the start of the ring. -/
def Planned (c h t nr idx new_tail : Int) : Prop :=
  idx = t ∧ new_tail = t + nr ∧ new_tail ≤ c ∧ (h ≤ t ∨ new_tail < h) ∨
    idx = 0 ∧ new_tail = nr ∧ h ≤ t ∧ nr < h ∧ c < t + nr

variable {q : SqHead}

theorem putPlan_spec (hs : q.Sized) (hh : q.Pos q.head_pos) (ht : q.Pos q.tail_pos) {len : Int}
    (hlen : 1 ≤ len ∧ len ≤ maxSqDataLength) :
    q.putPlan len = .ok none ∨ ∃ idx new_tail, q.putPlan len = .ok (some (idx, new_tail)) ∧
      Planned q.ele_count q.head_pos q.tail_pos (need q.width len) idx new_tail := by
  have hone := (need_fits hs.width_pos hlen.1).1
  have hcount := hs.count_lt
  obtain ⟨hh0, hh1⟩ := hh
  have ht0 := ht.1
  -- At most `ele_count` nodes are free, and those before the head if the tail has wrapped.
  obtain ⟨empty, hempty, hle, hwrapped⟩ : ∃ empty, q.emptyNodes2 q.head_pos = .ok empty ∧
      empty ≤ q.ele_count ∧ (q.tail_pos < q.head_pos → empty = q.head_pos - q.tail_pos - 1) := by
    refine ⟨_, hs.emptyNodes2_eq ⟨hh0, hh1⟩ ht, ?_, ?_⟩
    · split <;> omega
    · intro hlt
      rw [if_neg (by omega)]
  simp only [putPlan, hs.numNeededNodes_eq hlen, hempty, ok_bind]
  by_cases hfull : empty < need q.width len
  · rw [if_pos hfull]
    exact .inl rfl
  · rw [if_neg hfull, hs.nodePtr_eq ht, ok_bind, hs.addPos_eq ht (by omega), ok_bind]
    by_cases hend : q.tail_pos + need q.width len ≤ q.ele_count
    · rw [if_pos hend, if_neg (by omega)]
      exact .inr ⟨_, _, rfl, .inl ⟨rfl, rfl, hend, by omega⟩⟩
    · rw [if_neg hend, if_pos (by omega), int_bind (by omega)]
      by_cases hroom : q.head_pos - 1 < need q.width len
      · rw [if_pos hroom]
        exact .inl rfl
      · rw [if_neg hroom]
        exact .inr ⟨_, _, rfl, .inr ⟨rfl, rfl, by omega, by omega, by omega⟩⟩

theorem Planned.free {nr idx new_tail : Int} (hp : Planned c h t nr idx new_tail)
    (ht : 0 ≤ t ∧ t ≤ c) (hh : h ≤ c) :
    0 ≤ idx ∧ idx + nr ≤ c ∧ ∀ i, idx ≤ i → i < idx + nr → ¬ Used h t i := by
  unfold Planned at hp
  refine ⟨by omega, by omega, ?_⟩
  intro i h1 h2 hused
  unfold Used at hused
  split at hused <;> omega

theorem Planned.pos {nr idx new_tail : Int} (hp : Planned c h t nr idx new_tail)
    (ht : 0 ≤ t ∧ t ≤ c) (hh : h ≤ c) (hnr : 1 ≤ nr) : 0 ≤ new_tail ∧ new_tail ≤ c := by
  unfold Planned at hp
  omega

theorem Planned.unused {nr idx new_tail : Int} (hp : Planned c h t nr idx new_tail)
    (hnr : 1 ≤ nr) (hfree : ¬ Used h new_tail i) :
    ¬ Used h t i ∧ (i < idx ∨ idx + nr ≤ i) := by
  unfold Planned at hp
  unfold Used at *
  split_ifs at * <;> omega

theorem write_eq {off : Int} {bytes : Bytes} (hlimit : off + bytes.length ≤ q.limit) :
    q.write off bytes = .ok { q with nodes := store q.nodes off bytes } := if_pos hlimit

/-- The header and the data are written into the nodes of the message. -/
theorem putWrite_spec (hs : q.Sized) {idx : Int} {data : Bytes} (now : Timeval)
    (hidx : 0 ≤ idx) (hlen : 1 ≤ (data.length : Int) ∧ (data.length : Int) ≤ maxSqDataLength)
    (hend : idx + need q.width data.length ≤ q.ele_count) :
    ∃ mem, q.putWrite idx data now = .ok { q with nodes := mem } ∧
      Stored q.width mem idx data ∧
      ∀ a, a / q.width < idx ∨ idx + need q.width data.length ≤ a / q.width →
        mem a = q.nodes a := by
  have hw := hs.width_pos
  obtain ⟨hone, hfit⟩ := need_fits hw hlen.1
  have hlimit : (idx + need q.width data.length) * q.width ≤ q.limit :=
    hs.mul_width_le (by omega)
  have hblocks : idx * q.width + (24 + data.length) ≤
      (idx + need q.width data.length) * q.width := by
    rw [Int.add_mul]
    omega
  have htoken : (leBytes 4 startToken).length = 4 := length_leBytes 4 startToken
  have hdatalen : (leBytes 4 data.length).length = 4 := length_leBytes 4 data.length
  have htime := now.length_eq
  refine ⟨store (store (store (store q.nodes (idx * q.width) (leBytes 4 startToken))
    (idx * q.width + 4) (leBytes 4 data.length)) (idx * q.width + 8) now.bytes)
    (idx * q.width + 24) data, ?_, ?_, ?_⟩
  · simp only [putWrite, hs.nodePtr_eq ⟨hidx, by omega⟩, ok_bind, write, htoken, hdatalen, htime]
    rw [if_pos (by omega), ok_bind, if_pos (by dsimp only; omega), ok_bind,
      if_pos (by dsimp only; omega), ok_bind, if_pos (by dsimp only; omega)]
  · exact {
      token := by
        rw [Token, slice_store_disjoint (by omega), slice_store_disjoint (by omega),
          slice_store_disjoint (by omega)]
        have hself := slice_store_self q.nodes (idx * q.width) (leBytes 4 startToken)
        rw [htoken] at hself
        exact hself
      datalen := by
        rw [slice_store_disjoint (by omega), slice_store_disjoint (by omega)]
        have hself := slice_store_self
          (store q.nodes (idx * q.width) (leBytes 4 startToken)) (idx * q.width + 4)
          (leBytes 4 data.length)
        rw [hdatalen] at hself
        exact hself
      data := slice_store_self _ _ _
      nonempty := hlen.1
      short := hlen.2 }
  · intro a ha
    have hother : ∀ mem off bytes, idx * q.width ≤ off →
        off + (bytes : Bytes).length ≤ idx * q.width + (24 + data.length) →
        store mem off bytes a = mem a := by
      intro mem off bytes hge hle
      exact store_other_block hw hge (by omega) ha
    rw [hother _ _ _ (by omega) (by omega), hother _ _ _ (by omega) (by omega),
      hother _ _ _ (by omega) (by omega), hother _ _ _ (by omega) (by omega)]

theorem Layout.put {idx new_tail : Int} (hw : 0 < w) (hl : Layout c w mem h t e ms)
    (hp : Planned c h t (need w m.length) idx new_tail) (hs : Stored w mem idx m)
    (ht : t ≤ c) (hskip : new_tail < t → ∀ i, t ≤ i → i ≤ c → ¬ Token w mem i) :
    Layout c w mem h new_tail (if new_tail < t then t else e) (ms ++ [m]) := by
  have hone := hs.need_pos hw
  rcases hp with ⟨rfl, rfl, hle, hroom⟩ | ⟨rfl, rfl, hle, hroom, -⟩
  · rw [if_neg (by omega)]
    rcases hl with ⟨hht, hc⟩ | ⟨hlt, ms1, ms2, rfl, hne, hc1, he, hnone, hc2⟩
    · exact .inl ⟨by omega, hc.concat hs⟩
    · refine .inr ⟨by omega, ms1, ms2 ++ [m], List.append_assoc _ _ _, ?_, hc1, he, hnone,
        hc2.concat hs⟩
      exact List.append_ne_nil_of_right_ne_nil _ (List.cons_ne_nil m [])
  · -- The tail wraps around: what was behind it is skipped.
    rw [if_pos (by omega)]
    rcases hl with ⟨-, hc⟩ | ⟨hlt, -⟩
    · refine .inr ⟨hroom, ms, [m], rfl, List.cons_ne_nil m [], hc, ht, hskip (by omega), hs, ?_⟩
      rw [Int.zero_add]
      rfl
    · omega

theorem Layout.write {nr idx new_tail : Int} (hw : 4 ≤ w) (hl : Layout c w mem h t e ms)
    (hp : Planned c h t nr idx new_tail)
    (hmem : ∀ a, a / w < idx ∨ idx + nr ≤ a / w → mem' a = mem a)
    (hh : 0 ≤ h ∧ h ≤ c) (ht : 0 ≤ t ∧ t ≤ c) : Layout c w mem' h t e ms := by
  obtain ⟨hidx, hend, hfree⟩ := hp.free ht hh.2
  apply hl.congr_used hw ?_ hh.1 ht.2
  intro a h1 h2 hused
  symm
  apply hmem
  by_contra hin
  exact hfree (a / w) (by omega) (by omega) hused

/-! ### Getting a message -/

/-- The head has moved on from `h`, not past the tail. -/
def Advanced (c h t new_head : Int) : Prop :=
  if h ≤ t then h ≤ new_head ∧ new_head ≤ t
  else h ≤ new_head ∧ new_head ≤ c ∨ 0 ≤ new_head ∧ new_head ≤ t

/-- The first message is at node `p`; its last node is before `new_head`. -/
structure Front (c w : Int) (mem : Int → UInt8) (h t e : Int) (m : Bytes) (ms : List Bytes)
    (p new_head : Int) : Prop where
  stored : Stored w mem p m
  new_head_eq : new_head = p + need w m.length
  range : 0 ≤ p ∧ new_head ≤ c
  advanced : Advanced c h t new_head
  read : ∀ i, p ≤ i → i < new_head → Used h new_head i
  tokens : ∀ i, i ≤ c → Used h new_head i → Token w mem i → i < new_head
  rest : Layout c w mem new_head t e ms

/-- The first message is where the head is, or behind nodes that were skipped. -/
theorem Layout.front (hw : 0 < w) (hh : 0 ≤ h) (ht : 0 ≤ t ∧ t ≤ c)
    (hl : Layout c w mem h t e (m :: ms)) :
    Front c w mem h t e m ms h (h + need w m.length) ∨
      t < h ∧ need w m.length ≤ t ∧ (∀ i, h ≤ i → i ≤ c → ¬ Token w mem i) ∧
        Front c w mem h t e m ms 0 (need w m.length) := by
  rcases hl with ⟨hle, hc⟩ | ⟨hlt, ms1, ms2, hms, hne, hc1, he, hskip, hc2⟩
  · obtain ⟨hs, hrest⟩ := hc
    have hone := hs.need_pos hw
    have hend := hrest.le hw
    refine .inl ⟨hs, rfl, ⟨hh, by omega⟩, ?_, ?_, ?_, .inl ⟨hend, hrest⟩⟩
    · rw [Advanced, if_pos hle]
      omega
    · intro i h1 h2
      rw [Used, if_pos (by omega)]
      exact ⟨h1, h2⟩
    · intro i _ hused _
      rw [Used, if_pos (by omega)] at hused
      exact hused.2
  · cases ms1 with
    | cons m' ms1 =>
      obtain ⟨rfl, rfl⟩ := List.cons.inj hms
      obtain ⟨hs, hrest⟩ := hc1
      have hone := hs.need_pos hw
      have hend := hrest.le hw
      refine .inl ⟨hs, rfl, ⟨hh, by omega⟩, ?_, ?_, ?_,
        .inr ⟨by omega, ms1, ms2, rfl, hne, hrest, he, hskip, hc2⟩⟩
      · rw [Advanced, if_neg (by omega)]
        omega
      · intro i h1 h2
        rw [Used, if_pos (by omega)]
        exact ⟨h1, h2⟩
      · intro i _ hused _
        rw [Used, if_pos (by omega)] at hused
        exact hused.2
    | nil =>
      cases hc1
      rw [List.nil_append] at hms
      subst hms
      obtain ⟨hs, hrest⟩ := hc2
      rw [Int.zero_add] at hrest
      have hone := hs.need_pos hw
      have hend := hrest.le hw
      refine .inr ⟨hlt, hend, hskip, hs, (Int.zero_add _).symm, ⟨Int.le_refl 0, by omega⟩, ?_, ?_,
        ?_, .inl ⟨hend, hrest⟩⟩
      · rw [Advanced, if_neg (by omega)]
        omega
      · intro i h1 h2
        rw [Used, if_neg (by omega)]
        exact .inr h2
      · intro i hi hused htok
        rw [Used, if_neg (by omega)] at hused
        exact hused.resolve_left fun hge => hskip i hge hi htok

theorem Layout.eq_of_nil (hl : Layout c w mem h t e []) : h = t := by
  rcases hl with ⟨-, hc⟩ | ⟨-, ms1, ms2, hms, hne, -⟩
  · exact hc
  · exact absurd (List.append_eq_nil_iff.mp hms.symm).2 hne

theorem readU32_eq {off : Int} (hlimit : off + 4 ≤ q.limit) :
    q.readU32 off = .ok (leVal (slice q.nodes off 4)) := by
  rw [readU32, SqHead.read, if_pos ⟨by decide, hlimit⟩, ok_bind]
  rfl

theorem leVal_token : leVal (slice mem (p * w) 4) = startToken ↔ Token w mem p := by
  have hlen := length_slice mem (p * w) 4
  constructor
  · intro hval
    have hbytes := leBytes_leVal (slice mem (p * w) 4)
    rw [hlen, hval] at hbytes
    exact hbytes.symm
  · intro htoken
    rw [htoken, leVal_leBytes]
    rfl

theorem scan_skip (hs : q.Sized) (fuel : Nat) (hp : q.Pos p) (htail : q.tail_pos ≠ p)
    (htoken : ¬ Token q.width q.nodes p) :
    q.scan (fuel + 1) p =
      q.scan fuel (if p + 1 ≤ q.ele_count then p + 1 else p + 1 - (q.ele_count + 1)) := by
  have hw := hs.width_pos
  have hsize := hs.size_ge
  have hlimit : p * q.width + 4 ≤ q.limit := by
    have hle := hs.mul_width_le (p := p + 1) (by have := hp.2; omega)
    rw [Int.add_mul] at hle
    unfold width at *
    omega
  have hone : 0 ≤ (1 : Int) ∧ 1 ≤ q.ele_count := ⟨by decide, hs.count_ge⟩
  rw [scan, if_neg htail, hs.nodePtr_eq hp, ok_bind, readU32_eq hlimit, ok_bind,
    if_pos (fun hval => htoken (leVal_token.mp hval)), hs.addPos_eq hp hone, ok_bind]

theorem scan_skip_end (hs : q.Sized) (fuel n : Nat) (hp : 0 ≤ p) (hn : p + n = q.ele_count + 1)
    (htail : q.tail_pos < p)
    (htoken : ∀ i, p ≤ i → i ≤ q.ele_count → ¬ Token q.width q.nodes i) :
    q.scan (fuel + n) p = if n = 0 then q.scan fuel p else q.scan fuel 0 := by
  induction n generalizing p with
  | zero => rfl
  | succ n ih =>
    have hskip := scan_skip hs (fuel + n) (p := p) ⟨hp, by omega⟩ (by omega)
      (htoken p (Int.le_refl p) (by omega))
    rw [← Nat.add_assoc, hskip, if_neg (Nat.succ_ne_zero n)]
    by_cases hlast : p + 1 ≤ q.ele_count
    · rw [if_pos hlast, ih (by omega) (by omega) (by omega)
        (fun i h1 h2 => htoken i (by omega) h2), if_neg (by omega)]
    · have hn0 : n = 0 := by omega
      have hzero : p + 1 - (q.ele_count + 1) = 0 := by omega
      rw [if_neg hlast, hzero, hn0, Nat.add_zero]

theorem scan_found (hs : q.Sized) (fuel : Nat) (ht : q.Pos q.tail_pos) {m : Bytes}
    (hstored : Stored q.width q.nodes p m) (hp : q.Pos p) (htail : q.tail_pos ≠ p)
    (hend : p + need q.width m.length ≤ q.ele_count)
    (hused : p ≤ q.tail_pos → p + need q.width m.length ≤ q.tail_pos) :
    q.scan (fuel + 1) p = .ok (.found p m.length (p + need q.width m.length)) := by
  have hw := hs.width_pos
  have hsize := hs.size_ge
  have hlimit : p * q.width + 8 ≤ q.limit := by
    have hle := hs.mul_width_le (p := p + 1) (by have := hp.2; omega)
    rw [Int.add_mul] at hle
    unfold width at *
    omega
  have hone := hstored.need_pos hw
  have hlen : 1 ≤ (m.length : Int) ∧ (m.length : Int) ≤ maxSqDataLength :=
    ⟨hstored.nonempty, hstored.short⟩
  have hdatalen : castInt32 (leVal (slice q.nodes (p * q.width + 4) 4)) = m.length := by
    have hmax : (m.length : Int) ≤ 65536 := hstored.short
    rw [hstored.datalen, leVal_leBytes, Nat.mod_eq_of_lt (by omega)]
    exact castInt32_ok (by omega)
  have hp1 := hp.2
  have ht0 := ht.1
  rw [scan, if_neg htail, hs.nodePtr_eq hp, ok_bind, readU32_eq (by omega), ok_bind,
    if_neg (not_not.mpr (leVal_token.mpr hstored.token)), readU32_eq (by omega), ok_bind]
  simp only [hdatalen, hs.numNeededNodes_eq hlen, hs.usedNodes2_eq hp ht, ok_bind]
  rw [if_neg (by split <;> omega), hs.addPos_eq hp (by have := hp.1; omega), if_pos hend]
  rfl

theorem scan_front (hs : q.Sized) (hh : q.Pos q.head_pos) (ht : q.Pos q.tail_pos)
    (hl : Layout q.ele_count q.width q.nodes q.head_pos q.tail_pos e (m :: ms)) :
    ∃ p new_head, q.scan q.fuel q.head_pos = .ok (.found p m.length new_head) ∧
      Front q.ele_count q.width q.nodes q.head_pos q.tail_pos e m ms p new_head := by
  have hw := hs.width_pos
  have hcount := hs.count_ge
  rcases hl.front hw hh.1 ht with hfront | ⟨hlt, hend, hskip, hfront⟩
  · obtain ⟨fuel, hfuel⟩ : ∃ fuel, q.fuel = fuel + 1 := ⟨q.fuel - 1, by unfold SqHead.fuel; omega⟩
    have hone := hfront.stored.need_pos hw
    have hadv := hfront.advanced
    have hrange := hfront.range
    unfold Advanced at hadv
    rw [hfuel]
    refine ⟨_, _, scan_found hs fuel ht hfront.stored hh ?_ hfront.range.2 ?_, hfront⟩
    · split at hadv <;> omega
    · intro hle
      rw [if_pos hle] at hadv
      omega
  · obtain ⟨h0, h1⟩ := hh
    obtain ⟨n, hn⟩ : ∃ n : Nat, q.head_pos + n = q.ele_count + 1 :=
      ⟨(q.ele_count + 1 - q.head_pos).toNat, by omega⟩
    obtain ⟨fuel, hfuel⟩ : ∃ fuel, q.fuel = fuel + 1 + n :=
      ⟨q.fuel - 1 - n, by have := ht.1; unfold SqHead.fuel; omega⟩
    have hone := hfront.stored.need_pos hw
    have hrange := hfront.range
    have hskipped := scan_skip_end hs (fuel + 1) n h0 hn hlt hskip
    rw [if_neg (by omega)] at hskipped
    have hfound := scan_found hs fuel ht hfront.stored ⟨Int.le_refl 0, by omega⟩ (by omega)
      (by omega) (by omega)
    rw [Int.zero_add] at hfound
    rw [hfuel, hskipped, hfound]
    exact ⟨_, _, rfl, hfront⟩

/-! ### Clearing the tokens -/

theorem SqHead.Sized.withNodes (hs : q.Sized) (mem : Int → UInt8) :
    ({ q with nodes := mem } : SqHead).Sized :=
  ⟨hs.size_ge, hs.size_le, hs.count_ge, hs.count_lt, hs.limit_ge⟩

theorem clearToken_spec (hs : q.Sized) (hp : q.Pos p) :
    ∃ mem, q.clearToken p = .ok { q with nodes := mem } ∧ ¬ Token q.width mem p ∧
      ∀ a, a / q.width ≠ p → mem a = q.nodes a := by
  have hw := hs.width_pos
  have hsize := hs.size_ge
  have hzero : (leBytes 4 0).length = 4 := length_leBytes 4 0
  have hfit : p * q.width + 4 ≤ (p + 1) * q.width := by
    rw [Int.add_mul]
    unfold width
    omega
  have hlimit : (p + 1) * q.width ≤ q.limit := hs.mul_width_le (by have := hp.2; omega)
  refine ⟨store q.nodes (p * q.width) (leBytes 4 0), ?_, ?_, ?_⟩
  · rw [clearToken, hs.nodePtr_eq hp, ok_bind, write_eq (by rw [hzero]; omega)]
  · intro htoken
    have hself := slice_store_self q.nodes (p * q.width) (leBytes 4 0)
    rw [hzero, htoken] at hself
    exact absurd hself (by decide)
  · intro a ha
    exact store_other_block hw (Int.le_refl _) (by rw [hzero]; exact hfit) (by omega)

theorem used_step {old new : Int} (hne : old ≠ new) (hold : 0 ≤ old ∧ old ≤ c)
    (hnew : 0 ≤ new ∧ new ≤ c) (hi : 0 ≤ i ∧ i ≤ c) :
    Used old new i ↔
      i = old ∨ Used (if old + 1 ≤ c then old + 1 else old + 1 - (c + 1)) new i := by
  unfold Used
  split_ifs <;> omega

/-- All tokens of the range are cleared, and nothing else is touched. -/
theorem clearTokens_spec {old new : Int} (n fuel : Nat) (hs : q.Sized) (hold : q.Pos old)
    (hnew : q.Pos new)
    (hn : if old ≤ new then old + n = new else old + n = new + (q.ele_count + 1)) :
    ∃ mem, q.clearTokens (fuel + n + 1) old new = .ok { q with nodes := mem } ∧
      (∀ i, q.Pos i → Used old new i → ¬ Token q.width mem i) ∧
      ∀ a, q.Pos (a / q.width) → ¬ Used old new (a / q.width) → mem a = q.nodes a := by
  induction n generalizing q old with
  | zero =>
    obtain ⟨h0, h1⟩ := hold
    obtain ⟨h2, h3⟩ := hnew
    have heq : old = new := by split at hn <;> omega
    subst heq
    refine ⟨q.nodes, ?_, ?_, fun a _ _ => rfl⟩
    · rw [clearTokens, if_pos rfl]
      rfl
    · intro i _ hused
      rw [Used, if_pos (Int.le_refl _)] at hused
      omega
  | succ n ih =>
    have hne : old ≠ new := by
      obtain ⟨h0, h1⟩ := hold
      obtain ⟨h2, h3⟩ := hnew
      split at hn <;> omega
    obtain ⟨mem, hclear, htoken, hother⟩ := clearToken_spec hs hold
    have hone : 0 ≤ (1 : Int) ∧ 1 ≤ q.ele_count := ⟨by decide, hs.count_ge⟩
    have hadd : ({ q with nodes := mem } : SqHead).addPos old 1 = _ :=
      (hs.withNodes mem).addPos_eq hold hone
    obtain ⟨hnext, hdist⟩ : q.Pos (if old + 1 ≤ q.ele_count then old + 1
          else old + 1 - (q.ele_count + 1)) ∧
        (if (if old + 1 ≤ q.ele_count then old + 1 else old + 1 - (q.ele_count + 1)) ≤ new then
          (if old + 1 ≤ q.ele_count then old + 1 else old + 1 - (q.ele_count + 1)) + n = new
        else (if old + 1 ≤ q.ele_count then old + 1 else old + 1 - (q.ele_count + 1)) + n =
          new + (q.ele_count + 1)) := by
      obtain ⟨h0, h1⟩ := hold
      obtain ⟨h2, h3⟩ := hnew
      have hcount := hs.count_ge
      unfold Pos
      split_ifs at hn ⊢ <;> omega
    obtain ⟨mem', hrun, hcleared, hrest⟩ := ih (hs.withNodes mem) hnext hnew hdist
    have hkept : ∀ a, q.Pos (a / q.width) → ¬ Used (if old + 1 ≤ q.ele_count then old + 1
        else old + 1 - (q.ele_count + 1)) new (a / q.width) → mem' a = mem a := hrest
    refine ⟨mem', ?_, ?_, ?_⟩
    · rw [← Nat.add_assoc, clearTokens, if_neg hne, hclear, ok_bind, hadd, ok_bind]
      exact hrun
    · intro i hi hused htok
      rcases (used_step hne hold hnew hi).mp hused with rfl | hrest
      · by_cases hagain : Used (if i + 1 ≤ q.ele_count then i + 1
            else i + 1 - (q.ele_count + 1)) new i
        · exact hcleared i hi hagain htok
        · refine htoken (htok.congr ?_ ?_)
          · have hsize := hs.size_ge
            unfold width
            omega
          · intro a ha
            exact hkept a (by rw [ha]; exact hi) (by rw [ha]; exact hagain)
      · exact hcleared i hi hrest htok
    · intro a hpos hnot
      have hstep := used_step hne hold hnew hpos
      have hnext' := fun hu => hnot (hstep.mpr (.inr hu))
      have hneq : a / q.width ≠ old := fun he => hnot (hstep.mpr (.inl he))
      exact (hkept a hpos hnext').trans (hother a hneq)

/-! ### `sq_get` -/

theorem Advanced.disjoint {new : Int} (hadv : Advanced c h t new)
    (hused : Used new t i) : ¬ Used h new i := by
  unfold Advanced at hadv
  unfold Used at *
  split_ifs at * <;> omega

theorem Advanced.free {new : Int} (hadv : Advanced c h t new)
    (hfree : ¬ Used new t i) : Used h new i ∨ ¬ Used h t i := by
  unfold Advanced at hadv
  unfold Used at *
  split_ifs at * <;> omega

theorem Advanced.pos {new : Int} (hadv : Advanced c h t new) (hh : 0 ≤ h) (ht : t ≤ c) :
    0 ≤ new ∧ new ≤ c := by
  unfold Advanced at hadv
  split_ifs at hadv <;> omega

theorem scan_empty (ht : q.head_pos = q.tail_pos) (hs : q.Sized) :
    q.scan q.fuel q.head_pos = .ok (.atTail q.head_pos) := by
  obtain ⟨fuel, hfuel⟩ : ∃ fuel, q.fuel = fuel + 1 :=
    ⟨q.fuel - 1, by have := hs.count_ge; unfold SqHead.fuel; omega⟩
  rw [hfuel, scan, if_pos ht.symm]
  rfl

theorem sqGet_empty (hs : q.Sized)
    (hl : Layout q.ele_count q.width q.nodes q.head_pos q.tail_pos e []) {buf_sz : Int}
    (hbuf : 1 ≤ buf_sz) : q.sqGet buf_sz = .ok (⟨0, [], none⟩, q) := by
  rw [sqGet, if_neg (by omega), getLoop, scan_empty hl.eq_of_nil hs, ok_bind]
  simp only [ne_eq, not_true_eq_false, if_false]
  rfl

theorem clearTokens_read {new : Int} (hs : q.Sized) (hh : q.Pos q.head_pos) (hnew : q.Pos new) :
    ∃ mem, ({ q with head_pos := new } : SqHead).clearTokens q.fuel q.head_pos new =
        .ok { q with head_pos := new, nodes := mem } ∧
      (∀ i, q.Pos i → Used q.head_pos new i → ¬ Token q.width mem i) ∧
      ∀ a, q.Pos (a / q.width) → ¬ Used q.head_pos new (a / q.width) → mem a = q.nodes a := by
  have hs' : ({ q with head_pos := new } : SqHead).Sized :=
    ⟨hs.size_ge, hs.size_le, hs.count_ge, hs.count_lt, hs.limit_ge⟩
  obtain ⟨h0, h1⟩ := hh
  obtain ⟨h2, h3⟩ := hnew
  obtain ⟨n, hn⟩ : ∃ n : Nat, if q.head_pos ≤ new then q.head_pos + n = new
      else q.head_pos + n = new + (q.ele_count + 1) := by
    by_cases hle : q.head_pos ≤ new
    · exact ⟨(new - q.head_pos).toNat, by rw [if_pos hle]; omega⟩
    · exact ⟨(new + (q.ele_count + 1) - q.head_pos).toNat, by rw [if_neg hle]; omega⟩
  obtain ⟨fuel, hfuel⟩ : ∃ fuel, q.fuel = fuel + n + 1 :=
    ⟨q.fuel - n - 1, by unfold SqHead.fuel; split at hn <;> omega⟩
  have hold : ({ q with head_pos := new } : SqHead).Pos q.head_pos := ⟨h0, h1⟩
  obtain ⟨mem, hrun, hcleared, hkept⟩ := clearTokens_spec n fuel hs' hold ⟨h2, h3⟩ hn
  rw [hfuel]
  exact ⟨mem, hrun, hcleared, hkept⟩

/-- The first message is returned, or reported as too long; its tokens are cleared only if it is
returned. -/
theorem sqGet_front (hs : q.Sized) (hh : q.Pos q.head_pos) (ht : q.Pos q.tail_pos)
    (hl : Layout q.ele_count q.width q.nodes q.head_pos q.tail_pos e (m :: ms)) {buf_sz : Int}
    (hbuf : 1 ≤ buf_sz) :
    ∃ new mem time, q.sqGet buf_sz =
        .ok (if buf_sz < m.length then ⟨-2, [], some time⟩ else ⟨m.length, m, some time⟩,
          { q with head_pos := new, nodes := mem }) ∧
      Advanced q.ele_count q.head_pos q.tail_pos new ∧
      Layout q.ele_count q.width mem new q.tail_pos e ms ∧
      (¬ buf_sz < m.length → ∀ i, q.Pos i → Used q.head_pos new i → ¬ Token q.width mem i) ∧
      ∀ a, q.Pos (a / q.width) → ¬ Used q.head_pos new (a / q.width) → mem a = q.nodes a := by
  have hw := hs.width_pos
  have hsize := hs.size_ge
  obtain ⟨p, new, hscan, hfront⟩ := scan_front hs hh ht hl
  have hpos : q.Pos p := by
    have hone := hfront.stored.need_pos hw
    have heq := hfront.new_head_eq
    have hrange := hfront.range
    exact ⟨hrange.1, by omega⟩
  have hnew : q.Pos new := hfront.advanced.pos hh.1 ht.2
  have hlimit : p * q.width + (24 + m.length) ≤ q.limit := by
    have hfit := (need_fits hw hfront.stored.nonempty).2
    have hle := hs.mul_width_le (p := p + need q.width m.length)
      (by have h1 := hfront.range.2; have h2 := hfront.new_head_eq; omega)
    rw [Int.add_mul] at hle
    omega
  have hs' : ({ q with head_pos := new } : SqHead).Sized :=
    ⟨hs.size_ge, hs.size_le, hs.count_ge, hs.count_lt, hs.limit_ge⟩
  have hptr : ({ q with head_pos := new } : SqHead).nodePtr p = .ok (p * q.width) :=
    hs'.nodePtr_eq hpos
  have htime : ({ q with head_pos := new } : SqHead).read (p * q.width + 8) 16 =
      .ok (slice q.nodes (p * q.width + 8) 16) := if_pos ⟨by decide, by dsimp only; omega⟩
  have hdata : ({ q with head_pos := new } : SqHead).read (p * q.width + 24) m.length = .ok m := by
    rw [SqHead.read, if_pos ⟨by omega, by dsimp only; omega⟩, Int.toNat_natCast]
    exact congrArg Except.ok hfront.stored.data
  have hcas : q.cas q.head_pos new = some { q with head_pos := new } := if_pos rfl
  rw [sqGet, if_neg (by omega), getLoop, hscan, ok_bind]
  simp only [hcas, hptr, ok_bind, htime]
  by_cases hlong : buf_sz < m.length
  · rw [if_pos hlong]
    simp only [if_pos hlong]
    refine ⟨new, q.nodes, _, rfl, hfront.advanced, hfront.rest, fun h => absurd hlong h, ?_⟩
    intro a _ _
    rfl
  · rw [if_neg hlong, hdata, ok_bind]
    simp only [if_neg hlong]
    obtain ⟨mem, hrun, hcleared, hkept⟩ := clearTokens_read hs hh hnew
    refine ⟨new, mem, _, by
      have hfuel : ({ q with head_pos := new } : SqHead).fuel = q.fuel := rfl
      rw [hfuel, hrun]
      rfl, hfront.advanced, ?_, fun _ => hcleared, hkept⟩
    apply hfront.rest.congr_used hs.width_ge ?_ hnew.1 ht.2
    intro a h1 h2 hused
    exact (hkept a ⟨h1, h2⟩ (hfront.advanced.disjoint hused)).symm

end TstMuduo.ShmQueue
