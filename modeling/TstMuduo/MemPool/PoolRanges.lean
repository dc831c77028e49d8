import Mathlib.Data.List.Pairwise
import TstMuduo.MemPool.Palloc

/-!
# Where the allocations of a pool lie (examples/tst_memleak/nmx_palloc.cpp)

The fit test of `nmx_palloc` compares the requested size with what is left behind the
aligned-up `last`. Where that address lies behind the end of the block the difference wraps
and the test succeeds.
-/

namespace TstMuduo.MemPool
open TstMuduo.Lib

/-! ### Aligned addresses -/

theorem nmxAlignPtr_mod (p : Nat) : nmxAlignPtr p % 16 = 0 := Nat.mul_mod_left _ _

theorem le_nmxAlignPtr (p : Nat) : p ≤ nmxAlignPtr p := by
  unfold nmxAlignPtr NMX_POOL_ALIGNMENT
  omega

theorem nmxAlignPtr_lt (p : Nat) : nmxAlignPtr p < p + 16 := by
  unfold nmxAlignPtr NMX_POOL_ALIGNMENT
  omega

theorem nmxAlignPtr_of_mod {p : Nat} (h : p % 16 = 0) : nmxAlignPtr p = p := by
  unfold nmxAlignPtr NMX_POOL_ALIGNMENT
  omega

theorem sizeDiff_of_le {p q : Nat} (h : q ≤ p) (hlt : p - q < 2 ^ 64) : sizeDiff p q = p - q := by
  unfold sizeDiff
  rw [Int.emod_eq_of_lt (by omega) (by omega)]
  omega

theorem sizeDiff_of_lt {p q : Nat} (h : p < q) (hlt : q < p + 16) : 2 ^ 64 - 16 < sizeDiff p q := by
  unfold sizeDiff
  have hmod : ((p : Int) - q) % 2 ^ 64 = p - q + 2 ^ 64 := by
    rw [← Int.add_emod_right, Int.emod_eq_of_lt (by omega) (by omega)]
  rw [hmod]
  omega

/-! ### Blocks -/

def Block.view (b : Block) : Block := { b with failed := 0 }

structure Block.Ok (psize : Nat) (b : Block) : Prop where
  aligned : b.base % 16 = 0
  header_ge : sizeofPoolData ≤ b.header
  header_le : b.header ≤ sizeofPool
  endd : b.endd = b.base + psize
  last_ge : b.base + b.header ≤ b.last
  last_le : b.last ≤ b.endd

theorem Block.of_view_eq {b c : Block} (h : b.view = c.view) :
    b.base = c.base ∧ b.header = c.header ∧ b.last = c.last ∧ b.endd = c.endd := by
  simp only [Block.view, Block.mk.injEq] at h
  exact ⟨h.1, h.2.1, h.2.2.1, h.2.2.2.1⟩

theorem Block.Ok.of_view {psize : Nat} {b c : Block} (h : b.Ok psize) (hv : c.view = b.view) :
    c.Ok psize := by
  obtain ⟨hbase, hheader, hlast, hend⟩ := Block.of_view_eq hv
  exact ⟨by rw [hbase]; exact h.aligned, by rw [hheader]; exact h.header_ge,
    by rw [hheader]; exact h.header_le, by rw [hend, hbase]; exact h.endd,
    by rw [hbase, hheader, hlast]; exact h.last_ge, by rw [hlast, hend]; exact h.last_le⟩

theorem countFailed_view (l : List Block) (i current : Nat) :
    (countFailed i current l).1.map Block.view = l.map Block.view := by
  induction l generalizing i current with
  | nil => rfl
  | cons b rest ih =>
    unfold countFailed
    split
    next hrest => rw [hrest]
    · rw [List.map_cons, List.map_cons, ih]
      rfl

theorem countFailed_current {l : List Block} {i current : Nat} (h : current < i + l.length) :
    (countFailed i current l).2 < i + l.length := by
  induction l generalizing i current with
  | nil => exact h
  | cons b rest ih =>
    unfold countFailed
    split
    · exact h
    next hrest =>
      have hpos := List.length_pos_iff.mpr hrest
      rw [List.length_cons] at h ⊢
      have hlt : ∀ next, next < i + 1 + rest.length →
          (countFailed (i + 1) next rest).2 < i + (rest.length + 1) := by
        intro next hnext
        have hle := ih hnext
        omega
      refine hlt _ ?_
      split
      · omega
      · omega

theorem takeFrom_some {aligned : Bool} {n m : Nat} {l l' : List Block}
    (h : takeFrom aligned n l = some (m, l')) :
    ∃ before b after, l = before ++ b :: after ∧
      l' = before ++ { b with last := m + n } :: after ∧ m = b.start aligned ∧
      n ≤ sizeDiff b.endd m := by
  induction l generalizing l' with
  | nil => cases h
  | cons b rest ih =>
    simp only [takeFrom] at h
    split at h
    next hfit =>
      cases h
      exact ⟨[], b, rest, rfl, rfl, rfl, hfit⟩
    · obtain ⟨r, hr, he⟩ := Option.map_eq_some_iff.mp h
      cases he
      obtain ⟨before, c, after, hl, hl', hm, hfit⟩ := ih hr
      exact ⟨b :: before, c, after, by rw [hl]; rfl, by rw [hl']; rfl, hm, hfit⟩

/-- Of the blocks that the loop of `nmx_palloc` reaches none has its aligned-up `last` behind
its end; a block with room for `n` bytes ends the loop. -/
def NoOvershoot (n : Nat) : List Block → Prop
  | [] => True
  | b :: rest => nmxAlignPtr b.last ≤ b.endd ∧
    (b.endd < nmxAlignPtr b.last + n → NoOvershoot n rest)

instance decidableNoOvershoot (n : Nat) : (l : List Block) → Decidable (NoOvershoot n l)
  | [] => isTrue trivial
  | b :: rest =>
    have := decidableNoOvershoot n rest
    inferInstanceAs (Decidable (nmxAlignPtr b.last ≤ b.endd ∧
      (b.endd < nmxAlignPtr b.last + n → NoOvershoot n rest)))

theorem takeFrom_aligned {psize n m : Nat} {l l' : List Block} (hsize : psize < 2 ^ 64)
    (hok : ∀ b ∈ l, b.Ok psize) (hno : NoOvershoot n l) (h : takeFrom true n l = some (m, l')) :
    ∃ before b after, l = before ++ b :: after ∧
      l' = before ++ { b with last := m + n } :: after ∧ m = nmxAlignPtr b.last ∧
      m + n ≤ b.endd := by
  induction l generalizing l' with
  | nil => cases h
  | cons b rest ih =>
    obtain ⟨hle, hrest⟩ := hno
    have hb := hok b List.mem_cons_self
    have hend := hb.endd
    have hge := hb.last_ge
    have hlast := le_nmxAlignPtr b.last
    have hdiff : sizeDiff b.endd (nmxAlignPtr b.last) = b.endd - nmxAlignPtr b.last :=
      sizeDiff_of_le hle (by omega)
    simp only [takeFrom, Block.start, if_true, hdiff] at h
    split at h
    next hfit =>
      cases h
      exact ⟨[], b, rest, rfl, rfl, rfl, by omega⟩
    next hfit =>
      obtain ⟨r, hr, he⟩ := Option.map_eq_some_iff.mp h
      cases he
      obtain ⟨before, c, after, hl, hl', hm, hroom⟩ :=
        ih (fun d hd => hok d (List.mem_cons_of_mem _ hd)) (hrest (by omega)) hr
      exact ⟨b :: before, c, after, by rw [hl]; rfl, by rw [hl']; rfl, hm, hroom⟩

theorem takeFrom_overshoot {psize n : Nat} {l : List Block} (hsize : psize < 2 ^ 64)
    (hn : n < 2 ^ 31) (hok : ∀ b ∈ l, b.Ok psize) (hno : ¬ NoOvershoot n l) :
    ∃ before b after, l = before ++ b :: after ∧ b.endd < nmxAlignPtr b.last ∧
      takeFrom true n l = some (nmxAlignPtr b.last,
        before ++ { b with last := nmxAlignPtr b.last + n } :: after) := by
  induction l with
  | nil => exact absurd trivial hno
  | cons b rest ih =>
    have hb := hok b List.mem_cons_self
    have hend := hb.endd
    have hge := hb.last_ge
    have hle := hb.last_le
    have hlast := le_nmxAlignPtr b.last
    have hlt := nmxAlignPtr_lt b.last
    by_cases hover : b.endd < nmxAlignPtr b.last
    · have hwrap := sizeDiff_of_lt hover (by omega)
      refine ⟨[], b, rest, rfl, hover, ?_⟩
      simp only [takeFrom, Block.start, if_true]
      rw [if_pos (by omega)]
      rfl
    · have hdiff : sizeDiff b.endd (nmxAlignPtr b.last) = b.endd - nmxAlignPtr b.last :=
        sizeDiff_of_le (by omega) (by omega)
      have hnofit : ¬ n ≤ b.endd - nmxAlignPtr b.last := by
        intro hfit
        exact hno ⟨by omega, fun h => by omega⟩
      have hrest : ¬ NoOvershoot n rest := fun h => hno ⟨by omega, fun _ => h⟩
      obtain ⟨before, c, after, hl, hc, htake⟩ :=
        ih (fun d hd => hok d (List.mem_cons_of_mem _ hd)) hrest
      refine ⟨b :: before, c, after, by rw [hl]; rfl, hc, ?_⟩
      simp only [takeFrom, Block.start, if_true, hdiff]
      rw [if_neg hnofit, htake]
      rfl

/-! ### What the calls keep -/

/-- Every small allocation lies in the used part of a block, every large one off the blocks. -/
structure Inv (psize : Nat) (s : PoolState) : Prop where
  blocks : ∀ b ∈ s.pool.blocks, b.Ok psize
  apart : s.pool.blocks.Pairwise fun b c => Apart b.base psize c.base psize
  current : s.pool.current < s.pool.blocks.length
  max_ge : sizeofPoolLarge ≤ s.pool.max
  max_le : s.pool.max + sizeofPool ≤ psize
  max_lt : s.pool.max < 2 ^ 31
  headers : ∀ l ∈ s.pool.large, l.isNone = false
  small : ∀ a ∈ s.allocs, a.kind ≠ .large →
    ∃ b ∈ s.pool.blocks, b.base + b.header ≤ a.addr ∧ a.addr + a.size ≤ b.last
  large : ∀ a ∈ s.allocs, a.kind = .large → ∀ b ∈ s.pool.blocks, Apart a.addr a.size b.base psize
  disjoint : s.allocs.Pairwise fun a c => Apart a.addr a.size c.addr c.size
  aligned : ∀ a ∈ s.allocs, a.kind = .palloc → a.addr % 16 = 0

variable {psize : Nat} {s : PoolState}

theorem Apart.symm {p n q k : Nat} (h : Apart p n q k) : Apart q k p n := Or.symm h

theorem Inv.sound (h : Inv psize s) : Sound s := by
  refine ⟨?_, h.disjoint, h.aligned⟩
  intro a ha hk
  obtain ⟨b, hb, hstart, hend⟩ := h.small a ha hk
  exact ⟨b, hb, hstart, Nat.le_trans hend (h.blocks b hb).last_le⟩

theorem Inv.blocks_apart (h : Inv psize s) {b c : Block} (hb : b ∈ s.pool.blocks)
    (hc : c ∈ s.pool.blocks) (hne : b ≠ c) : Apart b.base psize c.base psize := by
  have hsymm : Std.Symm fun b c : Block => Apart b.base psize c.base psize :=
    ⟨fun _ _ hab => hab.symm⟩
  exact h.apart.forall hb hc hne

theorem Inv.of_view (h : Inv psize s) {blocks : List Block} {current : Nat}
    (hv : blocks.map Block.view = s.pool.blocks.map Block.view) (hc : current < blocks.length) :
    Inv psize ⟨{ s.pool with blocks := blocks, current := current }, s.allocs⟩ := by
  have hback : ∀ b ∈ blocks, ∃ c ∈ s.pool.blocks, b.view = c.view := by
    intro b hb
    have hmem : b.view ∈ s.pool.blocks.map Block.view := by
      rw [← hv]
      exact List.mem_map_of_mem hb
    obtain ⟨c, hc, he⟩ := List.mem_map.mp hmem
    exact ⟨c, hc, he.symm⟩
  have hforth : ∀ c ∈ s.pool.blocks, ∃ b ∈ blocks, b.view = c.view := by
    intro c hc
    have hmem : c.view ∈ blocks.map Block.view := by
      rw [hv]
      exact List.mem_map_of_mem hc
    obtain ⟨b, hb, he⟩ := List.mem_map.mp hmem
    exact ⟨b, hb, he⟩
  refine ⟨?_, ?_, hc, h.max_ge, h.max_le, h.max_lt, h.headers, ?_, ?_, h.disjoint, h.aligned⟩
  · intro b hb
    obtain ⟨c, hc, he⟩ := hback b hb
    exact (h.blocks c hc).of_view he
  · have hmap : (blocks.map Block.view).Pairwise fun b c => Apart b.base psize c.base psize := by
      rw [hv, List.pairwise_map]
      exact h.apart
    exact List.pairwise_map.mp hmap
  · intro a ha hk
    obtain ⟨c, hc, hstart, hend⟩ := h.small a ha hk
    obtain ⟨b, hb, he⟩ := hforth c hc
    obtain ⟨hbase, hheader, hlast, _⟩ := Block.of_view_eq he
    exact ⟨b, hb, by rw [hbase, hheader]; exact hstart, by rw [hlast]; exact hend⟩
  · intro a ha hk b hb
    obtain ⟨c, hc, he⟩ := hback b hb
    rw [(Block.of_view_eq he).1]
    exact h.large a ha hk c hc

/-- A small allocation behind the used part of a block. -/
theorem Inv.cut (h : Inv psize s) {before after : List Block} {b : Block} {kind : AllocKind}
    {m n : Nat} (hb : s.pool.blocks = before ++ b :: after) (hm : b.last ≤ m)
    (hroom : m + n ≤ b.endd) (hkind : kind ≠ .large) (halign : kind = .palloc → m % 16 = 0) :
    Inv psize ⟨{ s.pool with blocks := before ++ { b with last := m + n } :: after },
      ⟨kind, m, n⟩ :: s.allocs⟩ := by
  have hmem : b ∈ s.pool.blocks := by
    rw [hb]
    simp
  have hbok := h.blocks b hmem
  have hmem' : ∀ d, d ∈ before ++ { b with last := m + n } :: after →
      d = { b with last := m + n } ∨ d ∈ s.pool.blocks := by
    intro d hd
    rw [hb]
    simp only [List.mem_append, List.mem_cons] at hd ⊢
    rcases hd with hd | hd | hd
    · exact .inr (.inl hd)
    · exact .inl hd
    · exact .inr (.inr (.inr hd))
  have hkeep : ∀ d ∈ s.pool.blocks, d ≠ b → d ∈ before ++ { b with last := m + n } :: after := by
    intro d hd hne
    rw [hb] at hd
    simp only [List.mem_append, List.mem_cons] at hd ⊢
    rcases hd with hd | hd | hd
    · exact .inl hd
    · exact absurd hd hne
    · exact .inr (.inr hd)
  have hold := hbok.last_ge
  refine ⟨?_, ?_, ?_, h.max_ge, h.max_le, h.max_lt, h.headers, ?_, ?_, ?_, ?_⟩
  · intro d hd
    rcases hmem' d hd with rfl | hd
    · exact ⟨hbok.aligned, hbok.header_ge, hbok.header_le, hbok.endd, by simp only; omega, hroom⟩
    · exact h.blocks d hd
  · have hmap : ∀ l l' : List Block, l.map Block.base = l'.map Block.base →
        (l.Pairwise fun b c => Apart b.base psize c.base psize) →
        l'.Pairwise fun b c => Apart b.base psize c.base psize := by
      intro l l' hl hp
      have hbases : (l.map Block.base).Pairwise fun x y => Apart x psize y psize :=
        List.pairwise_map.mpr hp
      rw [hl] at hbases
      exact List.pairwise_map.mp hbases
    refine hmap s.pool.blocks _ ?_ h.apart
    rw [hb]
    simp
  · have hcur := h.current
    rw [hb] at hcur
    simpa using hcur
  · intro a ha hk
    rcases List.mem_cons.mp ha with rfl | ha
    · exact ⟨{ b with last := m + n }, by simp, by simp only; omega, Nat.le_refl _⟩
    · obtain ⟨d, hd, hstart, hend⟩ := h.small a ha hk
      by_cases hdb : d = b
      · subst hdb
        exact ⟨{ d with last := m + n }, by simp, hstart, by simp only; omega⟩
      · exact ⟨d, hkeep d hd hdb, hstart, hend⟩
  · intro a ha hk d hd
    rcases List.mem_cons.mp ha with rfl | ha
    · exact absurd hk hkind
    · rcases hmem' d hd with rfl | hd
      · exact h.large a ha hk b hmem
      · exact h.large a ha hk d hd
  · refine List.pairwise_cons.mpr ⟨?_, h.disjoint⟩
    intro a ha
    have hend := hbok.endd
    by_cases hk : a.kind = .large
    · have hapart := h.large a ha hk b hmem
      unfold Apart at hapart ⊢
      simp only
      omega
    · obtain ⟨d, hd, hstart, hle⟩ := h.small a ha hk
      by_cases hdb : d = b
      · subst hdb
        right
        simp only
        omega
      · have hapart := h.blocks_apart hd hmem hdb
        have hdok := h.blocks d hd
        have hdend := hdok.endd
        have hdle := hdok.last_le
        unfold Apart at hapart ⊢
        simp only
        omega
  · intro a ha hk
    rcases List.mem_cons.mp ha with rfl | ha
    · exact halign hk
    · exact h.aligned a ha hk

theorem Inv.addLarge (h : Inv psize s) {p n : Nat} {large : List (Option Nat)}
    (hblocks : ∀ b ∈ s.pool.blocks, Apart p n b.base psize)
    (hlarge : ∀ a ∈ s.allocs, a.kind = .large → Apart p n a.addr a.size)
    (hheaders : ∀ l ∈ large, l.isNone = false) :
    Inv psize ⟨{ s.pool with large := large }, ⟨.large, p, n⟩ :: s.allocs⟩ := by
  refine ⟨h.blocks, h.apart, h.current, h.max_ge, h.max_le, h.max_lt, hheaders, ?_, ?_, ?_, ?_⟩
  · intro a ha hk
    rcases List.mem_cons.mp ha with rfl | ha
    · exact absurd rfl hk
    · exact h.small a ha hk
  · intro a ha hk
    rcases List.mem_cons.mp ha with rfl | ha
    · exact hblocks
    · exact h.large a ha hk
  · refine List.pairwise_cons.mpr ⟨?_, h.disjoint⟩
    intro a ha
    by_cases hk : a.kind = .large
    · exact hlarge a ha hk
    · obtain ⟨b, hb, hstart, hend⟩ := h.small a ha hk
      have hbok := h.blocks b hb
      have hbend := hbok.endd
      have hble := hbok.last_le
      have hapart := hblocks b hb
      unfold Apart at hapart ⊢
      simp only
      omega
  · intro a ha hk
    rcases List.mem_cons.mp ha with rfl | ha
    · cases hk
    · exact h.aligned a ha hk

theorem Inv.addBlock (h : Inv psize s) {m : Nat} (hm : m % 16 = 0)
    (hblocks : ∀ b ∈ s.pool.blocks, Apart m psize b.base psize)
    (hlarge : ∀ a ∈ s.allocs, a.kind = .large → Apart m psize a.addr a.size) :
    Inv psize ⟨{ s.pool with
      blocks := s.pool.blocks ++ [⟨m, sizeofPoolData, m + sizeofPoolData, m + psize, 0⟩] },
      s.allocs⟩ := by
  have hroom := h.max_le
  have hmin := h.max_ge
  unfold sizeofPool at hroom
  refine ⟨?_, ?_, ?_, h.max_ge, h.max_le, h.max_lt, h.headers, ?_, ?_, h.disjoint, h.aligned⟩
  · intro b hb
    rcases List.mem_append.mp hb with hb | hb
    · exact h.blocks b hb
    · rw [List.mem_singleton] at hb
      subst hb
      refine ⟨hm, Nat.le_refl _, (by decide : sizeofPoolData ≤ sizeofPool), rfl, Nat.le_refl _, ?_⟩
      unfold sizeofPoolData
      simp only
      omega
  · refine List.pairwise_append.mpr ⟨h.apart, List.pairwise_singleton _ _, ?_⟩
    intro b hb c hc
    rw [List.mem_singleton] at hc
    subst hc
    exact (hblocks b hb).symm
  · have hcur := h.current
    simp only [List.length_append, List.length_singleton]
    omega
  · intro a ha hk
    obtain ⟨b, hb, hstart, hend⟩ := h.small a ha hk
    exact ⟨b, List.mem_append_left _ hb, hstart, hend⟩
  · intro a ha hk b hb
    rcases List.mem_append.mp hb with hb | hb
    · exact h.large a ha hk b hb
    · rw [List.mem_singleton] at hb
      subst hb
      exact (hlarge a ha hk).symm

theorem Inv.reset (h : Inv psize s) : Inv psize ⟨nmxResetPool s.pool, []⟩ := by
  have hroom := h.max_le
  have hmin := h.max_ge
  refine ⟨?_, ?_, ?_, h.max_ge, h.max_le, h.max_lt, ?_, ?_, ?_, List.Pairwise.nil, ?_⟩
  · intro b hb
    obtain ⟨c, hc, rfl⟩ := List.mem_map.mp hb
    have hok := h.blocks c hc
    have hend := hok.endd
    have hheader := hok.header_le
    refine ⟨hok.aligned, hok.header_ge, hok.header_le, hok.endd, ?_, ?_⟩
    · simp only
      omega
    · simp only
      omega
  · exact List.pairwise_map.mpr h.apart
  · have hcur := h.current
    simp only [nmxResetPool, List.length_map]
    omega
  · intro l hl
    cases hl
  · intro a ha
    cases ha
  · intro a ha
    cases ha
  · intro a ha
    cases ha

/-! ### One small allocation -/

def BasesFrom (m : Nat) (old new : List Block) : Prop :=
  ∀ b ∈ new, b.base = m ∨ ∃ c ∈ old, b.base = c.base

theorem Inv.pallocBlock (h : Inv psize s) (hsize : psize < 2 ^ 64) {kind : AllocKind} {n m : Nat}
    (hn : n ≤ s.pool.max) (hkind : kind ≠ .large) (hm : m % 16 = 0)
    (hblocks : ∀ b ∈ s.pool.blocks, Apart m psize b.base psize)
    (hlarge : ∀ a ∈ s.allocs, a.kind = .large → Apart m psize a.addr a.size) :
    ∃ addr q, nmxPallocBlock s.pool n m = .ok (addr, q) ∧
      Inv psize ⟨q, ⟨kind, addr, n⟩ :: s.allocs⟩ ∧ q.large = s.pool.large ∧
      BasesFrom m s.pool.blocks q.blocks := by
  have hcur := h.current
  obtain ⟨first, rest, hfirst⟩ : ∃ first rest, s.pool.blocks = first :: rest := by
    cases hb : s.pool.blocks with
    | nil =>
      rw [hb] at hcur
      exact absurd hcur (Nat.not_lt_zero _)
    | cons first rest => exact ⟨first, rest, rfl⟩
  have hok := h.blocks first (by rw [hfirst]; exact List.mem_cons_self)
  have hend := hok.endd
  have hdiff : sizeDiff first.endd first.base = psize := by
    rw [sizeDiff_of_le (by omega) (by omega)]
    omega
  have halign : nmxAlignPtr (m + sizeofPoolData) = m + sizeofPoolData := by
    refine nmxAlignPtr_of_mod ?_
    unfold sizeofPoolData
    omega
  generalize hcounted : countFailed s.pool.current s.pool.current
    (s.pool.blocks.drop s.pool.current) = counted
  have hview : (s.pool.blocks.take s.pool.current ++ counted.1).map Block.view =
      s.pool.blocks.map Block.view := by
    rw [List.map_append, ← hcounted, countFailed_view, ← List.map_append, List.take_append_drop]
  have hlen : (s.pool.blocks.take s.pool.current ++ counted.1).length = s.pool.blocks.length := by
    have hl := congrArg List.length hview
    rwa [List.length_map, List.length_map] at hl
  have hcurrent : counted.2 < s.pool.blocks.length := by
    have hlt : (countFailed s.pool.current s.pool.current
        (s.pool.blocks.drop s.pool.current)).2 <
          s.pool.current + (s.pool.blocks.drop s.pool.current).length :=
      countFailed_current (by rw [List.length_drop]; omega)
    rw [hcounted, List.length_drop] at hlt
    omega
  have hbases : ∀ b ∈ s.pool.blocks.take s.pool.current ++ counted.1,
      ∃ c ∈ s.pool.blocks, b.base = c.base := by
    intro b hb
    have hmem : b.view ∈ s.pool.blocks.map Block.view := by
      rw [← hview]
      exact List.mem_map_of_mem hb
    obtain ⟨c, hc, he⟩ := List.mem_map.mp hmem
    exact ⟨c, hc, (Block.of_view_eq he).1.symm⟩
  have hcount := h.of_view hview (by rw [hlen]; exact hcurrent)
  have hadd := hcount.addBlock hm (by
    intro b hb
    obtain ⟨c, hc, he⟩ := hbases b hb
    rw [he]
    exact hblocks c hc) hlarge
  have hroom := h.max_le
  unfold sizeofPool at hroom
  have hfits : m + sizeofPoolData + n ≤ m + psize := by
    unfold sizeofPoolData
    omega
  have hmod : kind = .palloc → (m + sizeofPoolData) % 16 = 0 := by
    intro _
    unfold sizeofPoolData
    omega
  have hcut := hadd.cut rfl (Nat.le_refl _) hfits hkind hmod
  refine ⟨m + sizeofPoolData, _, ?_, hcut, rfl, ?_⟩
  · simp only [nmxPallocBlock, hfirst, hdiff, halign]
    rw [hfirst] at hcounted
    rw [hcounted]
  · intro b hb
    rcases List.mem_append.mp hb with hb | hb
    · exact .inr (hbases b hb)
    · rw [List.mem_singleton] at hb
      exact .inl (by rw [hb])

/-- A small allocation that overshoots no block. -/
theorem Inv.smallAlloc (h : Inv psize s) (hsize : psize < 2 ^ 64) (aligned : Bool)
    (kind : AllocKind) {n m : Nat} (hn : n ≤ s.pool.max) (hkind : kind ≠ .large)
    (halign : kind = .palloc → aligned = true)
    (hno : aligned = true → NoOvershoot n (s.pool.blocks.drop s.pool.current)) (hm : m % 16 = 0)
    (hblocks : ∀ b ∈ s.pool.blocks, Apart m psize b.base psize)
    (hlarge : ∀ a ∈ s.allocs, a.kind = .large → Apart m psize a.addr a.size) :
    ∃ addr q, MemPool.smallAlloc aligned s.pool n m = .ok (addr, q) ∧
      Inv psize ⟨q, ⟨kind, addr, n⟩ :: s.allocs⟩ ∧ q.large = s.pool.large ∧
      BasesFrom m s.pool.blocks q.blocks := by
  unfold MemPool.smallAlloc
  cases htake : takeFrom aligned n (s.pool.blocks.drop s.pool.current) with
  | none => exact h.pallocBlock hsize hn hkind hm hblocks hlarge
  | some r =>
    obtain ⟨addr, chain⟩ := r
    have hok : ∀ b ∈ s.pool.blocks.drop s.pool.current, b.Ok psize :=
      fun b hb => h.blocks b (List.mem_of_mem_drop hb)
    obtain ⟨before, b, after, hdrop, hchain, hlast, hroom, hmod⟩ : ∃ before b after,
        s.pool.blocks.drop s.pool.current = before ++ b :: after ∧
        chain = before ++ { b with last := addr + n } :: after ∧ b.last ≤ addr ∧
        addr + n ≤ b.endd ∧ (aligned = true → addr % 16 = 0) := by
      cases aligned with
      | true =>
        obtain ⟨before, b, after, hd, hc, ha, hr⟩ := takeFrom_aligned hsize hok (hno rfl) htake
        refine ⟨before, b, after, hd, hc, ?_, hr, fun _ => ?_⟩
        · rw [ha]
          exact le_nmxAlignPtr _
        · rw [ha]
          exact nmxAlignPtr_mod _
      | false =>
        obtain ⟨before, b, after, hd, hc, ha, hfit⟩ := takeFrom_some htake
        have hstart : addr = b.last := ha
        have hbok := hok b (by rw [hd]; simp)
        have hend := hbok.endd
        have hge := hbok.last_ge
        have hle := hbok.last_le
        rw [hstart, sizeDiff_of_le hle (by omega)] at hfit
        exact ⟨before, b, after, hd, hc, by omega, by omega, fun hf => by cases hf⟩
    have hsplit : s.pool.blocks = (s.pool.blocks.take s.pool.current ++ before) ++ b :: after := by
      rw [List.append_assoc, ← hdrop, List.take_append_drop]
    have hcut := h.cut hsplit hlast hroom hkind fun hk => hmod (halign hk)
    rw [List.append_assoc] at hcut
    refine ⟨addr, { s.pool with blocks := s.pool.blocks.take s.pool.current ++ chain }, rfl, ?_,
      rfl,
      ?_⟩
    · rw [hchain]
      exact hcut
    · intro d hd
      rw [hchain] at hd
      simp only [List.mem_append, List.mem_cons] at hd
      right
      rcases hd with hd | hd | hd | hd
      · exact ⟨d, List.mem_of_mem_take hd, rfl⟩
      · exact ⟨d, by rw [hsplit]; simp [hd], rfl⟩
      · exact ⟨b, by rw [hsplit]; simp, by rw [hd]⟩
      · exact ⟨d, by rw [hsplit]; simp [hd], rfl⟩

/-- An overshot block gives an address that lies in no block. -/
theorem Inv.overshoot (h : Inv psize s) (hsize : psize < 2 ^ 64) {n : Nat} (m : Nat)
    (hn : n < 2 ^ 31) (hno : ¬ NoOvershoot n (s.pool.blocks.drop s.pool.current)) :
    ∃ addr q, MemPool.smallAlloc true s.pool n m = .ok (addr, q) ∧
      ∀ b ∈ q.blocks, ¬ (b.base + b.header ≤ addr ∧ addr + n ≤ b.endd) := by
  have hok : ∀ b ∈ s.pool.blocks.drop s.pool.current, b.Ok psize :=
    fun b hb => h.blocks b (List.mem_of_mem_drop hb)
  obtain ⟨before, b, after, hdrop, hover, htake⟩ := takeFrom_overshoot hsize hn hok hno
  have hb : b ∈ s.pool.blocks := by
    refine List.mem_of_mem_drop (i := s.pool.current) ?_
    rw [hdrop]
    simp
  have hbok := h.blocks b hb
  have hbend := hbok.endd
  have hble := hbok.last_le
  have hbge := hbok.last_ge
  have hlt := nmxAlignPtr_lt b.last
  have hmod := nmxAlignPtr_mod b.last
  refine ⟨nmxAlignPtr b.last, { s.pool with blocks := s.pool.blocks.take s.pool.current ++
    (before ++ { b with last := nmxAlignPtr b.last + n } :: after) }, ?_, ?_⟩
  · unfold MemPool.smallAlloc
    rw [htake]
  · intro d hd hin
    obtain ⟨hstart, hend⟩ := hin
    have hd' : d.endd = b.endd ∨ (d ∈ s.pool.blocks ∧ d ≠ b) := by
      by_cases hdb : d = b
      · exact .inl (by rw [hdb])
      · simp only [List.mem_append, List.mem_cons] at hd
        rcases hd with hd | hd | hd | hd
        · exact .inr ⟨List.mem_of_mem_take hd, hdb⟩
        · exact .inr ⟨List.mem_of_mem_drop (i := s.pool.current) (by rw [hdrop]; simp [hd]), hdb⟩
        · exact .inl (by rw [hd])
        · exact .inr ⟨List.mem_of_mem_drop (i := s.pool.current) (by rw [hdrop]; simp [hd]), hdb⟩
    rcases hd' with hd' | ⟨hmem, hne⟩
    · omega
    · -- the next block starts behind the aligned-up address at the earliest
      have hdok := h.blocks d hmem
      have hdend := hdok.endd
      have hdal := hdok.aligned
      have hdheader := hdok.header_ge
      have hapart := h.blocks_apart hmem hb hne
      unfold Apart at hapart
      unfold sizeofPoolData at hdheader
      omega

/-! ### Runs -/

/-- Where `nmx_palloc` looks for room, for an allocation or for a large header, it reaches no
block whose aligned-up `last` lies behind its end. -/
def Guard (s : PoolState) : PoolCall → Prop
  | .palloc size _ _ =>
    NoOvershoot (if size ≤ s.pool.max then size else sizeofPoolLarge)
      (s.pool.blocks.drop s.pool.current)
  | .pnalloc size _ _ =>
    s.pool.max < size → NoOvershoot sizeofPoolLarge (s.pool.blocks.drop s.pool.current)
  | .reset => True

instance (s : PoolState) (a : PoolCall) : Decidable (Guard s a) := by
  cases a <;> unfold Guard <;> infer_instance

theorem Inv.no_free_header (h : Inv psize s) :
    (s.pool.large.take 5).findIdx? (fun l => l.isNone) = none := by
  rw [List.findIdx?_eq_none_iff]
  intro l hl
  exact h.headers l (List.mem_of_mem_take hl)

theorem Inv.pallocLarge (h : Inv psize s) (hsize : psize < 2 ^ 64) {size m p : Nat}
    (hadm : Admissible psize s size m p)
    (hno : NoOvershoot sizeofPoolLarge (s.pool.blocks.drop s.pool.current)) :
    ∃ r, nmxPallocLarge s.pool size m p = .ok r ∧ Inv psize (s.record r) := by
  obtain ⟨hm, hmp, hblocks, hlarge⟩ := hadm
  obtain ⟨addr, q, hq, hinv, hheaders, hbases⟩ := h.smallAlloc hsize true .palloc
    h.max_ge (by decide) (fun _ => rfl) (fun _ => hno) hm
    (fun b hb => (hblocks b hb).1) (fun a ha hk => (hlarge a ha hk).1)
  refine ⟨([⟨.large, p, size⟩, ⟨.palloc, addr, sizeofPoolLarge⟩],
    { q with large := some p :: q.large }), ?_, ?_⟩
  · simp only [nmxPallocLarge, h.no_free_header, if_pos h.max_ge, hq, ok_bind]
    rfl
  · refine hinv.addLarge ?_ ?_ ?_
    · intro b hb
      rcases hbases b hb with he | ⟨c, hc, he⟩
      · rw [he]
        exact hmp.symm
      · rw [he]
        exact (hblocks c hc).2
    · intro a ha hk
      rcases List.mem_cons.mp ha with rfl | ha
      · cases hk
      · exact (hlarge a ha hk).2
    · intro l hl
      rcases List.mem_cons.mp hl with rfl | hl
      · rfl
      · rw [hheaders] at hl
        exact h.headers l hl

theorem step_good (hsize : psize < 2 ^ 64) {a : PoolCall} {x : Except PoolFault PoolState}
    (h : Inv psize s) (hg : Guard s a) (hx : s.step psize a = some x) :
    ∃ t, x = .ok t ∧ Inv psize t := by
  cases a with
  | palloc size m p =>
    simp only [PoolState.step] at hx
    split at hx
    next hadm =>
      cases hx
      simp only [Guard] at hg
      unfold nmxPalloc
      by_cases hle : size ≤ s.pool.max
      · rw [if_pos hle] at hg ⊢
        obtain ⟨addr, q, hq, hinv, _⟩ := h.smallAlloc hsize true .palloc hle
          (by decide) (fun _ => rfl) (fun _ => hg) hadm.1 (fun b hb => (hadm.2.2.1 b hb).1)
          (fun a ha hk => (hadm.2.2.2 a ha hk).1)
        refine ⟨_, ?_, hinv⟩
        rw [hq]
        rfl
      · rw [if_neg hle] at hg ⊢
        obtain ⟨r, hr, hinv⟩ := h.pallocLarge hsize hadm hg
        exact ⟨_, by rw [hr]; rfl, hinv⟩
    · cases hx
  | pnalloc size m p =>
    simp only [PoolState.step] at hx
    split at hx
    next hadm =>
      cases hx
      simp only [Guard] at hg
      unfold nmxPnalloc
      by_cases hle : size ≤ s.pool.max
      · rw [if_pos hle]
        obtain ⟨addr, q, hq, hinv, _⟩ := h.smallAlloc hsize false .pnalloc hle
          (by decide) (fun hk => by cases hk) (fun hf => by cases hf) hadm.1
          (fun b hb => (hadm.2.2.1 b hb).1) (fun a ha hk => (hadm.2.2.2 a ha hk).1)
        refine ⟨_, ?_, hinv⟩
        rw [hq]
        rfl
      · rw [if_neg hle]
        obtain ⟨r, hr, hinv⟩ := h.pallocLarge hsize hadm (hg (by omega))
        exact ⟨_, by rw [hr]; rfl, hinv⟩
    · cases hx
  | reset =>
    cases hx
    exact ⟨_, rfl, h.reset⟩

theorem Inv.not_sound_large (h : Inv psize s) (hsize : psize < 2 ^ 64) {size m p : Nat}
    (hno : ¬ NoOvershoot sizeofPoolLarge (s.pool.blocks.drop s.pool.current)) {t : PoolState}
    (ht : (nmxPallocLarge s.pool size m p).map s.record = .ok t) : ¬ Sound t := by
  obtain ⟨addr, q, hq, hout⟩ := h.overshoot hsize m (by decide) hno
  simp only [nmxPallocLarge, h.no_free_header, if_pos h.max_ge, hq, ok_bind] at ht
  cases ht
  intro hsound
  obtain ⟨b, hb, hin⟩ := hsound.inside ⟨.palloc, addr, sizeofPoolLarge⟩
    (by simp [PoolState.record]) (show AllocKind.palloc ≠ .large by decide)
  exact hout b hb hin

theorem step_bad (hsize : psize < 2 ^ 64) {a : PoolCall} {t : PoolState} (h : Inv psize s)
    (hg : ¬ Guard s a) (ht : s.step psize a = some (.ok t)) : ¬ Sound t := by
  cases a with
  | palloc size m p =>
    simp only [PoolState.step] at ht
    split at ht
    · have hok := Option.some.inj ht
      simp only [Guard] at hg
      unfold nmxPalloc at hok
      by_cases hle : size ≤ s.pool.max
      · rw [if_pos hle] at hg hok
        have hlt := h.max_lt
        obtain ⟨addr, q, hq, hout⟩ := h.overshoot hsize m (by omega) hg
        rw [hq] at hok
        cases hok
        intro hsound
        obtain ⟨b, hb, hin⟩ := hsound.inside ⟨.palloc, addr, size⟩ (by simp [PoolState.record])
          (show AllocKind.palloc ≠ .large by decide)
        exact hout b hb hin
      · rw [if_neg hle] at hg hok
        exact h.not_sound_large hsize hg hok
    · cases ht
  | pnalloc size m p =>
    simp only [PoolState.step] at ht
    split at ht
    · have hok := Option.some.inj ht
      simp only [Guard, Classical.not_imp] at hg
      unfold nmxPnalloc at hok
      rw [if_neg (by omega)] at hok
      exact h.not_sound_large hsize hg.2 hok
    · cases ht
  | reset => exact absurd trivial hg

theorem create_inv {pagesize base : Nat} (hpage : sizeofPoolLarge < pagesize)
    (hint : pagesize ≤ 2 ^ 31) (hmin : sizeofPool + 16 ≤ psize) (hbase : base % 16 = 0) :
    Inv psize (.create pagesize psize base) := by
  unfold sizeofPool at hmin
  unfold sizeofPoolLarge at hpage
  obtain ⟨hge, hle, hlt⟩ : 16 ≤ (PoolState.create pagesize psize base).pool.max ∧
      (PoolState.create pagesize psize base).pool.max + 56 ≤ psize ∧
      (PoolState.create pagesize psize base).pool.max < 2 ^ 31 := by
    simp only [PoolState.create, nmxCreatePool]
    by_cases hmax : psize - sizeofPool < pagesize - 1
    · rw [if_pos hmax]
      unfold sizeofPool at hmax ⊢
      omega
    · rw [if_neg hmax]
      unfold sizeofPool at hmax
      omega
  refine ⟨?_, List.pairwise_singleton _ _, Nat.zero_lt_one, hge, hle, hlt, ?_, ?_, ?_,
    List.Pairwise.nil, ?_⟩
  · intro b hb
    cases List.mem_singleton.mp hb
    refine ⟨hbase, ?_, ?_, rfl, Nat.le_refl _, ?_⟩
    · exact (by decide : sizeofPoolData ≤ sizeofPool)
    · exact Nat.le_refl _
    · simp only [sizeofPool]
      omega
  · intro l hl
    cases hl
  · intro a ha
    cases ha
  · intro a ha
    cases ha
  · intro a ha
    cases ha

/-- The allocations lie inside the blocks, apart and aligned, in every state of a run exactly
where no call overshoots a block. -/
theorem pool_ranges_iff (pagesize psize base : Nat) (hpage : sizeofPoolLarge < pagesize)
    (hint : pagesize ≤ 2 ^ 31) (hmin : sizeofPool + 16 ≤ psize) (hsize : psize < 2 ^ 64)
    (hbase : base % 16 = 0) (calls : List PoolCall) {x : Except PoolFault PoolState}
    (h : (PoolState.machine pagesize psize base).run (.create pagesize psize base) calls = some x) :
    (∀ before, before <+: calls → ∃ t,
        (PoolState.machine pagesize psize base).run (.create pagesize psize base) before =
          some (.ok t) ∧ Sound t) ↔
      (PoolState.machine pagesize psize base).Along Guard (.create pagesize psize base) calls :=
  Machine.run_always_iff (fun _ hs => hs.sound)
    (fun _ _ _ hs hg hx => step_good hsize hs hg hx)
    (fun _ _ _ hs hg hx => step_bad hsize hs hg hx)
    (create_inv hpage hint hmin hbase) h

theorem noOvershoot_of_aligned_size (hal : psize % 16 = 0) (n : Nat) {l : List Block}
    (hok : ∀ b ∈ l, b.Ok psize) : NoOvershoot n l := by
  induction l with
  | nil => trivial
  | cons b rest ih =>
    have hb := hok b List.mem_cons_self
    have hend := hb.endd
    have hbase := hb.aligned
    have hle := hb.last_le
    have hlt := nmxAlignPtr_lt b.last
    have hmod := nmxAlignPtr_mod b.last
    exact ⟨by omega, fun _ => ih fun c hc => hok c (List.mem_cons_of_mem _ hc)⟩

/- The pool of the program, `nmx_create_pool(1024)`, and a few calls. -/
def usualCalls : List PoolCall :=
  [.palloc 20 8192 16384, .pnalloc 3 8192 16384, .palloc 900 8192 32768, .palloc 5000 65536 32768,
    .reset, .palloc 7 131072 262144]

theorem pool_ranges_iff_usual :
    ∃ t, (PoolState.machine 4096 1024 4096).run (.create 4096 1024 4096) usualCalls =
      some (.ok t) ∧ Sound t := by
  have hruns : (PoolState.machine 4096 1024 4096).runsTo (.create 4096 1024 4096) usualCalls
      (fun _ => true) = true := by decide +kernel
  obtain ⟨t, ht, _⟩ := Machine.exists_of_runsTo hruns
  exact (pool_ranges_iff 4096 1024 4096 (by decide) (by decide) (by decide) (by decide) (by decide)
    usualCalls ht).mpr (by decide +kernel) usualCalls List.prefix_rfl

/-- A pool of 72 bytes: after eight bytes its block is full, and the next byte is given out
behind its end. -/
theorem pool_overshoots :
    (PoolState.machine 4096 72 4096).runsTo (.create 4096 72 4096)
        [.palloc 8 8192 16384, .palloc 1 8192 16384]
        (fun t => decide (t.allocs = [⟨.palloc, 4096 + 80, 1⟩, ⟨.palloc, 4096 + 64, 8⟩] ∧
          t.pool.blocks.map Block.endd = [4096 + 72])) = true ∧
      ¬ ∀ before, before <+: [.palloc 8 8192 16384, .palloc 1 8192 16384] → ∃ t,
        (PoolState.machine 4096 72 4096).run (.create 4096 72 4096) before = some (.ok t) ∧
          Sound t := by
  have hruns : (PoolState.machine 4096 72 4096).runsTo (.create 4096 72 4096)
      [.palloc 8 8192 16384, .palloc 1 8192 16384]
      (fun t => decide (t.allocs = [⟨.palloc, 4096 + 80, 1⟩, ⟨.palloc, 4096 + 64, 8⟩] ∧
        t.pool.blocks.map Block.endd = [4096 + 72])) = true := by decide +kernel
  refine ⟨hruns, ?_⟩
  intro h
  obtain ⟨t, ht, hp⟩ := Machine.exists_of_runsTo hruns
  obtain ⟨hallocs, hends⟩ := of_decide_eq_true hp
  obtain ⟨u, hu, hsound⟩ := h _ List.prefix_rfl
  cases ht.symm.trans hu
  obtain ⟨b, hb, _, hin⟩ := hsound.inside ⟨.palloc, 4096 + 80, 1⟩ (by rw [hallocs]; simp)
    (show AllocKind.palloc ≠ .large by decide)
  have hbend : b.endd ∈ t.pool.blocks.map Block.endd := List.mem_map_of_mem hb
  rw [hends, List.mem_singleton] at hbend
  rw [hbend] at hin
  exact absurd hin (by decide)

end TstMuduo.MemPool
