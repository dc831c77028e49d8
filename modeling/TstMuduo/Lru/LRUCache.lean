import Mathlib.Algebra.Order.Ring.Int
import Mathlib.Data.List.Induction
import Mathlib.Logic.Function.Basic
import TstMuduo.Lib.Machine
import TstMuduo.Lib.NodeList

/-!
# The LRU cache (examples/tstlru/LRUCache.h)

`cacheList` is a `std::list` and `cacheMap` maps the keys to positions in it. A position
whose node has been erased is a dangling iterator; what reads through one is an error of
the model.
-/

namespace TstMuduo.Lru
open TstMuduo.Lib

variable {K V : Type} [DecidableEq K]

/- What a statement of the cache must not do. -/
inductive CacheFault where
  | danglingIterator
  | emptyList
  deriving DecidableEq, Repr

def MAXSIZE : Nat := 2 ^ 20

structure CacheNode (K V : Type) where
  key : K
  value : V
  deriving DecidableEq, Repr

structure LRUCache (K V : Type) where
  cacheList : NodeList (CacheNode K V)
  cacheMap : K → Option Nat
  size : Nat

namespace LRUCache

omit [DecidableEq K] in
/- `LRUCache(capacity)` (`LRUCache.h:46`). From `MAXSIZE` on it leaves `size` as it is in
memory, `indeterminate`. -/
def new (indeterminate capacity : Nat) : LRUCache K V :=
  ⟨.empty, fun _ => none, if capacity < MAXSIZE then capacity else indeterminate⟩

omit [DecidableEq K] in
def deref (l : NodeList (CacheNode K V)) (it : Nat) : Except CacheFault (CacheNode K V) :=
  match l.deref it with
  | none => .error .danglingIterator
  | some node => .ok node

omit [DecidableEq K] in
def erase (l : NodeList (CacheNode K V)) (it : Nat) :
    Except CacheFault (NodeList (CacheNode K V)) := do
  let _ ← deref l it
  return l.erase it

/- `cacheMap[key] = cacheList.begin()` after a `push_front`. -/
def pushFront (c : LRUCache K V) (key : K) (value : V) : LRUCache K V :=
  let list := c.cacheList.pushFront ⟨key, value⟩
  { c with cacheList := list, cacheMap := Function.update c.cacheMap key list.front }

/- `get` (`LRUCache.h:61`): what it returns, with the value it gives out, and what it leaves. -/
def get (c : LRUCache K V) (key : K) : Except CacheFault (Option V × LRUCache K V) :=
  match c.cacheMap key with
  | none => .ok (none, c)
  | some itfind => do
    let list ← erase c.cacheList itfind
    let node ← deref list itfind
    let pushed := { c with cacheList := list }.pushFront key node.value
    match pushed.cacheMap key with
    | none => .error .danglingIterator
    | some it =>
      let found ← deref pushed.cacheList it
      return (some found.value, pushed)

/- The last node makes room. -/
def evict (c : LRUCache K V) : Except CacheFault (LRUCache K V) :=
  match c.cacheList.back with
  | none => .error .emptyList
  | some it => do
    let node ← deref c.cacheList it
    let list ← erase c.cacheList it
    return { c with cacheList := list, cacheMap := Function.update c.cacheMap node.key none }

/- `put` (`LRUCache.h:79`). -/
def put (c : LRUCache K V) (key : K) (value : V) : Except CacheFault (LRUCache K V) :=
  match c.cacheMap key with
  | none => do
    let roomy ← if c.cacheList.cells.length = c.size then c.evict else .ok c
    return roomy.pushFront key value
  | some it => do
    let list ← erase c.cacheList it
    return { c with cacheList := list }.pushFront key value

end LRUCache

inductive CacheCall (K V : Type) where
  | get (key : K)
  | put (key : K) (value : V)

/- The cache and what its `get`s have returned. -/
structure CacheRun (K V : Type) where
  cache : LRUCache K V
  results : List (Option V)

def CacheRun.call (s : CacheRun K V) : CacheCall K V → Except CacheFault (CacheRun K V)
  | .get key => do
    let (result, cache) ← s.cache.get key
    return ⟨cache, s.results ++ [result]⟩
  | .put key value => do
    let cache ← s.cache.put key value
    return { s with cache := cache }

def CacheRun.machine (indeterminate capacity : Nat) :
    Machine (CacheRun K V) (CacheCall K V) CacheFault where
  init := ⟨.new indeterminate capacity, []⟩
  step s a := some (s.call a)

/-! ### What an LRU cache is -/

/-- The pairs of the cache, the most recently used one first. -/
abbrev Recent (K V : Type) := List (K × V)

namespace Recent

def get (entries : Recent K V) (key : K) : Option V × Recent K V :=
  match entries.find? fun e => e.1 = key with
  | none => (none, entries)
  | some e => (some e.2, (key, e.2) :: entries.filter fun e => e.1 ≠ key)

def put (capacity : Nat) (entries : Recent K V) (key : K) (value : V) : Recent K V :=
  ((key, value) :: entries.filter fun e => e.1 ≠ key).take capacity

def call (capacity : Nat) (s : Recent K V × List (Option V)) :
    CacheCall K V → Recent K V × List (Option V)
  | .get key => ((get s.1 key).2, s.2 ++ [(get s.1 key).1])
  | .put key value => (put capacity s.1 key value, s.2)

def run (capacity : Nat) (calls : List (CacheCall K V)) : Recent K V × List (Option V) :=
  calls.foldl (call capacity) ([], [])

end Recent

omit [DecidableEq K] in
/-- The list holds the entries in their order, no key twice and not more than the capacity,
and the map leads from each key to its node and nowhere else. -/
structure Coherent (capacity : Nat) (entries : Recent K V) (c : LRUCache K V) : Prop where
  contents : c.cacheList.contents = entries.map fun e => ⟨e.1, e.2⟩
  distinct : (entries.map Prod.fst).Nodup
  length_le : entries.length ≤ capacity
  map : ∀ key it, c.cacheMap key = some it ↔ ∃ value, c.cacheList.deref it = some ⟨key, value⟩

/-! ### One call -/

namespace LRUCache

variable {c : LRUCache K V} {entries : Recent K V} {capacity : Nat}

omit [DecidableEq K] in
theorem deref_of_mem {l : NodeList (CacheNode K V)} {it : Nat} {node : CacheNode K V}
    (h : (it, node) ∈ l.cells) : deref l it = .ok node := by
  simp only [deref, NodeList.deref_eq_some_iff.mpr h]

omit [DecidableEq K] in
theorem erase_of_mem {l : NodeList (CacheNode K V)} {it : Nat} {node : CacheNode K V}
    (h : (it, node) ∈ l.cells) : erase l it = .ok (l.erase it) := by
  simp only [erase, deref_of_mem h, ok_bind]
  rfl

theorem get_hit {key : K} {it : Nat} (h : c.cacheMap key = some it) :
    c.get key = .error .danglingIterator := by
  simp only [get, h]
  cases herase : erase c.cacheList it with
  | error e =>
    unfold erase deref at herase
    split at herase
    · cases herase
      rfl
    · cases herase
  | ok list =>
    have hlist : list = c.cacheList.erase it := by
      obtain ⟨_, _, hl⟩ := bind_eq_ok herase
      cases hl
      rfl
    have hderef : deref list it = .error .danglingIterator := by
      simp only [deref, hlist, NodeList.deref_erase_self]
    rw [ok_bind, hderef]
    rfl

theorem get_miss {key : K} (h : c.cacheMap key = none) : c.get key = .ok (none, c) := by
  simp only [get, h]

end LRUCache

namespace Coherent

variable {c : LRUCache K V} {entries : Recent K V} {capacity : Nat}

omit [DecidableEq K] in
theorem mem_iff (h : Coherent capacity entries c) {key : K} {value : V} :
    (key, value) ∈ entries ↔ ∃ it, (it, (⟨key, value⟩ : CacheNode K V)) ∈ c.cacheList.cells := by
  have hmem : (key, value) ∈ entries ↔ (⟨key, value⟩ : CacheNode K V) ∈ c.cacheList.contents := by
    rw [h.contents, List.mem_map]
    constructor
    · intro hm
      exact ⟨(key, value), hm, rfl⟩
    · intro hm
      obtain ⟨e, he, hn⟩ := hm
      cases hn
      exact he
  rw [hmem, NodeList.contents, List.mem_map]
  constructor
  · intro hm
    obtain ⟨cell, hcell, hn⟩ := hm
    exact ⟨cell.1, by rw [← hn]; exact hcell⟩
  · intro hm
    obtain ⟨it, hit⟩ := hm
    exact ⟨_, hit, rfl⟩

omit [DecidableEq K] in
theorem map_none_iff (h : Coherent capacity entries c) {key : K} :
    c.cacheMap key = none ↔ ∀ value, (key, value) ∉ entries := by
  constructor
  · intro hn value hm
    obtain ⟨it, hit⟩ := h.mem_iff.mp hm
    have hsome := (h.map key it).mpr ⟨value, NodeList.deref_eq_some_iff.mpr hit⟩
    rw [hn] at hsome
    cases hsome
  · intro hn
    cases hit : c.cacheMap key with
    | none => rfl
    | some it =>
      obtain ⟨value, hv⟩ := (h.map key it).mp hit
      exact absurd (h.mem_iff.mpr ⟨it, NodeList.deref_eq_some_iff.mp hv⟩) (hn value)

theorem filter_absent {key : K} (h : ∀ value, (key, value) ∉ entries) :
    entries.filter (fun e => e.1 ≠ key) = entries := by
  refine List.filter_eq_self.mpr ?_
  intro e he
  have hne : e.1 ≠ key := fun hk => h e.2 (by rw [← hk]; exact he)
  simpa using hne

omit [DecidableEq K] in
theorem it_unique (h : Coherent capacity entries c) {key : K} {it it' : Nat} {v v' : V}
    (hi : (it, (⟨key, v⟩ : CacheNode K V)) ∈ c.cacheList.cells)
    (hi' : (it', (⟨key, v'⟩ : CacheNode K V)) ∈ c.cacheList.cells) : it = it' := by
  have hm := (h.map key it).mpr ⟨v, NodeList.deref_eq_some_iff.mpr hi⟩
  have hm' := (h.map key it').mpr ⟨v', NodeList.deref_eq_some_iff.mpr hi'⟩
  exact Option.some.inj (hm.symm.trans hm')

/-- A new node for a key that the list does not hold. -/
theorem pushFront (h : Coherent capacity entries c) {key : K} (value : V)
    (habsent : ∀ v, (key, v) ∉ entries) (hroom : entries.length < capacity) :
    Coherent capacity ((key, value) :: entries) (c.pushFront key value) where
  contents := by
    have hc := h.contents
    simp only [NodeList.contents] at hc
    simp only [NodeList.contents, LRUCache.pushFront, NodeList.pushFront, List.map_cons, hc]
  distinct := by
    refine List.nodup_cons.mpr ⟨?_, h.distinct⟩
    intro hm
    obtain ⟨e, he, hk⟩ := List.mem_map.mp hm
    have hk' : e.1 = key := hk
    exact habsent e.2 (by rw [← hk']; exact he)
  length_le := hroom
  map k it := by
    simp only [LRUCache.pushFront, NodeList.deref_eq_some_iff, NodeList.mem_pushFront,
      NodeList.front_pushFront]
    by_cases hk : k = key
    · subst hk
      rw [Function.update_self]
      constructor
      · intro he
        exact ⟨value, .inl ⟨(Option.some.inj he).symm, rfl⟩⟩
      · intro he
        obtain ⟨v, ⟨hn, _⟩ | hm⟩ := he
        · rw [hn]
        · exact absurd (h.mem_iff.mpr ⟨it, hm⟩) (habsent v)
    · rw [Function.update_of_ne hk, h.map k it]
      constructor
      · intro he
        obtain ⟨v, hv⟩ := he
        exact ⟨v, .inr (NodeList.deref_eq_some_iff.mp hv)⟩
      · intro he
        obtain ⟨v, ⟨_, hn⟩ | hm⟩ := he
        · cases hn
          exact absurd rfl hk
        · exact ⟨v, NodeList.deref_eq_some_iff.mpr hm⟩

theorem erase (h : Coherent capacity entries c) {key : K} {it : Nat} {v : V}
    (hit : (it, (⟨key, v⟩ : CacheNode K V)) ∈ c.cacheList.cells) :
    Coherent capacity (entries.filter fun e => e.1 ≠ key)
      { c with
        cacheList := c.cacheList.erase it
        cacheMap := Function.update c.cacheMap key none } where
  contents := by
    have hc := h.contents
    simp only [NodeList.contents] at hc
    have hkeep : ∀ cell ∈ c.cacheList.cells,
        decide (cell.1 ≠ it) = decide (cell.2.key ≠ key) := by
      intro cell hcell
      refine decide_eq_decide.mpr (not_congr ?_)
      constructor
      · intro he
        have hcell' : (it, cell.2) ∈ c.cacheList.cells := by
          rw [← he]
          exact hcell
        rw [NodeList.eq_of_mem hcell' hit]
      · intro he
        have hcell' : (cell.1, (⟨key, cell.2.value⟩ : CacheNode K V)) ∈ c.cacheList.cells := by
          rw [← he]
          exact hcell
        exact h.it_unique hcell' hit
    have hfilter : (c.cacheList.cells.filter fun cell => cell.1 ≠ it).map Prod.snd =
        (c.cacheList.cells.map Prod.snd).filter fun node => node.key ≠ key := by
      rw [List.filter_congr hkeep, List.filter_map]
      rfl
    simp only [NodeList.contents, NodeList.erase]
    rw [hfilter, hc, List.filter_map]
    rfl
  distinct := h.distinct.sublist (List.filter_sublist.map _)
  length_le := Nat.le_trans (List.length_filter_le _ _) h.length_le
  map k j := by
    simp only [NodeList.deref_eq_some_iff, NodeList.mem_erase]
    by_cases hk : k = key
    · subst hk
      rw [Function.update_self]
      constructor
      · intro he
        cases he
      · intro he
        obtain ⟨v', hv', hne⟩ := he
        exact absurd (h.it_unique hv' hit) hne
    · rw [Function.update_of_ne hk, h.map k j]
      constructor
      · intro he
        obtain ⟨v', hv'⟩ := he
        have hmem := NodeList.deref_eq_some_iff.mp hv'
        refine ⟨v', hmem, ?_⟩
        intro hj
        rw [hj] at hmem
        exact hk (congrArg CacheNode.key (NodeList.eq_of_mem hmem hit))
      · intro he
        obtain ⟨v', hv', _⟩ := he
        exact ⟨v', NodeList.deref_eq_some_iff.mpr hv'⟩

end Coherent

/-! ### The calls against the abstract cache -/

theorem LRUCache.pushFront_congr (c : LRUCache K V) (list : NodeList (CacheNode K V)) (key : K)
    (value : V) :
    ({ c with cacheList := list } : LRUCache K V).pushFront key value =
      ({ c with cacheList := list, cacheMap := Function.update c.cacheMap key none } :
        LRUCache K V).pushFront key value := by
  simp only [pushFront, Function.update_idem]

namespace Coherent

variable {c : LRUCache K V} {entries : Recent K V} {capacity : Nat}

omit [DecidableEq K] in
theorem length_cells (h : Coherent capacity entries c) :
    c.cacheList.cells.length = entries.length := by
  have hc := congrArg List.length h.contents
  simpa only [NodeList.contents, List.length_map] using hc

theorem evict {front : Recent K V} {e : K × V} (h : Coherent capacity (front ++ [e]) c) :
    ∃ d, c.evict = .ok d ∧ d.size = c.size ∧ Coherent capacity front d := by
  have hc := h.contents
  rw [NodeList.contents, List.map_append, List.map_singleton] at hc
  obtain ⟨cells, last, hcells, _, hlast⟩ := List.map_eq_append_iff.mp hc
  obtain ⟨cell, rfl, hnode⟩ := List.map_eq_singleton_iff.mp hlast
  have hmem : (cell.1, (⟨e.1, e.2⟩ : CacheNode K V)) ∈ c.cacheList.cells := by
    rw [hcells, ← hnode]
    simp
  have hback : c.cacheList.back = some cell.1 := by
    rw [NodeList.back, hcells, List.getLast?_concat]
    rfl
  have hkeep : (front ++ [e]).filter (fun x => x.1 ≠ e.1) = front := by
    have hd := h.distinct
    rw [List.map_append, List.nodup_append] at hd
    have hfront : front.filter (fun x => x.1 ≠ e.1) = front := by
      refine List.filter_eq_self.mpr ?_
      intro x hx
      have hne := hd.2.2 x.1 (List.mem_map_of_mem hx) e.1 (by simp)
      simpa using hne
    rw [List.filter_append, hfront]
    simp
  have herase := h.erase hmem
  rw [hkeep] at herase
  refine ⟨{ c with
    cacheList := c.cacheList.erase cell.1
    cacheMap := Function.update c.cacheMap e.1 none }, ?_, rfl, herase⟩
  simp only [LRUCache.evict, hback, LRUCache.deref_of_mem hmem, LRUCache.erase_of_mem hmem, ok_bind]
  rfl

/-- `put` does what the abstract cache does. -/
theorem put (h : Coherent capacity entries c) (hsize : c.size = capacity) (hpos : 0 < capacity)
    (key : K) (value : V) :
    ∃ d, c.put key value = .ok d ∧ d.size = c.size ∧
      Coherent capacity (Recent.put capacity entries key value) d := by
  cases hm : c.cacheMap key with
  | none =>
    have habsent := h.map_none_iff.mp hm
    simp only [LRUCache.put, hm, h.length_cells, hsize, Recent.put, filter_absent habsent]
    by_cases hfull : entries.length = capacity
    · rcases List.eq_nil_or_concat entries with rfl | ⟨front, e, rfl⟩
      · rw [List.length_nil] at hfull
        omega
      · rw [List.concat_eq_append] at h habsent hfull ⊢
        rw [if_pos hfull]
        obtain ⟨d, hd, hds, hdc⟩ := h.evict
        rw [List.length_append, List.length_singleton] at hfull
        have htake : ((key, value) :: (front ++ [e])).take capacity = (key, value) :: front := by
          rw [← hfull, List.take_succ_cons, List.take_left]
        refine ⟨d.pushFront key value, ?_, hds.trans hsize, ?_⟩
        · rw [hd]
          rfl
        · rw [htake]
          exact hdc.pushFront value (fun v hv => habsent v (List.mem_append_left _ hv)) (by omega)
    · have hlt : entries.length < capacity := Nat.lt_of_le_of_ne h.length_le hfull
      rw [if_neg hfull]
      refine ⟨c.pushFront key value, rfl, hsize, ?_⟩
      rw [List.take_of_length_le (by rw [List.length_cons]; omega)]
      exact h.pushFront value habsent hlt
  | some it =>
    obtain ⟨v, hv⟩ := (h.map key it).mp hm
    have hmem := NodeList.deref_eq_some_iff.mp hv
    have hentry := h.mem_iff.mpr ⟨it, hmem⟩
    have herase := h.erase hmem
    have habsent : ∀ w, (key, w) ∉ entries.filter fun e => e.1 ≠ key := by
      intro w hw
      simp [List.mem_filter] at hw
    have hlt : (entries.filter fun e => e.1 ≠ key).length < capacity := by
      have hshort : (entries.filter fun e => e.1 ≠ key).length < entries.length :=
        List.length_filter_lt_length_iff_exists.mpr ⟨(key, v), hentry, by simp⟩
      have hle := h.length_le
      omega
    refine ⟨({ c with
      cacheList := c.cacheList.erase it
      cacheMap := Function.update c.cacheMap key none } : LRUCache K V).pushFront key value,
      ?_, rfl, ?_⟩
    · simp only [LRUCache.put, hm, LRUCache.erase_of_mem hmem, ok_bind]
      rw [LRUCache.pushFront_congr]
      rfl
    · rw [Recent.put, List.take_of_length_le (by rw [List.length_cons]; omega)]
      exact herase.pushFront value habsent hlt

theorem get_absent (h : Coherent capacity entries c) {key : K} (habsent : ∀ v, (key, v) ∉ entries) :
    c.get key = .ok (none, c) ∧ Recent.get entries key = (none, entries) := by
  refine ⟨LRUCache.get_miss (h.map_none_iff.mpr habsent), ?_⟩
  have hnone : entries.find? (fun e => e.1 = key) = none := by
    refine List.find?_eq_none.mpr ?_
    intro e he hk
    have hk' : e.1 = key := by simpa using hk
    exact habsent e.2 (by rw [← hk']; exact he)
  simp only [Recent.get, hnone]

end Coherent

/-! ### Runs -/

namespace CacheRun

/-- The state agrees with the abstract cache. -/
structure Agrees (capacity : Nat) (abstract : Recent K V × List (Option V)) (s : CacheRun K V) :
    Prop where
  results : s.results = abstract.2
  coherent : Coherent capacity abstract.1 s.cache

/-- No `get` of the calls is a hit. -/
def NoHit (capacity : Nat) (calls : List (CacheCall K V)) : Prop :=
  ∀ before key after, calls = before ++ .get key :: after →
    ∀ value, (key, value) ∉ (Recent.run capacity before).1

theorem run_snoc (capacity : Nat) (calls : List (CacheCall K V)) (a : CacheCall K V) :
    Recent.run capacity (calls ++ [a]) = Recent.call capacity (Recent.run capacity calls) a := by
  rw [Recent.run, List.foldl_append]
  rfl

theorem noHit_snoc {capacity : Nat} {calls : List (CacheCall K V)} {a : CacheCall K V} :
    NoHit capacity (calls ++ [a]) ↔ NoHit capacity calls ∧
      ∀ key, a = .get key → ∀ value, (key, value) ∉ (Recent.run capacity calls).1 := by
  constructor
  · intro h
    refine ⟨?_, ?_⟩
    · intro before key after hcut
      exact h before key (after ++ [a]) (by rw [hcut]; simp)
    · intro key ha
      exact h calls key [] (by rw [ha])
  · intro h before key after hcut
    rcases List.eq_nil_or_concat after with rfl | ⟨after, x, rfl⟩
    · obtain ⟨rfl, hlast⟩ := List.append_inj' hcut rfl
      exact h.2 key (List.singleton_inj.mp hlast)
    · have hcut' : calls ++ [a] = (before ++ .get key :: after) ++ [x] := by
        rw [hcut]
        simp
      exact h.1 before key after (List.append_inj' hcut' rfl).1

/-- The cache is the abstract one in every state of a run exactly where no `get` hits: the
first hit reads an erased node. -/
theorem lru_refines_iff (indeterminate capacity : Nat) (hpos : 1 ≤ capacity)
    (hmax : capacity < MAXSIZE) (calls : List (CacheCall K V)) :
    (∀ before, before <+: calls → ∃ s,
        (machine indeterminate capacity).run ⟨.new indeterminate capacity, []⟩ before =
          some (.ok s) ∧ s.Agrees capacity (Recent.run capacity before)) ↔
      NoHit capacity calls := by
  have hnew : (LRUCache.new indeterminate capacity : LRUCache K V).size = capacity := if_pos hmax
  have hstrong : ∀ calls : List (CacheCall K V), NoHit capacity calls → ∃ s,
      (machine indeterminate capacity).run ⟨.new indeterminate capacity, []⟩ calls =
        some (.ok s) ∧ s.Agrees capacity (Recent.run capacity calls) ∧ s.cache.size = capacity := by
    intro calls hno
    induction calls using List.reverseRecOn with
    | nil =>
      refine ⟨_, rfl, ⟨rfl, rfl, List.nodup_nil, Nat.zero_le _, ?_⟩, hnew⟩
      intro key it
      constructor
      · intro he
        cases he
      · intro he
        obtain ⟨v, hv⟩ := he
        cases hv
    | append_singleton calls a ih =>
      obtain ⟨hno', hlast⟩ := noHit_snoc.mp hno
      obtain ⟨s, hs, hagree, hsize⟩ := ih hno'
      rw [Machine.run_append hs, run_snoc]
      cases a with
      | get key =>
        obtain ⟨hget, habs⟩ := hagree.coherent.get_absent (hlast key rfl)
        refine ⟨⟨s.cache, s.results ++ [none]⟩, ?_, ⟨?_, ?_⟩, hsize⟩
        · simp only [Machine.run, machine, CacheRun.call, hget, ok_bind]
          rfl
        · simp only [Recent.call, habs, hagree.results]
        · simp only [Recent.call, habs]
          exact hagree.coherent
      | put key value =>
        obtain ⟨d, hd, hds, hdc⟩ := hagree.coherent.put hsize hpos key value
        refine ⟨{ s with cache := d }, ?_, ⟨hagree.results, hdc⟩, hds.trans hsize⟩
        simp only [Machine.run, machine, CacheRun.call, hd, ok_bind]
        rfl
  constructor
  · intro h
    induction calls using List.reverseRecOn with
    | nil =>
      intro before key after hcut
      exact absurd hcut (by simp)
    | append_singleton calls a ih =>
      have hno' := ih fun p hp => h p (hp.trans (List.prefix_append _ _))
      refine noHit_snoc.mpr ⟨hno', ?_⟩
      rintro key rfl value hmem
      obtain ⟨s, hs, hagree, _⟩ := hstrong calls hno'
      obtain ⟨t, ht, _⟩ := h _ List.prefix_rfl
      rw [Machine.run_append hs] at ht
      have hhit : ∃ it, s.cache.cacheMap key = some it := by
        cases hm : s.cache.cacheMap key with
        | none => exact absurd hmem (hagree.coherent.map_none_iff.mp hm value)
        | some it => exact ⟨it, rfl⟩
      obtain ⟨it, hit⟩ := hhit
      have hstep := Machine.run_singleton_ok ht
      simp only [machine, CacheRun.call, LRUCache.get_hit hit] at hstep
      cases hstep
  · intro h before hbefore
    obtain ⟨after, rfl⟩ := hbefore
    have hno : NoHit capacity before := by
      intro b key a hcut
      exact h b key (a ++ after) (by rw [hcut]; simp)
    obtain ⟨s, hs, hagree, _⟩ := hstrong before hno
    exact ⟨s, hs, hagree⟩

/- A second key goes when a third one comes. -/
def evictingPuts : List (CacheCall Nat Nat) := [.put 0 1, .put 1 2, .put 0 3, .put 2 4]

theorem lru_refines_iff_evicting :
    ∃ s, (machine 0 2).run ⟨.new 0 2, []⟩ (evictingPuts ++ [.get 1]) = some (.ok s) ∧
      s.Agrees 2 ([(2, 4), (0, 3)], [none]) := by
  refine (lru_refines_iff 0 2 (by decide) (by decide) (evictingPuts ++ [.get 1])).mpr ?_ _
    List.prefix_rfl
  refine noHit_snoc.mpr ⟨?_, ?_⟩
  · intro before key after hcut
    have hmem : CacheCall.get key ∈ evictingPuts := by
      rw [hcut]
      simp
    simp [evictingPuts] at hmem
  · intro key hkey value hmem
    cases hkey
    simp [Recent.run, Recent.call, Recent.put, evictingPuts] at hmem

/-- A key that is put and then asked for. -/
theorem lru_reads_erased_node :
    (machine 0 2).failsWith ⟨.new 0 2, []⟩ [.put 0 1, .get 0] .danglingIterator = true ∧
      ¬ ∀ before : List (CacheCall Nat Nat), before <+: [.put 0 1, .get 0] → ∃ s,
        (machine 0 2).run ⟨.new 0 2, []⟩ before = some (.ok s) ∧
          s.Agrees 2 (Recent.run 2 before) := by
  have hfails : (machine 0 2).failsWith ⟨.new 0 2, []⟩
      [(.put 0 1 : CacheCall Nat Nat), .get 0] .danglingIterator = true := by decide
  refine ⟨hfails, ?_⟩
  intro h
  obtain ⟨s, hs, _⟩ := h [.put 0 1, .get 0] List.prefix_rfl
  rw [Machine.run_of_failsWith hfails] at hs
  cases hs

end CacheRun

end TstMuduo.Lru
