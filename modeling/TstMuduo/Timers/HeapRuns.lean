import TstMuduo.Timers.TimerHeap

/-!
# When the timer heap works (examples/tst-tw-timer/heapopr.cpp)

`tick` goes on with the timer that it has just deleted, and the compaction of `del_timer`
loses the valid timers in front of the first invalid one. What is left are ticks that find
at most one timer or nothing to do, and compactions that begin with an invalid timer.
-/

namespace TstMuduo.Timers
open TstMuduo.Lib

namespace TimerHeap

variable {lib : StdHeap (Option Nat)} {h : TimerHeap} {ids : List Nat}

/-! ### Reading and arranging -/

theorem read_some {nodes : Nat → Option HeapTimerNode} {p : Nat} {node : HeapTimerNode}
    (hp : nodes p = some node) : read nodes (some p) = .ok node := by
  simp only [read, hp]

theorem free_some {nodes : Nat → Option HeapTimerNode} {p : Nat} (hp : (nodes p).isSome) :
    free nodes (some p) = .ok (Function.update nodes p none) := by
  obtain ⟨node, hnode⟩ := Option.isSome_iff_exists.mp hp
  simp only [free, read_some hnode, ok_bind]
  rfl

theorem entry_of_getElem? {i : Nat} {e : Option Nat} (he : h.array[i]? = some e) :
    h.entry i = .ok e := by
  simp only [entry, he]

theorem setEntry_of_lt {i : Nat} (e : Option Nat) (hi : i < h.array.length) :
    h.setEntry i e = .ok { h with array := h.array.set i e } := by
  simp only [setEntry, check_ok hi, ok_bind]
  rfl

theorem compared_live {nodes : Nat → Option HeapTimerNode} (hlive : ∀ p ∈ ids, (nodes p).isSome) :
    compared nodes (ids.map some) = .ok () := by
  induction ids with
  | nil => rfl
  | cons p rest ih =>
    obtain ⟨node, hnode⟩ := Option.isSome_iff_exists.mp (hlive p List.mem_cons_self)
    simp only [List.map_cons, compared, read_some hnode, ok_bind]
    exact ih fun q hq => hlive q (List.mem_cons_of_mem _ hq)

theorem arrange_live
    (alg : (Option Nat → Option Nat → Bool) → List (Option Nat) → List (Option Nat))
    (hsize : ids.length = h.curSize) (hentries : h.array.take h.curSize = ids.map some)
    (hlive : ∀ p ∈ ids, (h.nodes p).isSome) :
    arrange alg h = .ok { h with
      array := alg (cmpHeapTimerNode h.nodes) (ids.map some) ++ h.array.drop h.curSize } := by
  have hle : h.curSize ≤ h.array.length := by
    have hlen := congrArg List.length hentries
    rw [List.length_take, List.length_map, hsize] at hlen
    omega
  simp only [arrange, check_ok hle, ok_bind, hentries, compared_live hlive]
  split <;> rfl

theorem cmp_weakOrder (nodes : Nat → Option HeapTimerNode) :
    WeakOrder (cmpHeapTimerNode nodes) :=
  WeakOrder.ofKey (expireOf nodes)

theorem exists_ids_of_perm {l : List (Option Nat)} (hl : l.Perm (ids.map some)) :
    ∃ ids' : List Nat, l = ids'.map some ∧ ids'.Perm ids := by
  have hall : ∀ {l : List (Option Nat)}, (∀ e ∈ l, e ≠ none) → (l.filterMap id).map some = l := by
    intro l hne
    induction l with
    | nil => rfl
    | cons e rest ih =>
      obtain ⟨p, rfl⟩ := Option.ne_none_iff_exists'.mp (hne e List.mem_cons_self)
      show some p :: (rest.filterMap id).map some = some p :: rest
      rw [ih fun e he => hne e (List.mem_cons_of_mem _ he)]
  refine ⟨l.filterMap id, (hall ?_).symm, ?_⟩
  · intro e he hnone
    obtain ⟨p, _, hp⟩ := List.mem_map.mp (hl.mem_iff.mp he)
    exact Option.some_ne_none p (hp.trans hnone)
  · have hperm := hl.filterMap id
    rw [List.filterMap_map, show id ∘ some = (some : Nat → Option Nat) from rfl,
      List.filterMap_some] at hperm
    exact hperm

theorem Holds.size_le (hh : h.Holds ids) : h.curSize ≤ h.cap := by
  have hlen := congrArg List.length hh.entries
  rw [List.length_take, List.length_map, hh.size, hh.length] at hlen
  omega

theorem Holds.array_eq (hh : h.Holds ids) : h.array = ids.map some ++ h.array.drop h.curSize := by
  rw [← hh.entries, List.take_append_drop]

theorem cmp_congr {nodes nodes' : Nat → Option HeapTimerNode} {l : List (Option Nat)}
    (hheap : IsHeap (cmpHeapTimerNode nodes) l)
    (hexpire : ∀ e ∈ l, expireOf nodes' e = expireOf nodes e) :
    IsHeap (cmpHeapTimerNode nodes') l := by
  refine hheap.congr fun a ha b hb => ?_
  unfold cmpHeapTimerNode
  rw [hexpire a ha, hexpire b hb]

theorem holds_arranged {l : List (Option Nat)} {n : Nat} {ids' : List Nat}
    (hroom : h.cap ≤ intMax) (hlen : h.array.length = h.cap) (hn : n ≤ h.array.length) (hids : ids'.length = n)
    (hperm : l.Perm (ids'.map some)) (hnodup : ids'.Nodup)
    (hlive : ∀ p ∈ ids', (h.nodes p).isSome) (hheap : IsHeap (cmpHeapTimerNode h.nodes) l) :
    ∃ ids, { h with array := l ++ h.array.drop n, curSize := n }.Holds ids ∧ ids.Perm ids' := by
  obtain ⟨ids, rfl, hids'⟩ := exists_ids_of_perm hperm
  have hlength : ids.length = n := hids'.length_eq.trans hids
  refine ⟨ids, ⟨hroom, ?_, hlength, ?_, hids'.nodup_iff.mpr hnodup, ?_, hheap⟩, hids'⟩
  · show (ids.map some ++ h.array.drop n).length = h.cap
    rw [List.length_append, List.length_map, List.length_drop, hlength]
    omega
  · show (ids.map some ++ h.array.drop n).take n = ids.map some
    rw [← hlength, List.take_left' (List.length_map _)]
  · intro p hp
    exact hlive p (hids'.mem_iff.mp hp)

/-! ### `add_timer` -/

theorem addTimer_spec (lib : StdHeap (Option Nat)) {p : Nat} (hh : h.Holds ids)
    (hcap : 0 < h.cap) (hgrow : h.cap ≤ h.curSize → h.cap * 2 ≤ intMax) (hp : p ∉ ids)
    (hnode : (h.nodes p).isSome) :
    ∃ t ids', h.addTimer lib (some p) = .ok t ∧ t.Holds ids' ∧ ids'.Perm (ids ++ [p]) ∧
      t.nodes = h.nodes ∧ t.delNum = h.delNum := by
  obtain ⟨r, hr, hrnodes, hrnum, hrsize, hrmax, hrlen, hrtake, hroom⟩ : ∃ r : TimerHeap,
      h.makeRoom = .ok r ∧ r.nodes = h.nodes ∧ r.delNum = h.delNum ∧ r.curSize = h.curSize ∧
      r.cap ≤ intMax ∧ r.array.length = r.cap ∧ r.array.take h.curSize = ids.map some ∧
      h.curSize < r.array.length := by
    unfold makeRoom
    have hlen := hh.length
    have hle := hh.size_le
    by_cases hfull : h.cap ≤ h.curSize
    · have hall : h.array.take (h.cap * 2) = h.array := List.take_of_length_le (by omega)
      refine ⟨{ h with
        array := h.array ++ List.replicate (h.cap * 2 - h.array.length) none
        cap := h.cap * 2 }, ?_, rfl, rfl, rfl, hgrow hfull, ?_, ?_, ?_⟩
      · rw [if_pos hfull, resize, check_ok (hgrow hfull), ok_bind, hall]
        rfl
      · simp only [List.length_append, List.length_replicate]
        omega
      · rw [List.take_append_of_le_length (by omega)]
        exact hh.entries
      · simp only [List.length_append, List.length_replicate]
        omega
    · rw [if_neg hfull]
      exact ⟨h, rfl, rfl, rfl, rfl, hh.room, hlen, hh.entries, by omega⟩
  have hset := setEntry_of_lt (h := r) (some p) (hrsize ▸ hroom)
  have htake : (r.array.set r.curSize (some p)).take (r.curSize + 1) = (ids ++ [p]).map some := by
    rw [hrsize, List.take_succ_eq_append_getElem (by rw [List.length_set]; exact hroom),
      List.take_set_of_le (Nat.le_refl _), hrtake, List.getElem_set_self, List.map_append]
    rfl
  have hlive : ∀ q ∈ ids ++ [p], (r.nodes q).isSome := by
    intro q hq
    rw [hrnodes]
    rcases List.mem_append.mp hq with hq | hq
    · exact hh.live q hq
    · rw [List.mem_singleton.mp hq]
      exact hnode
  have hlength : (ids ++ [p]).length = r.curSize + 1 := by
    rw [List.length_append, hh.size, hrsize, List.length_singleton]
  have harrange := arrange_live (h := { r with
    array := r.array.set r.curSize (some p), curSize := r.curSize + 1 }) lib.pushHeap
    hlength htake hlive
  have hheap : IsHeap (cmpHeapTimerNode r.nodes) (ids.map some) := hrnodes ▸ hh.heap
  have hnodup : (ids ++ [p]).Nodup := List.nodup_append.mpr ⟨hh.nodup, List.nodup_singleton p, by
    intro q hq q' hq' he
    rw [List.mem_singleton.mp hq'] at he
    exact hp (he ▸ hq)⟩
  obtain ⟨ids', hholds, hperm⟩ := holds_arranged (h := { r with
    array := r.array.set r.curSize (some p), curSize := r.curSize + 1 })
    (l := lib.pushHeap (cmpHeapTimerNode r.nodes) ((ids ++ [p]).map some)) (n := r.curSize + 1)
    hrmax (by rw [List.length_set]; exact hrlen) (by rw [List.length_set, hrsize]; exact hroom)
    hlength
    (by rw [List.map_append]; exact lib.push_perm _ _ _ (cmp_weakOrder _) hheap)
    hnodup hlive
    (by rw [List.map_append]; exact lib.push_heap _ _ _ (cmp_weakOrder _) hheap)
  refine ⟨_, ids', ?_, hholds, hperm, hrnodes, hrnum⟩
  have hsize : r.curSize + 1 ≤ intMax := by omega
  unfold addTimer
  simp only [hr, hset, ok_bind, check_ok hsize]
  exact harrange

/-! ### The compaction of `del_timer` -/

def isValid (nodes : Nat → Option HeapTimerNode) (p : Nat) : Bool :=
  ((nodes p).map HeapTimerNode.validFlag).getD false

theorem isValid_some {nodes : Nat → Option HeapTimerNode} {p : Nat} {node : HeapTimerNode}
    (hp : nodes p = some node) : isValid nodes p = node.validFlag := by
  simp only [isValid, hp, Option.map_some, Option.getD_some]

theorem isValid_update_of_ne {nodes : Nat → Option HeapTimerNode} {p q : Nat}
    {o : Option HeapTimerNode} (hq : q ≠ p) :
    isValid (Function.update nodes p o) q = isValid nodes q := by
  simp only [isValid, Function.update_of_ne hq]

theorem set_middle {α : Type} (a : List α) (x y : α) (b : List α) :
    (a ++ x :: b).set a.length y = a ++ y :: b := by
  rw [List.set_append_right _ _ (Nat.le_refl _), Nat.sub_self, List.set_cons_zero]

section
variable (kept : List Nat) (k p : Nat) (rest : List Nat) (tail : List (Option Nat))

/-! The array in the loop: the timers that stay, `k` gaps, then `p` and what is still to come. -/

theorem length_gaps : (kept.map some ++ List.replicate k none).length = kept.length + k := by
  rw [List.length_append, List.length_map, List.length_replicate]

theorem entry_behind_gaps :
    (kept.map some ++ List.replicate k none ++ ((p :: rest).map some ++ tail))[kept.length + k]? =
      some (some p) := by
  rw [List.getElem?_append_right (length_gaps kept k).le, length_gaps, Nat.sub_self]
  rfl

theorem set_dropped :
    (kept.map some ++ List.replicate k none ++ ((p :: rest).map some ++ tail)).set
        (kept.length + k) none =
      kept.map some ++ List.replicate (k + 1) none ++ (rest.map some ++ tail) := by
  have hset := set_middle (kept.map some ++ List.replicate k none) (some p) none
    (rest.map some ++ tail)
  rw [length_gaps] at hset
  rw [List.map_cons, List.cons_append, hset, List.replicate_succ']
  simp

theorem set_moved :
    ((kept.map some ++ List.replicate (k + 1) none ++ ((p :: rest).map some ++ tail)).set
        kept.length (some p)).set (kept.length + (k + 1)) none =
      (kept ++ [p]).map some ++ List.replicate (k + 1) none ++ (rest.map some ++ tail) := by
  have hfirst : (kept.map some ++ List.replicate (k + 1) none ++
      ((p :: rest).map some ++ tail)).set kept.length (some p) =
        (kept ++ [p]).map some ++ List.replicate k none ++ ((p :: rest).map some ++ tail) := by
    have hset := set_middle (kept.map some) none (some p) (List.replicate k none ++
      ((p :: rest).map some ++ tail))
    rw [List.length_map] at hset
    rw [List.replicate_succ, List.append_assoc, List.cons_append, hset]
    simp
  have hlast := set_dropped (kept ++ [p]) k p rest tail
  rw [List.length_append, List.length_singleton] at hlast
  rw [hfirst, Nat.add_comm k 1, ← Nat.add_assoc, hlast, Nat.add_comm 1 k]

end

/-- What the loop makes of `h`, with `todo` still to come behind the timers that stay: the valid
timers move up and the others are deleted. -/
structure Compacted (h t : TimerHeap) (kept todo : List Nat) (tail : List (Option Nat)) : Prop where
  array : ∃ m, t.array =
    (kept ++ todo.filter (isValid h.nodes)).map some ++ List.replicate m none ++ tail
  length : t.array.length = h.array.length
  cap : t.cap = h.cap
  nodes : ∀ q, t.nodes q = if q ∈ todo ∧ isValid h.nodes q = false then none else h.nodes q

section
variable {t : TimerHeap} {kept rest : List Nat} {p : Nat} {tail array : List (Option Nat)}

theorem isValid_delete (hp : p ∉ rest) :
    ∀ q ∈ rest, isValid (Function.update h.nodes p none) q = isValid h.nodes q :=
  fun _ hq => isValid_update_of_ne fun he => hp (he ▸ hq)

theorem Compacted.keep (hvalid : isValid h.nodes p = true) (hlen : array.length = h.array.length)
    (hc : Compacted { h with array := array } t (kept ++ [p]) rest tail) :
    Compacted h t kept (p :: rest) tail where
  array := by
    obtain ⟨m, hm⟩ := hc.array
    refine ⟨m, ?_⟩
    rw [hm, List.filter_cons_of_pos hvalid, List.append_assoc kept, List.singleton_append]
  length := hc.length.trans hlen
  cap := hc.cap
  nodes := by
    intro q
    rw [hc.nodes q]
    by_cases hq : q = p
    · have hkept : ¬ isValid h.nodes q = false := by
        rw [hq, hvalid]
        decide
      rw [if_neg (fun h => hkept h.2), if_neg (fun h => hkept h.2)]
    · simp only [List.mem_cons, hq, false_or]

theorem Compacted.drop (hvalid : isValid h.nodes p = false) (hp : p ∉ rest)
    (hlen : array.length = h.array.length)
    (hc : Compacted { h with nodes := Function.update h.nodes p none, array := array } t kept rest
      tail) :
    Compacted h t kept (p :: rest) tail where
  array := by
    obtain ⟨m, hm⟩ := hc.array
    refine ⟨m, ?_⟩
    rw [hm, List.filter_cons_of_neg (by rw [hvalid]; decide),
      List.filter_congr (isValid_delete hp)]
  length := hc.length.trans hlen
  cap := hc.cap
  nodes := by
    intro q
    rw [hc.nodes q]
    by_cases hq : q = p
    · subst hq
      rw [if_neg (fun h => hp h.1), if_pos ⟨List.mem_cons_self, hvalid⟩]
      exact Function.update_self _ _ _
    · simp only [List.mem_cons, hq, false_or, isValid_update_of_ne hq, Function.update_of_ne hq]

end

theorem compactLoop_spec (kept todo : List Nat) (k : Nat) (discarded : List Nat)
    {tail : List (Option Nat)}
    (harray : h.array = kept.map some ++ List.replicate k none ++ (todo.map some ++ tail))
    (hlive : ∀ p ∈ todo, (h.nodes p).isSome) (hnodup : todo.Nodup)
    (hgap : 0 < k ∨ ∀ p ∈ todo.head?, isValid h.nodes p = false) :
    ∃ t, compactLoop todo.length h (kept.length + k) kept.length discarded =
        .ok (t, (kept ++ todo.filter (isValid h.nodes)).length,
          discarded ++ todo.filter fun p => !isValid h.nodes p) ∧
      Compacted h t kept todo tail := by
  induction todo generalizing h kept k discarded with
  | nil =>
    refine ⟨h, ?_, ⟨k, ?_⟩, rfl, rfl, fun q => ?_⟩
    · simp only [List.filter_nil, List.append_nil]
      rfl
    · rw [harray, List.filter_nil, List.append_nil, List.map_nil, List.nil_append]
    · rw [if_neg fun hq => List.not_mem_nil hq.1]
  | cons p rest ih =>
    obtain ⟨node, hnode⟩ := Option.isSome_iff_exists.mp (hlive p List.mem_cons_self)
    have hvalid := isValid_some hnode
    have hentry : h.array[kept.length + k]? = some (some p) := by
      rw [harray]
      exact entry_behind_gaps kept k p rest tail
    have hroom : kept.length + k < h.array.length := (List.getElem?_eq_some_iff.mp hentry).1
    have hrest := List.nodup_cons.mp hnodup
    simp only [List.length_cons, compactLoop, entry_of_getElem? hentry, ok_bind, read_some hnode]
    cases hflag : node.validFlag with
    | true =>
      rw [hflag] at hvalid
      have hk : 0 < k := by
        rcases hgap with hk | hhead
        · exact hk
        · cases hvalid.symm.trans (hhead p rfl)
      obtain ⟨k, rfl⟩ := Nat.exists_eq_succ_of_ne_zero (Nat.pos_iff_ne_zero.mp hk)
      have hmoved : (h.array.set kept.length (some p)).set (kept.length + (k + 1)) none =
          (kept ++ [p]).map some ++ List.replicate (k + 1) none ++ (rest.map some ++ tail) := by
        rw [harray]
        exact set_moved kept k p rest tail
      obtain ⟨t, ht, hc⟩ := ih
        (h := { h with
          array := (h.array.set kept.length (some p)).set (kept.length + (k + 1)) none })
        (kept ++ [p]) (k + 1) discarded hmoved
        (fun q hq => hlive q (List.mem_cons_of_mem _ hq)) hrest.2 (.inl (Nat.succ_pos k))
      refine ⟨t, ?_, hc.keep hvalid (by rw [List.length_set, List.length_set])⟩
      rw [setEntry_of_lt _ (by omega), ok_bind,
        setEntry_of_lt _ (by rw [List.length_set]; exact hroom), ok_bind,
        List.filter_cons_of_pos hvalid, List.filter_cons_of_neg (by rw [hvalid]; decide)]
      rw [List.length_append, List.length_singleton, List.append_assoc, List.singleton_append,
        Nat.add_right_comm] at ht
      exact ht
    | false =>
      rw [hflag] at hvalid
      have hmoved : h.array.set (kept.length + k) none =
          kept.map some ++ List.replicate (k + 1) none ++ (rest.map some ++ tail) := by
        rw [harray]
        exact set_dropped kept k p rest tail
      have hlive' : ∀ q ∈ rest, (Function.update h.nodes p none q).isSome := by
        intro q hq
        have hne : q ≠ p := fun he => hrest.1 (he ▸ hq)
        rw [Function.update_of_ne hne]
        exact hlive q (List.mem_cons_of_mem _ hq)
      obtain ⟨t, ht, hc⟩ := ih
        (h := { h with
          nodes := Function.update h.nodes p none
          array := h.array.set (kept.length + k) none })
        kept (k + 1) (discarded ++ [p]) hmoved hlive' hrest.2 (.inl (Nat.succ_pos k))
      refine ⟨t, ?_, hc.drop hvalid hrest.1 List.length_set⟩
      have hothers : (rest.filter fun q => !isValid (Function.update h.nodes p none) q) =
          rest.filter fun q => !isValid h.nodes q :=
        List.filter_congr fun q hq => congrArg (!·) (isValid_delete hrest.1 q hq)
      rw [if_neg (by decide), free_some (by rw [hnode]; rfl), ok_bind,
        setEntry_of_lt (h := { h with nodes := Function.update h.nodes p none }) none hroom,
        ok_bind, List.filter_cons_of_neg (by rw [hvalid]; decide),
        List.filter_cons_of_pos (by rw [hvalid]; decide)]
      rw [List.filter_congr (isValid_delete hrest.1), hothers, List.append_assoc,
        List.singleton_append] at ht
      exact ht

theorem compactLoop_lost {n i v : Nat} {discarded : List Nat} {r : TimerHeap × Nat × List Nat}
    (hi : 0 < i) (hv : 0 < v) (hfirst : h.array[0]? = some none)
    (hr : compactLoop n h i v discarded = .ok r) : r.1.array[0]? = some none ∧ 0 < r.2.1 := by
  have hset : ∀ {h t : TimerHeap} {j : Nat} {e : Option Nat}, 0 < j → h.array[0]? = some none →
      h.setEntry j e = .ok t → t.array[0]? = some none := by
    intro h t j e hj hnull ht
    obtain ⟨_, _, ht⟩ := bind_eq_ok ht
    cases ht
    show (h.array.set j e)[0]? = some none
    rw [List.getElem?_set_ne (by omega)]
    exact hnull
  induction n generalizing h i v discarded with
  | zero =>
    cases hr
    exact ⟨hfirst, hv⟩
  | succ n ih =>
    obtain ⟨e, _, hr⟩ := bind_eq_ok hr
    obtain ⟨node, _, hr⟩ := bind_eq_ok hr
    split at hr
    · obtain ⟨h1, h1eq, hr⟩ := bind_eq_ok hr
      obtain ⟨h2, h2eq, hr⟩ := bind_eq_ok hr
      exact ih (Nat.succ_pos i) (Nat.succ_pos v) (hset hi (hset hv hfirst h1eq) h2eq) hr
    · obtain ⟨nodes, _, hr⟩ := bind_eq_ok hr
      obtain ⟨h2, h2eq, hr⟩ := bind_eq_ok hr
      exact ih (Nat.succ_pos i) hv (hset (h := { h with nodes := nodes }) hi hfirst h2eq) hr

def marked (nodes : Nat → Option HeapTimerNode) (p : Nat) (node : HeapTimerNode) :
    Nat → Option HeapTimerNode :=
  Function.update nodes p (some { node with cbFunc := false, validFlag := false })

theorem marked_isSome {nodes : Nat → Option HeapTimerNode} (p : Nat) (node : HeapTimerNode)
    {q : Nat} (hq : (nodes q).isSome) : (marked nodes p node q).isSome := by
  unfold marked
  by_cases he : q = p
  · rw [he, Function.update_self]
    rfl
  · rw [Function.update_of_ne he]
    exact hq

theorem expireOf_marked {nodes : Nat → Option HeapTimerNode} {p : Nat} {node : HeapTimerNode}
    (hnode : nodes p = some node) (e : Option Nat) :
    expireOf (marked nodes p node) e = expireOf nodes e := by
  unfold expireOf marked
  cases e with
  | none => rfl
  | some q =>
    by_cases he : q = p
    · subst he
      simp only [Option.bind_some, Function.update_self, hnode, Option.map_some]
    · simp only [Option.bind_some, Function.update_of_ne he]

def mark (h : TimerHeap) (p : Nat) (node : HeapTimerNode) : TimerHeap :=
  { h with nodes := marked h.nodes p node, delNum := h.delNum + 1 }

theorem delTimer_eq {p : Nat} {node : HeapTimerNode} (hnode : h.nodes p = some node)
    (hnum : h.delNum + 1 ≤ intMax) :
    h.delTimer lib (some p) =
      if h.curSize / 2 ≤ h.delNum + 1 then do
        let r ← compactLoop h.curSize (h.mark p node) 0 0 []
        let t ← arrange lib.makeHeap { r.1 with curSize := r.2.1 }
        return (t, r.2.2)
      else .ok (h.mark p node, []) := by
  unfold delTimer
  simp only [read_some hnode, ok_bind, check_ok hnum]
  rfl

/-- `del_timer` when it does not compact, or begins with an invalid timer when it does. -/
theorem delTimer_spec (lib : StdHeap (Option Nat)) {p : Nat} {node : HeapTimerNode}
    (hh : h.Holds ids) (hnode : h.nodes p = some node) (hnum : h.delNum + 1 ≤ intMax)
    (hgood : h.delNum + 1 < h.curSize / 2 ∨
      ∀ q ∈ ids.head?, isValid (marked h.nodes p node) q = false) :
    ∃ t d ids', h.delTimer lib (some p) = .ok (t, d) ∧ t.Holds ids' ∧
      (∀ q, q ∈ ids' ↔ q ∈ ids ∧ q ∉ d) ∧
      (∀ q ∈ d, q ∈ ids ∧ isValid (marked h.nodes p node) q = false) ∧
      ∀ q ∈ ids', t.nodes q = marked h.nodes p node q := by
  have hlive : ∀ q ∈ ids, (marked h.nodes p node q).isSome :=
    fun q hq => marked_isSome p node (hh.live q hq)
  have hheap : IsHeap (cmpHeapTimerNode (marked h.nodes p node)) (ids.map some) :=
    cmp_congr hh.heap fun e _ => expireOf_marked hnode e
  by_cases hcompact : h.curSize / 2 ≤ h.delNum + 1
  · have hfirst := hgood.resolve_left (by omega)
    obtain ⟨t, hloop, ⟨m, harr⟩, hlen, hcap, hnodes⟩ := compactLoop_spec
      (h := h.mark p node) [] ids 0 [] hh.array_eq hlive hh.nodup (.inr hfirst)
    rw [hh.size] at hloop
    simp only [List.nil_append, mark] at hloop harr
    generalize hstay : ids.filter (isValid (marked h.nodes p node)) = stay at hloop harr
    have hmem : ∀ q, q ∈ stay ↔ q ∈ ids ∧ isValid (marked h.nodes p node) q = true := by
      intro q
      rw [← hstay, List.mem_filter]
    have hsame : ∀ q ∈ stay, t.nodes q = marked h.nodes p node q := by
      intro q hq
      refine (hnodes q).trans (if_neg fun hlost => ?_)
      cases ((hmem q).mp hq).2.symm.trans hlost.2
    have hstaylive : ∀ q ∈ stay, (t.nodes q).isSome := by
      intro q hq
      rw [hsame q hq]
      exact hlive q ((hmem q).mp hq).1
    have htake : t.array.take stay.length = stay.map some := by
      rw [harr, List.append_assoc, List.take_left' (List.length_map _)]
    have hroom : stay.length ≤ t.array.length := by
      rw [harr, List.length_append, List.length_append, List.length_map]
      omega
    have harrange := arrange_live (h := { t with curSize := stay.length }) lib.makeHeap rfl htake
      hstaylive
    obtain ⟨ids', hholds, hperm⟩ := holds_arranged (h := { t with curSize := stay.length })
      (l := lib.makeHeap (cmpHeapTimerNode t.nodes) (stay.map some)) (n := stay.length)
      (hcap.le.trans hh.room) (hlen.trans (hh.length.trans hcap.symm)) hroom rfl
      (lib.make_perm _ _ (cmp_weakOrder _)) (hstay ▸ hh.nodup.filter _) hstaylive
      (lib.make_heap _ _ (cmp_weakOrder _))
    refine ⟨_, ids.filter fun q => !isValid (marked h.nodes p node) q, ids', ?_, hholds, ?_, ?_, ?_⟩
    · have hstart : compactLoop h.curSize (h.mark p node) 0 0 [] = _ := hloop
      rw [delTimer_eq hnode hnum, if_pos hcompact, hstart]
      simp only [ok_bind, harrange]
      rfl
    · intro q
      rw [hperm.mem_iff, hmem, List.mem_filter]
      cases isValid (marked h.nodes p node) q <;> simp
    · intro q hq
      obtain ⟨hq, hinvalid⟩ := List.mem_filter.mp hq
      exact ⟨hq, by simpa using hinvalid⟩
    · intro q hq
      exact hsame q (hperm.mem_iff.mp hq)
  · refine ⟨h.mark p node, [], ids, ?_,
      ⟨hh.room, hh.length, hh.size, hh.entries, hh.nodup, hlive, hheap⟩, ?_, ?_, fun _ _ => rfl⟩
    · rw [delTimer_eq hnode hnum, if_neg hcompact]
    · intro q
      exact ⟨fun hq => ⟨hq, List.not_mem_nil⟩, And.left⟩
    · intro q hq
      cases hq

/-- With a valid timer at the top the compaction loses it. -/
theorem delTimer_lost {p q : Nat} {node : HeapTimerNode} {rest : List Nat} {t : TimerHeap}
    {d ids' : List Nat} (hh : h.Holds (q :: rest)) (hnode : h.nodes p = some node)
    (hnum : h.delNum + 1 ≤ intMax) (hcompact : h.curSize / 2 ≤ h.delNum + 1) (hvalid : isValid (marked h.nodes p node) q = true)
    (ht : h.delTimer lib (some p) = .ok (t, d)) : ¬ t.Holds ids' := by
  obtain ⟨top, htop⟩ := Option.isSome_iff_exists.mp
    (marked_isSome p node (hh.live q List.mem_cons_self))
  rw [isValid_some htop] at hvalid
  obtain ⟨tail, harray⟩ : ∃ tail, h.array = some q :: tail := ⟨_, hh.array_eq⟩
  have hsize : h.curSize = rest.length + 1 := hh.size.symm
  rw [delTimer_eq hnode hnum, if_pos hcompact, hsize] at ht
  obtain ⟨⟨h1, validIndex, discarded⟩, hloop, ht⟩ := bind_eq_ok ht
  obtain ⟨h2, harrange, ht⟩ := bind_eq_ok ht
  cases ht
  -- the first step moves the top onto itself and then clears it
  have hlost : h1.array[0]? = some none ∧ 0 < validIndex := by
    have hentry : (h.mark p node).entry 0 = .ok (some q) :=
      entry_of_getElem? (by simp only [mark, harray]; rfl)
    have hread : read (h.mark p node).nodes (some q) = .ok top := read_some htop
    unfold compactLoop at hloop
    simp only [hentry, ok_bind, hread, hvalid, if_true] at hloop
    obtain ⟨h3, h3eq, hloop⟩ := bind_eq_ok hloop
    obtain ⟨h4, h4eq, hloop⟩ := bind_eq_ok hloop
    obtain ⟨_, _, h3eq⟩ := bind_eq_ok h3eq
    cases h3eq
    obtain ⟨_, hlt, h4eq⟩ := bind_eq_ok h4eq
    cases h4eq
    refine compactLoop_lost (Nat.succ_pos 0) (Nat.succ_pos 0) ?_ hloop
    simp only [mark, harray, List.set_cons_zero]
    rfl
  obtain ⟨hnull, hpos⟩ := hlost
  obtain ⟨first, others, hcons⟩ : ∃ first others, h1.array = first :: others := by
    cases hc : h1.array with
    | nil => rw [hc] at hnull; cases hnull
    | cons first others => exact ⟨first, others, rfl⟩
  rw [hcons] at hnull
  cases hnull
  obtain ⟨n, rfl⟩ := Nat.exists_eq_succ_of_ne_zero (Nat.pos_iff_ne_zero.mp hpos)
  intro hbad
  obtain ⟨_, _, harrange⟩ := bind_eq_ok harrange
  simp only [hcons] at harrange
  cases n with
  | zero =>
    -- one entry is left, the lost one
    cases harrange
    have hone := lib.make_perm (cmpHeapTimerNode h1.nodes) [none] (cmp_weakOrder _)
    have hentries : [none] = ids'.map some := by
      have hentries := hbad.entries
      simp only [List.take_succ_cons, List.take_zero, List.perm_singleton.mp hone] at hentries
      exact hentries
    obtain ⟨r, _, hr⟩ := List.mem_map.mp (hentries ▸ List.mem_singleton_self none)
    cases hr
  | succ n =>
    rw [if_pos (by omega)] at harrange
    obtain ⟨_, hcompared, _⟩ := bind_eq_ok harrange
    cases hcompared

/-! ### `tick` -/

theorem Holds.top {p : Nat} {rest : List Nat} (hh : h.Holds (p :: rest)) :
    h.array.head? = some (some p) ∧ h.topNode = h.nodes p ∧ h.getTop = .ok (some p) := by
  obtain ⟨tail, harray⟩ : ∃ tail, h.array = some p :: tail := ⟨_, hh.array_eq⟩
  have hsize : h.curSize ≠ 0 := by
    rw [← hh.size]
    exact Nat.succ_ne_zero _
  refine ⟨by rw [harray]; rfl, by rw [topNode, harray]; rfl, ?_⟩
  unfold getTop
  rw [if_neg hsize]
  exact entry_of_getElem? (by rw [harray]; rfl)

theorem Holds.mem_held (hh : h.Holds ids) {x : Nat × HeapTimerNode} (hx : x ∈ h.held) :
    x.1 ∈ ids ∧ h.nodes x.1 = some x.2 := by
  unfold held at hx
  rw [hh.entries, List.filterMap_map] at hx
  obtain ⟨p, hp, hpx⟩ := List.mem_filterMap.mp hx
  obtain ⟨node, hnode, rfl⟩ := Option.map_eq_some_iff.mp hpx
  exact ⟨hp, hnode⟩

theorem Holds.top_le {p : Nat} {rest : List Nat} {node : HeapTimerNode} (hh : h.Holds (p :: rest))
    (hnode : h.nodes p = some node) {x : Nat × HeapTimerNode} (hx : x ∈ h.held) :
    node.expire ≤ x.2.expire := by
  obtain ⟨hmem, hxnode⟩ := hh.mem_held hx
  have hexpire : ∀ {q n}, h.nodes q = some n → expireOf h.nodes (some q) = n.expire := by
    intro q n hn
    simp only [expireOf, Option.bind_some, hn, Option.map_some, Option.getD_some]
  rcases List.mem_cons.mp hmem with he | hmem
  · rw [he, hnode] at hxnode
    rw [Option.some.inj hxnode]
  · have hroot := IsHeap.root (cmp_weakOrder _) hh.heap (List.mem_map_of_mem hmem)
    have hle := of_decide_eq_false hroot
    rw [hexpire hnode, hexpire hxnode] at hle
    omega

theorem delTop_spec (lib : StdHeap (Option Nat)) {p : Nat} {rest : List Nat}
    (hh : h.Holds (p :: rest)) :
    ∃ t ids', h.delTop lib = .ok (t, some p) ∧ t.Holds ids' ∧ ids'.Perm rest ∧
      t.nodes = Function.update h.nodes p none ∧ t.curSize = rest.length := by
  obtain ⟨r, hpop, hperm, hheap⟩ := lib.pop (cmpHeapTimerNode h.nodes) (some p) (rest.map some)
    (cmp_weakOrder _) hh.heap
  obtain ⟨ids', rfl, hids⟩ := exists_ids_of_perm hperm
  have hsize : h.curSize = rest.length + 1 := hh.size.symm
  have hlength : ids'.length = rest.length := hids.length_eq
  have harrange := arrange_live lib.popHeap hh.size hh.entries hh.live
  rw [List.map_cons, hpop, List.append_assoc, List.singleton_append] at harrange
  generalize htail : h.array.drop h.curSize = tail at harrange
  have htaillen : tail.length = h.array.length - h.curSize := by
    rw [← htail, List.length_drop]
  have hle := hh.size_le
  have hlen := hh.length
  have hlast : h.curSize - 1 = (ids'.map some).length := by
    rw [List.length_map, hlength, hsize]
    rfl
  have hpred : h.curSize - 1 = rest.length := by omega
  have hset : (ids'.map some ++ some p :: tail).set rest.length none =
      ids'.map some ++ none :: tail := by
    rw [← hpred, hlast, set_middle]
  have hnodup := List.nodup_cons.mp hh.nodup
  have hne : ∀ q ∈ ids', q ≠ p := by
    intro q hq he
    exact hnodup.1 (he ▸ hids.mem_iff.mp hq)
  refine ⟨⟨ids'.map some ++ none :: tail, h.cap, rest.length, h.delNum,
    Function.update h.nodes p none⟩, ids', ?_, ⟨hh.room, ?_, hlength, ?_, ?_, ?_, ?_⟩, hids, rfl,
    rfl⟩
  · unfold delTop
    rw [harrange]
    simp only [ok_bind]
    rw [entry_of_getElem? (e := some p) (by
      simp only [hlast]
      rw [List.getElem?_append_right (Nat.le_refl _), Nat.sub_self]
      rfl)]
    simp only [ok_bind, free_some (hh.live p List.mem_cons_self)]
    rw [setEntry_of_lt none (by
      simp only [hlast, List.length_append, List.length_cons]
      omega)]
    simp only [ok_bind, hpred, hset]
    rfl
  · simp only [List.length_append, List.length_map, List.length_cons, htaillen]
    omega
  · simp only
    rw [← hlength, ← List.length_map (f := some), List.take_left' rfl]
  · exact hids.nodup_iff.mpr hnodup.2
  · intro q hq
    simp only [Function.update_of_ne (hne q hq)]
    exact hh.live q (List.mem_cons_of_mem _ (hids.mem_iff.mp hq))
  · refine cmp_congr hheap fun e he => ?_
    obtain ⟨q, hq, rfl⟩ := List.mem_map.mp he
    simp only [expireOf, Option.bind_some, Function.update_of_ne (hne q hq)]

theorem tick_idle (lib : StdHeap (Option Nat)) {cur : Int} (hh : h.Holds ids)
    (hidle : ∀ p ∈ ids.head?, ∀ node, h.nodes p = some node → cur < node.expire) :
    h.tick lib cur = .ok (h, ⟨[], []⟩) := by
  cases ids with
  | nil =>
    have hsize : h.curSize = 0 := hh.size.symm
    unfold tick getTop
    rw [if_pos hsize, ok_bind, tickLoop.eq_def, if_pos hsize]
  | cons p rest =>
    obtain ⟨node, hnode⟩ := Option.isSome_iff_exists.mp (hh.live p List.mem_cons_self)
    have hsize : h.curSize ≠ 0 := by
      rw [← hh.size]
      exact Nat.succ_ne_zero _
    unfold tick
    rw [hh.top.2.2, ok_bind, tickLoop.eq_def, if_neg hsize]
    simp only [read_some hnode, ok_bind]
    rw [if_pos (hidle p rfl node hnode)]
    rfl

theorem tick_expired (lib : StdHeap (Option Nat)) {cur : Int} {p : Nat} {rest : List Nat}
    {node : HeapTimerNode} (hh : h.Holds (p :: rest)) (hnode : h.nodes p = some node)
    (hcur : ¬ cur < node.expire) :
    ∃ t ids', t.Holds ids' ∧ ids'.Perm rest ∧ t.nodes = Function.update h.nodes p none ∧
      t.curSize = rest.length ∧ ∃ e, t.getTop = .ok e ∧
      h.tick lib cur = tickLoop lib rest.length t (some p) cur
        ⟨if node.validFlag && node.cbFunc then [(p, node)] else [], [p]⟩ := by
  obtain ⟨t, ids', hdel, hholds, hperm, hnodes, hsize⟩ := delTop_spec lib hh
  have hcurSize : h.curSize = rest.length + 1 := hh.size.symm
  obtain ⟨e, he⟩ : ∃ e, t.getTop = .ok e := by
    cases ids' with
    | nil => exact ⟨none, if_pos hholds.size.symm⟩
    | cons q ids' => exact ⟨some q, hholds.top.2.2⟩
  refine ⟨t, ids', hholds, hperm, hnodes, hsize, e, he, ?_⟩
  unfold tick
  rw [hh.top.2.2, ok_bind, tickLoop.eq_def, if_neg (by omega), hcurSize]
  simp only [read_some hnode, ok_bind]
  rw [if_neg hcur]
  simp only [hdel, ok_bind, he, List.nil_append, Option.toList_some]

theorem tick_dangling {cur : Int} {p q : Nat} {rest : List Nat} {node : HeapTimerNode}
    (hh : h.Holds (p :: q :: rest)) (hnode : h.nodes p = some node) (hcur : ¬ cur < node.expire) :
    h.tick lib cur = .error .danglingTimer := by
  obtain ⟨t, ids', _, _, hnodes, hsize, e, _, htick⟩ := tick_expired lib hh hnode hcur
  have hgone : read t.nodes (some p) = .error .danglingTimer := by
    simp only [read, hnodes, Function.update_self]
  rw [htick, tickLoop.eq_def, if_neg (by rw [hsize]; exact Nat.succ_ne_zero _)]
  simp only [hgone]
  rfl

theorem tick_last (lib : StdHeap (Option Nat)) {cur : Int} {p : Nat} {node : HeapTimerNode}
    (hh : h.Holds [p]) (hnode : h.nodes p = some node) (hcur : ¬ cur < node.expire) :
    ∃ t, t.Holds [] ∧ h.tick lib cur =
      .ok (t, ⟨if node.validFlag && node.cbFunc then [(p, node)] else [], [p]⟩) := by
  obtain ⟨t, ids', hholds, hperm, _, hsize, e, _, htick⟩ := tick_expired lib hh hnode hcur
  cases List.perm_nil.mp hperm
  have hempty : t.curSize = 0 := hsize
  refine ⟨t, hholds, ?_⟩
  rw [htick, tickLoop.eq_def, if_pos hempty]

end TimerHeap

namespace HeapRun
open TimerHeap

variable {lib : StdHeap (Option Nat)} {s : HeapRun}

/-! ### The calls that keep the heap right -/

/-- The heap is right, and what has gone had been added. -/
structure Inv (s : HeapRun) : Prop where
  right : s.Right
  deleted : ∀ p ∈ s.deleted, p ∈ s.added.map Prod.fst
  expired : ∀ p ∈ s.expired, p ∈ s.added.map Prod.fst

theorem new_inv (lib : StdHeap (Option Nat)) (cap : Fin (intMax + 1)) : (new lib cap).Inv where
  right := by
    have hempty : lib.makeHeap (cmpHeapTimerNode fun _ => none) [] = [] :=
      List.perm_nil.mp (lib.make_perm _ [] (cmp_weakOrder _))
    refine ⟨⟨[], ⟨Nat.le_of_lt_succ cap.isLt, ?_, rfl, rfl, List.nodup_nil, fun _ hp => (List.not_mem_nil hp).elim,
      IsHeap.nil⟩, ?_, fun _ hp => (List.not_mem_nil hp).elim⟩,
      fun _ hp => (List.not_mem_nil hp).elim, fun _ hr => (List.not_mem_nil hr).elim⟩
    · simp only [new, TimerHeap.new, hempty, List.nil_append, List.length_replicate]
    · intro p
      exact ⟨fun hp => (List.not_mem_nil hp).elim, fun hp => (List.not_mem_nil hp.1).elim⟩
  deleted := fun _ hp => (List.not_mem_nil hp).elim
  expired := fun _ hp => (List.not_mem_nil hp).elim

theorem Inv.addTimer (h : s.Inv) {p : Nat} {expire : Int} {cbFunc : Bool}
    (hfresh : p ∉ s.added.map Prod.fst) (hcap : 0 < s.heap.cap)
    (hgrow : s.heap.cap ≤ s.heap.curSize → s.heap.cap * 2 ≤ intMax) :
    ∃ t, s.call lib (.addTimer p expire cbFunc) = .ok t ∧ t.Inv := by
  obtain ⟨ids, hh, hexact, hnodes⟩ := h.right.holds
  have hp : p ∉ ids := fun hmem => hfresh ((hexact p).mp hmem).1
  have hne : ∀ q ∈ ids, q ≠ p := fun q hq he => hp (he ▸ hq)
  have hmade : TimerHeap.Holds { s.heap with
      nodes := Function.update s.heap.nodes p (some ⟨expire, cbFunc, true⟩) } ids := by
    refine ⟨hh.room, hh.length, hh.size, hh.entries, hh.nodup, fun q hq => ?_,
      cmp_congr hh.heap ?_⟩
    · simp only [Function.update_of_ne (hne q hq)]
      exact hh.live q hq
    · intro e he
      obtain ⟨q, hq, rfl⟩ := List.mem_map.mp he
      simp only [expireOf, Option.bind_some, Function.update_of_ne (hne q hq)]
  obtain ⟨t, ids', hadd, hholds, hperm, htnodes, _⟩ := addTimer_spec lib hmade hcap hgrow hp
    (by simp only [Function.update_self]; rfl)
  have hmem : ∀ q, q ∈ ids' ↔ q ∈ ids ∨ q = p := by
    intro q
    rw [hperm.mem_iff, List.mem_append, List.mem_singleton]
  refine ⟨{ s with heap := t, added := (p, expire) :: s.added },
    by simp only [call, hadd, ok_bind]; rfl, ⟨⟨ids', hholds, ?_, ?_⟩, h.right.discarded,
    h.right.ticks⟩, ?_, ?_⟩
  · intro q
    rw [hmem, hexact, List.map_cons, List.mem_cons]
    constructor
    · intro hq
      rcases hq with hq | rfl
      · exact ⟨.inr hq.1, hq.2⟩
      · exact ⟨.inl rfl, fun hx => hfresh (h.expired q hx),
          fun hd => hfresh (h.deleted q (h.right.discarded q hd))⟩
    · intro hq
      rcases hq.1 with he | hq1
      · exact .inr he
      · exact .inl ⟨hq1, hq.2⟩
  · intro q hq
    simp only [htnodes]
    rcases (hmem q).mp hq with hq | rfl
    · obtain ⟨node, hnode, hadded, hvalid⟩ := hnodes q hq
      exact ⟨node, by rw [Function.update_of_ne (hne q hq)]; exact hnode,
        List.mem_cons_of_mem _ hadded, hvalid⟩
    · refine ⟨⟨expire, cbFunc, true⟩, Function.update_self _ _ _, List.mem_cons_self, ?_⟩
      constructor
      · intro hf
        cases hf
      · intro hd
        exact (hfresh (h.deleted q hd)).elim
  · intro q hq
    exact List.mem_cons_of_mem _ (h.deleted q hq)
  · intro q hq
    exact List.mem_cons_of_mem _ (h.expired q hq)

theorem Inv.delTimer (h : s.Inv) {ids : List Nat} {p : Nat} {node : HeapTimerNode}
    (hh : s.heap.Holds ids) (hp : p ∈ ids) (hnode : s.heap.nodes p = some node)
    (hnum : s.heap.delNum + 1 ≤ intMax)
    (hgood : s.heap.delNum + 1 < s.heap.curSize / 2 ∨
      ∀ q ∈ ids.head?, isValid (marked s.heap.nodes p node) q = false) :
    ∃ t, s.call lib (.delTimer p) = .ok t ∧ t.Inv := by
  obtain ⟨ids0, hh0, hexact, hnodes⟩ := h.right.holds
  have hids : ids0 = ids :=
    List.map_injective_iff.mpr (Option.some_injective Nat) (hh0.entries.symm.trans hh.entries)
  subst hids
  obtain ⟨t, d, ids', hdel, hholds, hmem, hd, htnodes⟩ := delTimer_spec lib hh hnode hnum hgood
  have hpadded := ((hexact p).mp hp).1
  have hflag : ∀ q ∈ ids0, ∀ n, marked s.heap.nodes p node q = some n →
      (n.validFlag = false ↔ q ∈ p :: s.deleted) := by
    intro q hq n hn
    unfold marked at hn
    by_cases he : q = p
    · subst he
      rw [Function.update_self] at hn
      cases hn
      exact ⟨fun _ => List.mem_cons_self, fun _ => rfl⟩
    · rw [Function.update_of_ne he] at hn
      obtain ⟨m, hm, _, hvalid⟩ := hnodes q hq
      cases hm.symm.trans hn
      rw [hvalid, List.mem_cons]
      exact (or_iff_right he).symm
  refine ⟨{ s with heap := t, deleted := p :: s.deleted, discarded := s.discarded ++ d },
    by simp only [call, hdel, ok_bind]; rfl, ⟨⟨ids', hholds, ?_, ?_⟩, ?_, h.right.ticks⟩, ?_,
    h.expired⟩
  · intro q
    rw [hmem, hexact, List.mem_append, not_or]
    constructor
    · intro hq
      exact ⟨hq.1.1, hq.1.2.1, hq.1.2.2, hq.2⟩
    · intro hq
      exact ⟨⟨hq.1, hq.2.1, hq.2.2.1⟩, hq.2.2.2⟩
  · intro q hq
    have hqids := ((hmem q).mp hq).1
    obtain ⟨n, hn⟩ := Option.isSome_iff_exists.mp
      (marked_isSome p node (hh.live q hqids))
    refine ⟨n, (htnodes q hq).trans hn, ?_, hflag q hqids n hn⟩
    obtain ⟨m, hm, hadded, _⟩ := hnodes q hqids
    have hexpire := expireOf_marked hnode (some q)
    simp only [expireOf, Option.bind_some, hn, hm, Option.map_some, Option.getD_some] at hexpire
    rw [hexpire]
    exact hadded
  · intro q hq
    rcases List.mem_append.mp hq with hq | hq
    · exact List.mem_cons_of_mem _ (h.right.discarded q hq)
    · obtain ⟨hqids, hinvalid⟩ := hd q hq
      obtain ⟨n, hn⟩ := Option.isSome_iff_exists.mp
        (marked_isSome p node (hh.live q hqids))
      rw [isValid_some hn] at hinvalid
      exact (hflag q hqids n hn).mp hinvalid
  · intro q hq
    rcases List.mem_cons.mp hq with rfl | hq
    · exact hpadded
    · exact h.deleted q hq

theorem right_of_idle {now : Int} {held : List (Nat × HeapTimerNode)}
    (hlate : ∀ x ∈ held, now < x.2.expire) : TickRecord.Right ⟨now, held, [], []⟩ := by
  have hnone : ∀ x ∈ held, ¬ x.2.expire ≤ now := fun x hx => Int.not_le.mpr (hlate x hx)
  refine ⟨?_, List.Pairwise.nil, ?_⟩
  · rw [List.filter_eq_nil_iff.mpr]
    intro x hx
    rw [decide_eq_false (hnone x hx), Bool.and_false]
    exact Bool.false_ne_true
  · rw [List.filter_eq_nil_iff.mpr]
    · exact List.Perm.nil
    · intro x hx
      rw [decide_eq_false (hnone x hx)]
      exact Bool.false_ne_true

theorem Inv.tick_idle (h : s.Inv) {ids : List Nat} {now : Int} (hh : s.heap.Holds ids)
    (hidle : ∀ p ∈ ids.head?, ∀ node, s.heap.nodes p = some node → now < node.expire) :
    ∃ t, s.call lib (.tick now) = .ok t ∧ t.Inv := by
  have htick := TimerHeap.tick_idle lib hh hidle
  refine ⟨{ s with expired := s.expired ++ [], ticks := ⟨now, s.heap.held, [], []⟩ :: s.ticks },
    by simp only [call, htick, ok_bind]; rfl, ⟨?_, h.right.discarded, ?_⟩, h.deleted, ?_⟩
  · simp only [List.append_nil]
    exact h.right.holds
  · intro r hr
    rcases List.mem_cons.mp hr with rfl | hr
    · refine right_of_idle fun x hx => ?_
      cases ids with
      | nil => exact (List.not_mem_nil (hh.mem_held hx).1).elim
      | cons p rest =>
        obtain ⟨node, hnode⟩ := Option.isSome_iff_exists.mp (hh.live p List.mem_cons_self)
        exact Int.lt_of_lt_of_le (hidle p rfl node hnode) (hh.top_le hnode hx)
    · exact h.right.ticks r hr
  · simp only [List.append_nil]
    exact h.expired

theorem Inv.tick_last (h : s.Inv) {p : Nat} {now : Int} {node : HeapTimerNode}
    (hh : s.heap.Holds [p]) (hnode : s.heap.nodes p = some node) (hnow : ¬ now < node.expire) :
    ∃ t, s.call lib (.tick now) = .ok t ∧ t.Inv := by
  obtain ⟨ids, hh0, hexact, _⟩ := h.right.holds
  have hids : ids = [p] :=
    List.map_injective_iff.mpr (Option.some_injective Nat) (hh0.entries.symm.trans hh.entries)
  subst hids
  obtain ⟨t, hholds, htick⟩ := TimerHeap.tick_last lib hh hnode hnow
  have hheld : s.heap.held = [(p, node)] := by
    unfold held
    rw [hh.entries]
    simp only [List.map_cons, List.map_nil, List.filterMap_cons, List.filterMap_nil,
      Option.bind_some, hnode, Option.map_some]
  refine ⟨{ s with
      heap := t
      expired := s.expired ++ [p]
      ticks := ⟨now, s.heap.held, if node.validFlag && node.cbFunc then [(p, node)] else [], [p]⟩ ::
        s.ticks },
    by simp only [call, htick, ok_bind]; rfl, ⟨⟨[], hholds, ?_, ?_⟩, h.right.discarded, ?_⟩,
    h.deleted, ?_⟩
  · intro q
    have hq := hexact q
    simp only [List.mem_append, List.mem_singleton, List.not_mem_nil] at hq ⊢
    constructor
    · exact False.elim
    · intro hx
      exact hx.2.1 (.inr (hq.mpr ⟨hx.1, fun he => hx.2.1 (.inl he), hx.2.2⟩))
  · intro q hq
    cases hq
  · intro r hr
    rcases List.mem_cons.mp hr with rfl | hr
    · have hle : decide (node.expire ≤ now) = true := decide_eq_true (Int.not_lt.mp hnow)
      refine ⟨?_, ?_, ?_⟩
      · simp only [hheld, List.filter_cons, hle, Bool.and_true, List.filter_nil]
        exact List.Perm.refl _
      · simp only
        split
        · exact List.pairwise_singleton _ _
        · exact List.Pairwise.nil
      · simp only [hheld, List.filter_cons, hle, if_true, List.filter_nil]
        exact List.Perm.refl _
    · exact h.right.ticks r hr
  · intro q hq
    rcases List.mem_append.mp hq with hq | hq
    · exact h.expired q hq
    · rw [List.mem_singleton.mp hq]
      exact ((hexact p).mp List.mem_cons_self).1

/-! ### When the calls keep it -/

/-- There is a capacity, and one that can be doubled where the heap is full; `del_num` does not
overflow, and `del_timer` does not compact, or does so with an invalid timer at the top; and a
tick finds at most one timer, or none that has expired. -/
def Guard (s : HeapRun) : HeapCall → Prop
  | .addTimer _ _ _ => 0 < s.heap.cap ∧ (s.heap.cap ≤ s.heap.curSize → s.heap.cap * 2 ≤ intMax)
  | .delTimer p => s.heap.delNum + 1 ≤ intMax ∧
      (s.heap.delNum + 1 < s.heap.curSize / 2 ∨ s.heap.array.head? = some (some p) ∨
        s.heap.topNode.map HeapTimerNode.validFlag = some false)
  | .tick now => s.heap.curSize ≤ 1 ∨ s.heap.topNode.any (fun node => decide (now < node.expire))

instance (s : HeapRun) (a : HeapCall) : Decidable (Guard s a) :=
  match a with
  | .addTimer _ _ _ => inferInstanceAs (Decidable (_ ∧ (_ → _)))
  | .delTimer _ => inferInstanceAs (Decidable (_ ∧ (_ ∨ _ ∨ _)))
  | .tick _ => inferInstanceAs (Decidable (_ ∨ _))

theorem step_asked {cap : Fin (intMax + 1)} {a : HeapCall} {x : Except HeapFault HeapRun}
    (h : (machine lib cap).step s a = some x) : s.Asked a ∧ s.call lib a = x := by
  unfold machine at h
  simp only at h
  split at h
  next ha => exact ⟨ha, Option.some.inj h⟩
  · cases h

theorem top_invalid_iff {p q : Nat} {rest : List Nat} {node : HeapTimerNode}
    (hh : s.heap.Holds (q :: rest)) :
    isValid (marked s.heap.nodes p node) q = false ↔ s.heap.array.head? = some (some p) ∨
      s.heap.topNode.map HeapTimerNode.validFlag = some false := by
  obtain ⟨hhead, htop, _⟩ := hh.top
  obtain ⟨n, hn⟩ := Option.isSome_iff_exists.mp (hh.live q List.mem_cons_self)
  rw [hhead, htop, hn]
  by_cases he : q = p
  · subst he
    have hself : marked s.heap.nodes q node q =
        some { node with cbFunc := false, validFlag := false } := Function.update_self _ _ _
    rw [isValid_some hself]
    exact ⟨fun _ => .inl rfl, fun _ => rfl⟩
  · have hother : marked s.heap.nodes p node q = some n := (Function.update_of_ne he _ _).trans hn
    rw [isValid_some hother, Option.map_some]
    constructor
    · intro hf
      exact .inr (congrArg some hf)
    · intro hf
      rcases hf with hf | hf
      · exact (he (Option.some.inj (Option.some.inj hf))).elim
      · exact Option.some.inj hf

theorem mem_of_asked {ids : List Nat} {p : Nat} (hh : s.heap.Holds ids)
    (hp : s.Asked (.delTimer p)) : p ∈ ids := by
  have hmem : some p ∈ s.heap.array.take s.heap.curSize := hp
  rw [hh.entries] at hmem
  obtain ⟨q, hq, he⟩ := List.mem_map.mp hmem
  rwa [Option.some.inj he] at hq

theorem step_good {cap : Fin (intMax + 1)} {a : HeapCall} {x : Except HeapFault HeapRun} (hs : s.Inv)
    (hg : Guard s a) (h : (machine lib cap).step s a = some x) : ∃ t, x = .ok t ∧ t.Inv := by
  obtain ⟨hasked, rfl⟩ := step_asked h
  obtain ⟨ids, hh, _⟩ := hs.right.holds
  cases a with
  | addTimer p expire cbFunc => exact hs.addTimer hasked hg.1 hg.2
  | delTimer p =>
    have hp := mem_of_asked hh hasked
    obtain ⟨node, hnode⟩ := Option.isSome_iff_exists.mp (hh.live p hp)
    refine hs.delTimer hh hp hnode hg.1 ?_
    rcases hg.2 with hg | hg
    · exact .inl hg
    · right
      intro q hq
      cases ids with
      | nil => cases hq
      | cons r rest =>
        cases hq
        exact (top_invalid_iff hh).mpr hg
  | tick now =>
    cases ids with
    | nil => exact hs.tick_idle hh fun p hp => by cases hp
    | cons p rest =>
      obtain ⟨node, hnode⟩ := Option.isSome_iff_exists.mp (hh.live p List.mem_cons_self)
      by_cases hnow : now < node.expire
      · refine hs.tick_idle hh ?_
        intro q hq n hn
        cases hq
        cases hnode.symm.trans hn
        exact hnow
      · rcases hg with hsize | hlate
        · have hone : rest = [] := by
            have hlen := hh.size
            rw [List.length_cons] at hlen
            exact List.length_eq_zero_iff.mp (by omega)
          subst hone
          exact hs.tick_last hh hnode hnow
        · rw [hh.top.2.1, hnode] at hlate
          exact absurd (of_decide_eq_true hlate) hnow

theorem step_bad {cap : Fin (intMax + 1)} {a : HeapCall} {t : HeapRun} (hs : s.Inv) (hg : ¬ Guard s a)
    (h : (machine lib cap).step s a = some (.ok t)) : ¬ t.Right := by
  obtain ⟨hasked, hcall⟩ := step_asked h
  obtain ⟨ids, hh, _⟩ := hs.right.holds
  cases a with
  | addTimer p expire cbFunc =>
    obtain ⟨heap, hadd, _⟩ := bind_eq_ok hcall
    obtain ⟨r, hr, hadd⟩ := bind_eq_ok hadd
    unfold makeRoom at hr
    by_cases hcap : 0 < s.heap.cap
    · obtain ⟨hfull, hlarge⟩ := Classical.not_imp.mp fun hgrow => hg ⟨hcap, hgrow⟩
      rw [if_pos hfull] at hr
      obtain ⟨_, hcheck, _⟩ := bind_eq_ok hr
      cases (if_neg hlarge).symm.trans hcheck
    · -- without capacity there is no entry to write to
      have hzero : s.heap.cap = 0 := Nat.eq_zero_of_not_pos hcap
      have hlen : s.heap.array = [] := List.length_eq_zero_iff.mp (hh.length.trans hzero)
      rw [if_pos (by simp only [hzero]; exact Nat.zero_le _)] at hr
      obtain ⟨_, _, hr⟩ := bind_eq_ok hr
      cases hr
      obtain ⟨_, hset, _⟩ := bind_eq_ok hadd
      obtain ⟨_, hcheck, _⟩ := bind_eq_ok hset
      simp only [hzero, hlen] at hcheck
      cases hcheck
  | delTimer p =>
    have hp := mem_of_asked hh hasked
    obtain ⟨node, hnode⟩ := Option.isSome_iff_exists.mp (hh.live p hp)
    obtain ⟨⟨heap, d⟩, hdel, hret⟩ := bind_eq_ok hcall
    cases hret
    have hnum : s.heap.delNum + 1 ≤ intMax := by
      unfold TimerHeap.delTimer at hdel
      simp only [read_some hnode, ok_bind] at hdel
      obtain ⟨_, hcheck, _⟩ := bind_eq_ok hdel
      by_contra hover
      cases (if_neg hover).symm.trans hcheck
    obtain ⟨hfull, hvalid⟩ := not_or.mp fun hgood => hg ⟨hnum, hgood⟩
    cases ids with
    | nil => cases hp
    | cons q rest =>
      have htop : isValid (marked s.heap.nodes p node) q = true := by
        rw [← Bool.not_eq_false, top_invalid_iff hh]
        exact hvalid
      intro hright
      obtain ⟨ids', hholds, _⟩ := hright.holds
      exact delTimer_lost hh hnode hnum (Nat.le_of_not_lt hfull) htop hdel hholds
  | tick now =>
    obtain ⟨hsize, hlate⟩ := not_or.mp hg
    obtain ⟨r, htick, _⟩ := bind_eq_ok hcall
    have hlen := hh.size
    match ids, hh, hlen with
    | [], _, hlen => exact absurd (hlen ▸ Nat.zero_le 1) hsize
    | [_], _, hlen => exact absurd (Nat.le_of_eq hlen.symm) hsize
    | p :: q :: rest, hh, _ =>
      obtain ⟨node, hnode⟩ := Option.isSome_iff_exists.mp (hh.live p List.mem_cons_self)
      rw [hh.top.2.1, hnode] at hlate
      have hnow : ¬ now < node.expire := fun hlt => hlate (decide_eq_true hlt)
      rw [tick_dangling hh hnode hnow] at htick
      cases htick

/-- The heap is right in every state of a run exactly if every call meets the condition. -/
theorem heap_right_iff (lib : StdHeap (Option Nat)) (cap : Fin (intMax + 1)) (calls : List HeapCall)
    {x : Except HeapFault HeapRun} (h : (machine lib cap).run (new lib cap) calls = some x) :
    (∀ before, before <+: calls →
        ∃ t, (machine lib cap).run (new lib cap) before = some (.ok t) ∧ t.Right) ↔
      (machine lib cap).Along Guard (new lib cap) calls :=
  Machine.run_always_iff (fun _ hs => hs.right) (fun _ _ _ hs hg hx => step_good hs hg hx)
    (fun _ _ _ hs hg hx => step_bad hs hg hx) (new_inv lib cap) h

/- Timers added in the order of their expiry, two deleted at the top, the last one expires. -/
def careful : List HeapCall :=
  [.addTimer 1 3 true, .addTimer 2 4 true, .addTimer 3 5 true, .tick 2, .delTimer 1, .delTimer 2,
    .tick 5, .addTimer 4 6 false, .tick 7]

theorem heap_right_iff_careful :
    ∃ t, (machine (StdHeap.sorted _) 1).run (new (StdHeap.sorted _) 1) careful = some (.ok t) ∧
      t.Right := by
  have hruns : (machine (StdHeap.sorted _) 1).runsTo (new (StdHeap.sorted _) 1) careful
      (fun t => t.discarded = [1, 2] ∧ t.expired = [3, 4] ∧ t.heap.cap = 4) = true := by
    decide +kernel
  obtain ⟨t, ht, _⟩ := Machine.exists_of_runsTo hruns
  exact (heap_right_iff (StdHeap.sorted _) 1 careful ht).mpr (by decide +kernel) careful
    List.prefix_rfl

/-- Two timers, and a tick at which the first expires: the tick then reads it again. -/
theorem tick_reads_deleted_timer :
    (machine (StdHeap.sorted _) 2).failsWith (new (StdHeap.sorted _) 2)
        [.addTimer 1 1 true, .addTimer 2 2 true, .tick 1] .danglingTimer = true ∧
      ¬ ∀ before, before <+: [.addTimer 1 1 true, .addTimer 2 2 true, .tick 1] →
        ∃ t, (machine (StdHeap.sorted _) 2).run (new (StdHeap.sorted _) 2) before = some (.ok t) ∧
          t.Right := by
  have hfails : (machine (StdHeap.sorted _) 2).failsWith (new (StdHeap.sorted _) 2)
      [.addTimer 1 1 true, .addTimer 2 2 true, .tick 1] .danglingTimer = true := by
    decide +kernel
  refine ⟨hfails, ?_⟩
  intro h
  obtain ⟨t, ht, _⟩ := h _ List.prefix_rfl
  cases (Machine.run_of_failsWith hfails).symm.trans ht

end HeapRun

end TstMuduo.Timers
