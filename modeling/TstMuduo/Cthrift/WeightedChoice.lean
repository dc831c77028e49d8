import TstMuduo.Cthrift.WeightIndex
import TstMuduo.Lib.Segments
import Mathlib.Algebra.BigOperators.Ring.List
import Mathlib.Algebra.Order.Field.Rat
import Mathlib.Data.Rat.Floor
import Mathlib.Tactic.Linarith

/-!
# Weights and chances (cthrift/cthrift_client_worker.cc)

What `ChooseNextReadyConn` answers where weights are numbers that are not rounded: a client that is
ready, out of the best region, and each weight with a chance in proportion to it and to the number
of clients that have it.
-/

namespace TstMuduo.Cthrift
open TstMuduo.Lib

section
variable {D : Type} [Double D]

namespace Picking

/-- What the loop has added up in the end, as the code scales it. -/
def total (p : Picking D) : D :=
  Double.mul (Double.add p.d_total_weight
    (Double.mul p.d_last_weight (p.map_weight_vec.size p.d_last_weight))) (Double.ofInt 1000)

/-- The weight that is chosen for a random number below the total. -/
def weightAt (p : Picking D) (d_random_weight : D) : D :=
  SvrPool.findChoose (p.map_weight_vec.touch p.d_last_weight) d_random_weight p.vec_weight
    (Double.ofInt 0)

end Picking

namespace SvrPool

abbrev Entry (D : Type) := Multimap.Node D (Option Nat)

/-- The client of the entry is alive and has a connection to a server that the worker knows, and
that server is healthy. -/
def Ready (w : SvrPool D) (n : Entry D) : Prop :=
  ∃ c conn info, w.lock n.val = some c ∧ w.connection c = some conn ∧
    w.map_ipport_spconninfo.lookup conn.ipport = some info ∧ w.checkConnHealthy info = true

omit [Double D] in
theorem look_weigh {w : SvrPool D} {n : Entry D} : w.look n = .weigh ↔ w.Ready n := by
  unfold look Ready
  cases hc : w.lock n.val with
  | none => simp
  | some c =>
    cases hconn : w.connection c with
    | none => simp [hconn]
    | some conn =>
      cases hinfo : w.map_ipport_spconninfo.lookup conn.ipport with
      | none => simp [hconn, hinfo]
      | some info => cases hh : w.checkConnHealthy info <;> simp [hconn, hinfo, hh]

/-- The entries that can be used, by falling weight. -/
def ready (w : SvrPool D) : List (Entry D) := w.weights.nodes.filter fun n => w.look n = .weigh

omit [Double D] in
theorem mem_ready {w : SvrPool D} {n : Entry D} :
    n ∈ w.ready ↔ n ∈ w.weights.nodes ∧ w.Ready n := by
  rw [ready, List.mem_filter, decide_eq_true_iff, look_weigh]

/-- Those in the region of the first one. -/
def candidates (w : SvrPool D) : List (Entry D) :=
  w.ready.filter fun n => w.ready.head?.all fun n₀ => checkRegion n.key = checkRegion n₀.key

/-! ### The loop without what it erases -/

/-- The part of the loop for the entries that can be used. -/
def gather : List (Entry D) → Picking D → Picking D
  | [], p => p
  | n :: ns, p =>
    match weigh p n with
    | none => p
    | some q => gather ns q

variable {w : SvrPool D} {ns : List (Entry D)} {p : Picking D} {n : Entry D}

theorem gather_erased (ns : List (Entry D)) (p : Picking D) (m : WeightMap D) :
    gather ns { p with weights := m } = { gather ns p with weights := m } := by
  induction ns generalizing p with
  | nil => rfl
  | cons n ns ih =>
    rw [gather, gather, weigh_erased]
    cases weigh p n with
    | none => rfl
    | some q => exact ih q

theorem chooseLoop_gather (hmem : ∀ n ∈ ns, (p.weights.get n.iter).isSome)
    (hnodup : (ns.map Multimap.Node.iter).Nodup) :
    ∃ m, w.chooseLoop ns p =
      .ok { gather (ns.filter fun n => w.look n = .weigh) p with weights := m } := by
  induction ns generalizing p with
  | nil => exact ⟨p.weights, rfl⟩
  | cons n ns ih =>
    obtain ⟨hnot, hnodup⟩ := List.nodup_cons.mp hnodup
    have hrest : ∀ n' ∈ ns, (p.weights.get n'.iter).isSome :=
      fun n' hn' => hmem n' (List.mem_cons_of_mem _ hn')
    rw [chooseLoop]
    cases hl : w.look n with
    | erase =>
      obtain ⟨⟨k, v⟩, he⟩ := Option.isSome_iff_exists.mp (hmem n List.mem_cons_self)
      obtain ⟨t, ht⟩ := Multimap.erase_of_get he
      have hstill : ∀ n' ∈ ns, (t.get n'.iter).isSome := by
        intro n' hn'
        rw [Multimap.get_erase ht, if_neg]
        · exact hrest n' hn'
        · rintro heq
          exact hnot (heq ▸ List.mem_map_of_mem hn')
      obtain ⟨m, hm⟩ := ih (p := { p with weights := t }) hstill hnodup
      refine ⟨m, ?_⟩
      simp only [eraseIndex, ht, ok_bind]
      rw [hm, List.filter_cons_of_neg (by rw [hl]; decide), gather_erased]
    | skip =>
      obtain ⟨m, hm⟩ := ih hrest hnodup
      exact ⟨m, by rw [List.filter_cons_of_neg (by rw [hl]; decide)]; exact hm⟩
    | weigh =>
      rw [List.filter_cons_of_pos (by rw [hl]; decide), gather]
      cases hq : weigh p n with
      | none => exact ⟨p.weights, rfl⟩
      | some q => exact ih (by rw [weigh_weights hq]; exact hrest) hnodup

end SvrPool

end

namespace SvrPool

/-! ### Weights that are not rounded -/

/-- Positive weights, by falling weight as the index keeps them, of which two are the same or far
enough from each other to be told apart. -/
structure ExactWeights (ns : List (Entry Rat)) : Prop where
  pos : ∀ n ∈ ns, 0 < n.key
  apart : ∀ n ∈ ns, ∀ n' ∈ ns, n.key = n'.key ∨ Double.epsilon ≤ |n.key - n'.key|
  falling : ns.Pairwise fun n n' => n'.key ≤ n.key

/-- The entries with the weight `v`. -/
def ofWeight (ns : List (Entry Rat)) (v : Rat) : List (Entry Rat) := ns.filter fun n => n.key = v

section
variable {m : WeightVec Rat} {a b d v : Rat} {c : Option Nat} {taken ns : List (Entry Rat)}
  {n : Entry Rat} {p q : Picking Rat}

theorem ExactWeights.sublist (h : ExactWeights taken) (hsub : ns.Sublist taken) :
    ExactWeights ns where
  pos n hn := h.pos n (hsub.subset hn)
  apart n hn n' hn' := h.apart n (hsub.subset hn) n' (hsub.subset hn')
  falling := h.falling.sublist hsub

theorem falling_run {acts : List (Act Rat)} {w : SvrPool Rat}
    (h : (machine Rat).run (machine Rat).init acts = some (.ok w)) :
    w.weights.nodes.Pairwise fun n n' => n'.key ≤ n.key := by
  have hlt : ∀ a b : Rat, Double.lt a b = decide (a < b) := fun a b => rfl
  have hstrict : StrictLt Rat := by
    constructor
    · intro a b hab
      rw [hlt, decide_eq_true_iff] at hab
      rw [hlt, decide_eq_false_iff_not]
      exact hab.asymm
    · intro a b c hab hbc
      rw [hlt, decide_eq_true_iff] at hab hbc ⊢
      exact hab.trans hbc
  refine (ordered_run hstrict h).imp fun {n n'} hn => ?_
  have hnot : decide (n.key < n'.key) = false := hn
  exact le_of_not_gt (of_decide_eq_false hnot)

theorem checkDoubleEqual_exact (h : a = b ∨ Double.epsilon ≤ |a - b|) :
    checkDoubleEqual a b = decide (a = b) := by
  have hfabs : Double.fabs (Double.sub a b) = |a - b| := by
    show (if a - b < 0 then -(a - b) else a - b) = |a - b|
    split
    next hneg => exact (abs_of_neg hneg).symm
    next hpos => exact (abs_of_nonneg (le_of_not_gt hpos)).symm
  have hlt : checkDoubleEqual a b = decide (|a - b| < Double.epsilon) := by
    rw [checkDoubleEqual, hfabs]
    rfl
  rw [hlt, decide_eq_decide]
  constructor
  · intro hab
    exact h.resolve_right (not_le_of_gt hab)
  · rintro rfl
    rw [sub_self, abs_zero]
    exact by norm_num [Double.epsilon]

theorem find_cons (e : Rat × List (Option Nat)) (m : WeightVec Rat) (v : Rat) :
    WeightVec.find (e :: m) v = if e.1 = v then some e.2 else m.find v := by
  rw [WeightVec.find, List.find?_cons]
  show (match decide (e.1 = v) with | true => some e | false => _).map Prod.snd = _
  by_cases he : e.1 = v
  · rw [if_pos he, decide_eq_true he]
    rfl
  · rw [if_neg he, decide_eq_false he]
    rfl

theorem find_pushBack (m : WeightVec Rat) (d : Rat) (c : Option Nat) (v : Rat) :
    (m.pushBack d c).find v = if v = d then some ((m.find d).getD [] ++ [c]) else m.find v := by
  induction m with
  | nil =>
    rw [WeightVec.pushBack, find_cons]
    by_cases hv : v = d
    · rw [if_pos hv, if_pos hv.symm]
      rfl
    · rw [if_neg hv, if_neg (Ne.symm hv)]
  | cons e m ih =>
    rw [WeightVec.pushBack]
    by_cases he : e.1 = d
    · rw [if_pos (show Double.eq e.1 d = true from decide_eq_true he), find_cons, find_cons,
        find_cons, if_pos he]
      by_cases hv : v = d
      · rw [if_pos hv, if_pos (he.trans hv.symm)]
        rfl
      · have hev : e.1 ≠ v := fun h => hv (h.symm.trans he)
        rw [if_neg hv, if_neg hev, if_neg hev]
    · rw [if_neg (show ¬ Double.eq e.1 d = true from fun h => he (of_decide_eq_true h)), find_cons,
        find_cons, find_cons, ih, if_neg he]
      by_cases hv : v = d
      · rw [if_neg (fun h => he (h.trans hv)), if_pos hv, if_pos hv]
      · rw [if_neg hv, if_neg hv]

theorem touch_eq (h : (m.find d).isSome) : m.touch d = m := if_pos h

/-! ### What the loop gathers -/

theorem ofWeight_append (taken : List (Entry Rat)) (n : Entry Rat) (v : Rat) :
    ofWeight (taken ++ [n]) v = ofWeight taken v ++ if v = n.key then [n] else [] := by
  rw [ofWeight, ofWeight, List.filter_append, List.filter_singleton]
  by_cases hv : v = n.key
  · rw [if_pos hv, decide_eq_true hv.symm]
    rfl
  · rw [if_neg hv, decide_eq_false (Ne.symm hv)]
    rfl

/-- What the loop has after the entries `taken`: their weights, falling, and under each weight its
clients; all weights but the last one are in the sum. -/
structure Gathered (taken : List (Entry Rat)) (p : Picking Rat) : Prop where
  falling : p.vec_weight.Pairwise fun v v' => v' < v
  mem : ∀ v, v ∈ p.vec_weight ↔ ∃ n ∈ taken, n.key = v
  clients : ∀ v, p.map_weight_vec.find v =
    if v ∈ p.vec_weight then some ((ofWeight taken v).map Multimap.Node.val) else none
  total : ∃ front, p.vec_weight = front ++ [p.d_last_weight] ∧
    p.d_total_weight = (front.map fun v => v * ((ofWeight taken v).length : Rat)).sum
  region : ∀ n ∈ taken, checkRegion n.key < p.i8_stop_region

theorem Gathered.last_mem (h : Gathered taken p) : p.d_last_weight ∈ p.vec_weight := by
  obtain ⟨front, hfront, -⟩ := h.total
  rw [hfront]
  exact List.mem_append_right _ (List.mem_singleton_self _)

theorem Gathered.touch_last (h : Gathered taken p) :
    p.map_weight_vec.touch p.d_last_weight = p.map_weight_vec := by
  apply touch_eq
  rw [h.clients, if_pos h.last_mem]
  rfl

theorem Gathered.ofWeight_nil (h : Gathered taken p) (hv : v ∉ p.vec_weight) :
    ofWeight taken v = [] := by
  rw [ofWeight, List.filter_eq_nil_iff]
  intro n hn hkey
  exact hv ((h.mem v).mpr ⟨n, hn, of_decide_eq_true hkey⟩)

theorem Gathered.size (h : Gathered taken p) (v : Rat) :
    p.map_weight_vec.size v = ((ofWeight taken v).length : Rat) := by
  rw [WeightVec.size, h.clients v]
  by_cases hv : v ∈ p.vec_weight
  · rw [if_pos hv, Option.getD_some, List.length_map]
    exact Int.cast_natCast _
  · rw [if_neg hv, h.ofWeight_nil hv]
    rfl

theorem mem_append_singleton_key (taken : List (Entry Rat)) (n : Entry Rat) (v : Rat) :
    (∃ n' ∈ taken ++ [n], n'.key = v) ↔ (∃ n' ∈ taken, n'.key = v) ∨ v = n.key := by
  simp only [List.mem_append, List.mem_singleton, or_and_right, exists_or, exists_eq_left]
  exact or_congr_right eq_comm

theorem ofWeight_other (taken : List (Entry Rat)) (hv : v ≠ n.key) :
    ofWeight (taken ++ [n]) v = ofWeight taken v := by
  rw [ofWeight_append, if_neg hv, List.append_nil]

theorem clients_append {vec vec' : List Rat}
    (h : ∀ v, m.find v = if v ∈ vec then some ((ofWeight taken v).map Multimap.Node.val) else none)
    (hmem : ∀ v, v ∈ vec ↔ ∃ n ∈ taken, n.key = v)
    (hvec : ∀ v, v ∈ vec' ↔ v ∈ vec ∨ v = n.key) (v : Rat) :
    (m.pushBack n.key n.val).find v =
      if v ∈ vec' then some ((ofWeight (taken ++ [n]) v).map Multimap.Node.val) else none := by
  rw [find_pushBack]
  by_cases hv : v = n.key
  · have hold : (m.find n.key).getD [] = (ofWeight taken n.key).map Multimap.Node.val := by
      rw [h]
      by_cases hin : n.key ∈ vec
      · rw [if_pos hin, Option.getD_some]
      · have hnil : ofWeight taken n.key = [] := by
          rw [ofWeight, List.filter_eq_nil_iff]
          intro n' hn' hkey
          exact hin ((hmem n.key).mpr ⟨n', hn', of_decide_eq_true hkey⟩)
        rw [if_neg hin, hnil]
        rfl
    rw [if_pos hv, if_pos ((hvec v).mpr (.inr hv)), hold, hv, ofWeight_append, if_pos rfl,
      List.map_append]
    rfl
  · rw [if_neg hv, h, ofWeight_other taken hv]
    have hiff : v ∈ vec' ↔ v ∈ vec := (hvec v).trans (or_iff_left hv)
    by_cases hin : v ∈ vec
    · rw [if_pos hin, if_pos (hiff.mpr hin)]
    · rw [if_neg hin, if_neg (fun h' => hin (hiff.mp h'))]

theorem sentinel_differs (ha : 0 < a) :
    checkDoubleEqual (Double.ofInt (-1)) a = false ∧
      checkDoubleEqual a (Double.ofInt (-1)) = false := by
  have heps : (Double.epsilon : Rat) ≤ 1 := by norm_num [Double.epsilon]
  rw [show (Double.ofInt (-1) : Rat) = -1 from rfl]
  constructor
  · rw [checkDoubleEqual_exact (.inr (by rw [abs_of_neg] <;> linarith))]
    exact decide_eq_false (by linarith)
  · rw [checkDoubleEqual_exact (.inr (by rw [abs_of_pos] <;> linarith))]
    exact decide_eq_false (by linarith)

theorem gathered_first (w : SvrPool Rat) (hpos : 0 < n.key) :
    ∃ q, weigh w.picking n = some q ∧ Gathered [n] q ∧
      q.i8_stop_region = checkRegion n.key + 1 := by
  have hinit : checkDoubleEqual (Double.ofInt (-1) : Rat) (Double.ofInt (-1)) = true := by
    rw [checkDoubleEqual_exact (.inl rfl)]
    exact decide_eq_true rfl
  have hweigh : weigh w.picking n = some { w.picking with
      i8_stop_region := checkRegion n.key + 1
      map_weight_vec := WeightVec.pushBack [] n.key n.val
      vec_weight := [n.key]
      d_last_weight := n.key } := by
    rw [weigh, show w.picking.d_last_weight = Double.ofInt (-1) from rfl,
      (sentinel_differs hpos).1, hinit]
    rfl
  refine ⟨_, hweigh, ⟨?_, ?_, ?_, ?_, ?_⟩, rfl⟩
  · exact List.pairwise_singleton _ _
  · intro v
    simp only [List.mem_singleton, exists_eq_left]
    exact eq_comm
  · have hnil : ∀ v, WeightVec.find [] v = if v ∈ ([] : List Rat) then
        some ((ofWeight [] v).map Multimap.Node.val) else none := fun v => rfl
    exact clients_append hnil (fun v => by simp) fun v => by simp
  · exact ⟨[], rfl, rfl⟩
  · intro n' hn'
    rw [List.mem_singleton.mp hn']
    exact Nat.lt_succ_self _

theorem Gathered.last_spec (h : Gathered taken p) (hw : ExactWeights (taken ++ [n])) :
    (∃ n' ∈ taken, n'.key = p.d_last_weight) ∧ n.key ≤ p.d_last_weight ∧
      checkDoubleEqual p.d_last_weight n.key = decide (p.d_last_weight = n.key) ∧
      checkDoubleEqual p.d_last_weight (Double.ofInt (-1)) = false := by
  obtain ⟨n', hn', hkey⟩ := (h.mem p.d_last_weight).mp h.last_mem
  have hmem := List.mem_append_left [n] hn'
  have hn : n ∈ taken ++ [n] := List.mem_append_right taken (List.mem_singleton_self n)
  refine ⟨⟨n', hn', hkey⟩, ?_, ?_, ?_⟩
  · rw [← hkey]
    exact (List.pairwise_append.mp hw.falling).2.2 n' hn' n (List.mem_singleton_self n)
  · rw [← hkey]
    exact checkDoubleEqual_exact (hw.apart n' hmem n hn)
  · exact (sentinel_differs (hkey ▸ hw.pos n' hmem)).2

theorem Gathered.above_last (h : Gathered taken p) {front : List Rat}
    (hfront : p.vec_weight = front ++ [p.d_last_weight]) : ∀ v ∈ front, p.d_last_weight < v := by
  have hfall := h.falling
  rw [hfront] at hfall
  exact fun v hv => (List.pairwise_append.mp hfall).2.2 v hv _ (List.mem_singleton_self _)

theorem Gathered.region_append (h : Gathered taken p)
    (hn : checkRegion n.key < p.i8_stop_region) :
    ∀ n' ∈ taken ++ [n], checkRegion n'.key < p.i8_stop_region := by
  intro n' hn'
  rcases List.mem_append.mp hn' with hn' | hn'
  · exact h.region n' hn'
  · rw [List.mem_singleton.mp hn']
    exact hn

theorem Gathered.step_same (h : Gathered taken p) (hw : ExactWeights (taken ++ [n]))
    (heq : p.d_last_weight = n.key) :
    ∃ q, weigh p n = some q ∧ Gathered (taken ++ [n]) q ∧ q.i8_stop_region = p.i8_stop_region := by
  obtain ⟨⟨n', hn', hkey⟩, -, hsame, -⟩ := h.last_spec hw
  obtain ⟨front, hfront, htotal⟩ := h.total
  have hweigh : weigh p n =
      some { p with map_weight_vec := p.map_weight_vec.pushBack n.key n.val } := by
    rw [weigh, hsame, decide_eq_true heq]
    rfl
  have hin : ∀ v, v = n.key → v ∈ p.vec_weight := by
    rintro v rfl
    exact heq ▸ h.last_mem
  have hregion : checkRegion n.key < p.i8_stop_region := by
    rw [← heq, ← hkey]
    exact h.region n' hn'
  refine ⟨_, hweigh, ⟨h.falling, ?_, ?_, ⟨front, hfront, ?_⟩, h.region_append hregion⟩, rfl⟩
  · intro v
    rw [mem_append_singleton_key, ← h.mem, or_iff_left_of_imp (hin v)]
  · exact clients_append h.clients h.mem fun v => (or_iff_left_of_imp (hin v)).symm
  · rw [htotal]
    apply congrArg List.sum
    apply List.map_congr_left
    intro v hv
    rw [ofWeight_other taken (heq ▸ ne_of_gt (h.above_last hfront v hv))]

/-- An entry with a new weight: the loop ends before it if its region is too far. -/
theorem Gathered.step_new (h : Gathered taken p) (hw : ExactWeights (taken ++ [n]))
    (hne : p.d_last_weight ≠ n.key) :
    (p.i8_stop_region ≤ checkRegion n.key → weigh p n = none) ∧
    (checkRegion n.key < p.i8_stop_region →
      ∃ q, weigh p n = some q ∧ Gathered (taken ++ [n]) q ∧
        q.i8_stop_region = p.i8_stop_region) := by
  obtain ⟨-, hle, hsame, hinit⟩ := h.last_spec hw
  obtain ⟨front, hfront, htotal⟩ := h.total
  have hbelow : ∀ v ∈ p.vec_weight, n.key < v := by
    intro v hv
    have hlast : n.key < p.d_last_weight := lt_of_le_of_ne hle (Ne.symm hne)
    rw [hfront] at hv
    rcases List.mem_append.mp hv with hv | hv
    · exact hlast.trans (h.above_last hfront v hv)
    · rw [List.mem_singleton.mp hv]
      exact hlast
  have hweigh : weigh p n = if p.i8_stop_region ≤ checkRegion n.key then none else
      some { p with
        d_total_weight := p.d_total_weight + p.d_last_weight * p.map_weight_vec.size p.d_last_weight
        map_weight_vec := p.map_weight_vec.pushBack n.key n.val
        vec_weight := p.vec_weight ++ [n.key]
        d_last_weight := n.key } := by
    rw [weigh, hsame, decide_eq_false hne, hinit, h.touch_last]
    rfl
  rw [hweigh]
  refine ⟨fun hstop => if_pos hstop, fun hlt => ⟨_, if_neg (Nat.not_le.mpr hlt), ⟨?_, ?_, ?_,
    ⟨p.vec_weight, rfl, ?_⟩, h.region_append hlt⟩, rfl⟩⟩
  · rw [List.pairwise_append]
    exact ⟨h.falling, List.pairwise_singleton _ _, fun v hv v' hv' =>
      List.mem_singleton.mp hv' ▸ hbelow v hv⟩
  · intro v
    rw [mem_append_singleton_key, ← h.mem, List.mem_append, List.mem_singleton]
  · exact clients_append h.clients h.mem fun v => by
      rw [List.mem_append, List.mem_singleton]
  · have hkept : (p.vec_weight.map fun v => v * ((ofWeight (taken ++ [n]) v).length : Rat)) =
        p.vec_weight.map fun v => v * ((ofWeight taken v).length : Rat) := by
      apply List.map_congr_left
      intro v hv
      rw [ofWeight_other taken (ne_of_gt (hbelow v hv))]
    rw [hkept, h.size, htotal, hfront, List.map_append, List.sum_append]
    simp only [List.map_cons, List.map_nil, List.sum_cons, List.sum_nil, add_zero]

theorem Gathered.step (h : Gathered taken p) (hw : ExactWeights (taken ++ [n])) :
    (p.i8_stop_region ≤ checkRegion n.key → weigh p n = none) ∧
    (checkRegion n.key < p.i8_stop_region →
      ∃ q, weigh p n = some q ∧ Gathered (taken ++ [n]) q ∧
        q.i8_stop_region = p.i8_stop_region) := by
  by_cases heq : p.d_last_weight = n.key
  · refine ⟨fun hstop => ?_, fun _ => h.step_same hw heq⟩
    obtain ⟨⟨n', hn', hkey⟩, -⟩ := h.last_spec hw
    have hlt := h.region n' hn'
    rw [hkey, heq] at hlt
    exact absurd hlt (Nat.not_lt.mpr hstop)
  · exact h.step_new hw heq

theorem checkRegion_anti (h : a ≤ b) : checkRegion b ≤ checkRegion a := by
  have hlt : ∀ c d : Rat, Double.lt c d = decide (c < d) := fun c d => rfl
  simp only [checkRegion, hlt, decide_eq_true_eq]
  split_ifs with h₁ h₂ h₃ h₄ h₅
  all_goals first | decide | (exfalso; linarith)

theorem takeWhile_region (h : ns.Pairwise fun n n' => n'.key ≤ n.key) (r : Nat) :
    (ns.takeWhile fun n => checkRegion n.key < r) = ns.filter fun n => checkRegion n.key < r := by
  induction ns with
  | nil => rfl
  | cons n ns ih =>
    obtain ⟨hn, hns⟩ := List.pairwise_cons.mp h
    by_cases hr : checkRegion n.key < r
    · rw [List.takeWhile_cons_of_pos (by simpa using hr),
        List.filter_cons_of_pos (by simpa using hr), ih hns]
    · have hnone : ns.filter (fun n => checkRegion n.key < r) = [] := by
        rw [List.filter_eq_nil_iff]
        intro n' hn' hlt
        exact hr (Nat.lt_of_le_of_lt (checkRegion_anti (hn n' hn')) (of_decide_eq_true hlt))
      rw [List.takeWhile_cons_of_neg (by simpa using hr),
        List.filter_cons_of_neg (by simpa using hr), hnone]

theorem Gathered.run (h : Gathered taken p) (hw : ExactWeights (taken ++ ns)) :
    Gathered (taken ++ ns.takeWhile fun n => checkRegion n.key < p.i8_stop_region)
      (gather ns p) := by
  induction ns generalizing taken p with
  | nil => rw [List.takeWhile_nil, List.append_nil]; exact h
  | cons n ns ih =>
    rw [List.append_cons] at hw
    obtain ⟨hstop, hgo⟩ := h.step (hw.sublist (List.sublist_append_left (taken ++ [n]) ns))
    rw [gather]
    by_cases hr : checkRegion n.key < p.i8_stop_region
    · obtain ⟨q, hq, hgathered, hregion⟩ := hgo hr
      have hq' := ih hgathered hw
      rw [hregion, List.append_assoc] at hq'
      rw [hq, List.takeWhile_cons_of_pos (by simpa using hr)]
      exact hq'
    · rw [hstop (Nat.not_lt.mp hr), List.takeWhile_cons_of_neg (by simpa using hr), List.append_nil]
      exact h

theorem gathered_candidates {w : SvrPool Rat} (hw : ExactWeights w.weights.nodes)
    (hne : w.ready ≠ []) : Gathered w.candidates (gather w.ready w.picking) := by
  have hready : ExactWeights w.ready := hw.sublist List.filter_sublist
  unfold candidates
  cases hr : w.ready with
  | nil => exact absurd hr hne
  | cons n ns =>
    rw [hr] at hready
    obtain ⟨q, hq, hgathered, hregion⟩ :=
      gathered_first w (hready.pos n List.mem_cons_self)
    have hrun := hgathered.run hready
    obtain ⟨hn, hns⟩ := List.pairwise_cons.mp hready.falling
    have hsame : ns.filter (fun n' => checkRegion n'.key < checkRegion n.key + 1) =
        ns.filter fun n' => checkRegion n'.key = checkRegion n.key := by
      apply List.filter_congr
      intro n' hn'
      have hle := checkRegion_anti (hn n' hn')
      exact decide_eq_decide.mpr ⟨fun h => by omega, fun h => by omega⟩
    rw [hregion, takeWhile_region hns, hsame] at hrun
    rw [gather, hq, List.head?_cons]
    simp only [Option.all_some]
    rw [List.filter_cons_of_pos (by simp)]
    exact hrun

/-- The part of the line that the entries with the weight `v` take. -/
def widthOf (taken : List (Entry Rat)) (v : Rat) : Rat :=
  1000 * v * ((ofWeight taken v).length : Rat)

theorem findChoose_eq (m : WeightVec Rat) (x : Rat) (ds : List Rat) (start : Rat) :
    findChoose m x ds start = (segmentAt (fun d => d * m.size d * 1000) x ds start).getD 0 := by
  induction ds generalizing start with
  | nil => rfl
  | cons d ds ih =>
    have hfind : findChoose m x (d :: ds) start = if x < start + d * m.size d * 1000 then d
        else findChoose m x ds (start + d * m.size d * 1000) :=
      if_congr (Iff.of_eq (decide_eq_true_eq)) rfl rfl
    rw [hfind, segmentAt]
    by_cases hx : x < start + d * m.size d * 1000
    · rw [if_pos hx, if_pos hx]
      rfl
    · rw [if_neg hx, if_neg hx, ih]

theorem Gathered.weightAt_eq (h : Gathered taken p) (x : Rat) :
    p.weightAt x = (segmentAt (widthOf taken) x p.vec_weight 0).getD 0 := by
  have hwidth : (fun d => d * p.map_weight_vec.size d * 1000) = widthOf taken := by
    funext d
    rw [h.size, widthOf]
    ring
  rw [Picking.weightAt, h.touch_last, findChoose_eq, hwidth]
  rfl

theorem Gathered.total_eq (h : Gathered taken p) :
    p.total = (p.vec_weight.map (widthOf taken)).sum := by
  obtain ⟨front, hfront, htotal⟩ := h.total
  have hcode : p.total =
      (p.d_total_weight + p.d_last_weight * p.map_weight_vec.size p.d_last_weight) * 1000 := rfl
  have hwidth : widthOf taken = fun v => v * ((ofWeight taken v).length : Rat) * 1000 := by
    funext v
    rw [widthOf]
    ring
  rw [hcode, h.size, htotal, hfront, List.map_append, List.sum_append, hwidth,
    List.sum_map_mul_right, List.map_singleton, List.sum_singleton]
  ring

theorem Gathered.width_pos (h : Gathered taken p) (hw : ExactWeights taken)
    (hv : v ∈ p.vec_weight) : 0 < widthOf taken v := by
  obtain ⟨n, hn, rfl⟩ := (h.mem v).mp hv
  have hlen : 0 < (ofWeight taken n.key).length :=
    List.length_pos_of_mem (List.mem_filter.mpr ⟨hn, decide_eq_true rfl⟩)
  exact mul_pos (mul_pos (by norm_num) (hw.pos n hn)) (Nat.cast_pos.mpr hlen)

theorem Gathered.found (h : Gathered taken p) {x : Rat} (h0 : 0 ≤ x) (hx : x < p.total) :
    p.weightAt x ∈ p.vec_weight ∧
      segmentAt (widthOf taken) x p.vec_weight 0 = some (p.weightAt x) := by
  have hsome : (segmentAt (widthOf taken) x p.vec_weight 0).isSome := by
    apply segmentAt_isSome _ h0
    rw [zero_add, ← h.total_eq]
    exact hx
  obtain ⟨v, hv⟩ := Option.isSome_iff_exists.mp hsome
  rw [h.weightAt_eq, hv, Option.getD_some]
  exact ⟨segmentAt_mem hv, rfl⟩

theorem Gathered.width_le_total (h : Gathered taken p) (hw : ExactWeights taken)
    (hv : v ∈ p.vec_weight) :
    segmentStart (widthOf taken) v p.vec_weight 0 + widthOf taken v ≤ p.total := by
  rw [h.total_eq, ← zero_add (List.sum _)]
  exact segmentStart_add_le (fun u hu => (h.width_pos hw hu).le) hv

theorem Gathered.total_pos (h : Gathered taken p) (hw : ExactWeights taken) : 0 < p.total := by
  have hstart : 0 ≤ segmentStart (widthOf taken) p.d_last_weight p.vec_weight 0 :=
    start_le_segmentStart fun u hu => (h.width_pos hw hu).le
  have hend := h.width_le_total hw h.last_mem
  have hpos := h.width_pos hw h.last_mem
  linarith

theorem Gathered.segment (h : Gathered taken p) (hw : ExactWeights taken) (v : Rat) :
    ∃ low, 0 ≤ low ∧ low + widthOf taken v ≤ p.total ∧
      ∀ x, 0 ≤ x → x < p.total →
        (p.weightAt x = v ↔ low ≤ x ∧ x < low + widthOf taken v) := by
  have hnonneg : ∀ u ∈ p.vec_weight, 0 ≤ widthOf taken u := fun u hu => (h.width_pos hw hu).le
  by_cases hv : v ∈ p.vec_weight
  · refine ⟨_, start_le_segmentStart hnonneg, h.width_le_total hw hv, ?_⟩
    intro x h0 hx
    have hnodup : p.vec_weight.Nodup := h.falling.imp ne_of_gt
    rw [← segmentAt_eq_some_iff hnonneg hnodup hv h0, (h.found h0 hx).2, Option.some_inj]
  · have hzero : widthOf taken v = 0 := by
      rw [widthOf, h.ofWeight_nil hv, List.length_nil, Nat.cast_zero, mul_zero]
    rw [hzero]
    refine ⟨0, le_rfl, (add_zero (0 : Rat)).trans_le (h.total_pos hw).le, ?_⟩
    intro x h0 hx
    rw [add_zero]
    exact iff_of_false (fun hat => hv (hat ▸ (h.found h0 hx).1)) fun hx0 =>
      absurd hx0.2 (not_lt_of_ge h0)

theorem fmod_spec (ha : 0 ≤ a) (hb : 0 < b) : 0 ≤ Double.fmod a b ∧ Double.fmod a b < b := by
  have hfloor : Int.tdiv (a / b).num (a / b).den = ⌊a / b⌋ := by
    rw [Rat.floor_def', Int.tdiv_eq_ediv_of_nonneg (Rat.num_nonneg.mpr (div_nonneg ha hb.le))]
  have hcode : Double.fmod a b = a - b * ((⌊a / b⌋ : Int) : Rat) := by
    rw [← hfloor]
    rfl
  have hle := (le_div_iff₀ hb).mp (Int.floor_le (a / b))
  have hlt := (div_lt_iff₀ hb).mp (Int.lt_floor_add_one (a / b))
  rw [hcode]
  constructor
  · linarith
  · linarith

theorem Gathered.draw (h : Gathered taken p) (hw : ExactWeights taken) (rand1 rand2 : Nat) :
    ∃ n ∈ taken, SvrPool.draw p rand1 rand2 = (0, n.val) ∧
      n.key = p.weightAt (Double.fmod (Double.ofInt rand1) p.total) := by
  obtain ⟨h0, hx⟩ := fmod_spec (a := Double.ofInt rand1) (Nat.cast_nonneg rand1) (h.total_pos hw)
  obtain ⟨hmem, -⟩ := h.found h0 hx
  generalize hchosen : p.weightAt (Double.fmod (Double.ofInt rand1) p.total) = v at hmem ⊢
  have hvec : p.vec_weight.isEmpty = false := by
    rw [List.isEmpty_eq_false_iff]
    exact List.ne_nil_of_mem hmem
  have hclients := h.clients v
  rw [if_pos hmem] at hclients
  have hfind : (p.map_weight_vec.touch p.d_last_weight).find
      (findChoose (p.map_weight_vec.touch p.d_last_weight)
        (Double.fmod (Double.ofInt rand1) p.total) p.vec_weight (Double.ofInt 0)) =
      some ((ofWeight taken v).map Multimap.Node.val) := by
    rw [← hclients, ← hchosen, h.touch_last, Picking.weightAt, h.touch_last]
  obtain ⟨n₀, hn₀, hkey₀⟩ := (h.mem v).mp hmem
  have hlen : 0 < (ofWeight taken v).length :=
    List.length_pos_of_mem (List.mem_filter.mpr ⟨hn₀, decide_eq_true hkey₀⟩)
  -- any client under the weight will do
  have hentry : ∀ i, i < (ofWeight taken v).length → ∃ n ∈ taken,
      (0, (((ofWeight taken v).map Multimap.Node.val)[i]?).join) = ((0 : Int), n.val) ∧
        n.key = v := by
    intro i hi
    obtain ⟨hin, hkey⟩ := List.mem_filter.mp (List.getElem_mem hi)
    refine ⟨(ofWeight taken v)[i], hin, ?_, of_decide_eq_true hkey⟩
    rw [List.getElem?_map, List.getElem?_eq_getElem hi]
    rfl
  rw [Picking.total] at hfind
  rw [SvrPool.draw, hvec, if_neg Bool.false_ne_true]
  dsimp only
  rw [hfind]
  dsimp only
  rw [List.length_map]
  by_cases hone : (ofWeight taken v).length = 1
  · rw [if_pos hone]
    exact hentry 0 hlen
  · rw [if_neg hone]
    exact hentry _ (Nat.mod_lt _ hlen)

end

/-- The entry of a client that is ready with the greatest weight. -/
def Best (w : SvrPool Rat) (n : Entry Rat) : Prop :=
  n ∈ w.weights.nodes ∧ w.Ready n ∧ ∀ n' ∈ w.weights.nodes, w.Ready n' → n'.key ≤ n.key

theorem candidates_region {w : SvrPool Rat} (hw : ExactWeights w.weights.nodes) {n n₀ : Entry Rat}
    (hn : n ∈ w.candidates) (h₀ : w.Best n₀) : checkRegion n.key = checkRegion n₀.key := by
  obtain ⟨hnodes, hready, hbest⟩ := h₀
  have hmem : n₀ ∈ w.ready := mem_ready.mpr ⟨hnodes, hready⟩
  obtain ⟨hin, hregion⟩ := List.mem_filter.mp hn
  have hfalling : w.ready.Pairwise fun n n' => n'.key ≤ n.key :=
    (hw.sublist List.filter_sublist).falling
  cases hr : w.ready with
  | nil => exact absurd (hr ▸ hmem) List.not_mem_nil
  | cons h hs =>
    rw [hr] at hregion hmem hfalling
    obtain ⟨hnodes', hready'⟩ := mem_ready.mp (hr ▸ List.mem_cons_self : h ∈ w.ready)
    have hkey : h.key = n₀.key := by
      apply le_antisymm (hbest h hnodes' hready')
      rcases List.mem_cons.mp hmem with rfl | hmem
      · exact le_rfl
      · exact (List.pairwise_cons.mp hfalling).1 n₀ hmem
    rw [← hkey]
    exact of_decide_eq_true hregion

/-- Where weights are exact, a call of `ChooseNextReadyConn` finds a client just if one is ready;
it is ready, and in the region of the best ones; and the points of the line below the total at
which a weight is chosen are an interval of the length that is due to the weight. -/
theorem chooseNextReadyConn_weighted {w : SvrPool Rat} (hw : ExactWeights w.weights.nodes)
    (rand1 rand2 : Nat) :
    ∃ p t code conn, w.chooseLoop w.weights.nodes w.picking = .ok p ∧
      w.chooseNextReadyConn rand1 rand2 = .ok (t, code, conn) ∧
      (code = 0 ↔ ∃ n ∈ w.weights.nodes, w.Ready n) ∧
      (code = 0 → ∃ n ∈ w.weights.nodes, w.Ready n ∧ conn = n.val ∧
        n.key = p.weightAt (Double.fmod (Double.ofInt rand1) p.total) ∧
        ∀ n₀, w.Best n₀ → checkRegion n.key = checkRegion n₀.key) ∧
      ∀ v, ∃ low, 0 ≤ low ∧ low + 1000 * v * ((ofWeight w.candidates v).length : Rat) ≤ p.total ∧
        ∀ x, 0 ≤ x → x < p.total → (p.weightAt x = v ↔
          low ≤ x ∧ x < low + 1000 * v * ((ofWeight w.candidates v).length : Rat)) := by
  obtain ⟨m, hm⟩ := chooseLoop_gather (w := w) (p := w.picking)
    (fun n hn => by rw [show w.picking.weights = w.weights from rfl, Multimap.get_iter hn]; rfl)
    w.weights.nodup
  have hrun : w.chooseNextReadyConn rand1 rand2 = if w.weights.nodes.isEmpty then .ok (w, -1, none)
      else .ok ({ w with weights := m }, SvrPool.draw (gather w.ready w.picking) rand1 rand2) := by
    rw [chooseNextReadyConn, hm]
    rfl
  by_cases hnone : w.ready = []
  · have hno : ¬ ∃ n ∈ w.weights.nodes, w.Ready n := by
      rintro ⟨n, hn, hready⟩
      exact List.not_mem_nil (hnone ▸ mem_ready.mpr ⟨hn, hready⟩)
    have hcode : ∃ t code, w.chooseNextReadyConn rand1 rand2 = .ok (t, code, none) ∧ code ≠ 0 := by
      rw [hrun, hnone]
      by_cases hempty : w.weights.nodes.isEmpty = true
      · exact ⟨_, -1, if_pos hempty, by decide⟩
      · exact ⟨_, 1, if_neg hempty, by decide⟩
    obtain ⟨t, code, ht, hcode⟩ := hcode
    have htotal : (gather w.ready w.picking).total = 0 := by
      rw [hnone]
      show ((0 : Rat) + -1 * ((0 : Int) : Rat)) * ((1000 : Int) : Rat) = 0
      norm_num
    have hcand : w.candidates = [] := by
      rw [candidates, hnone]
      rfl
    refine ⟨_, t, code, none, hm, ht, iff_of_false hcode hno, fun h => absurd h hcode, fun v => ?_⟩
    refine ⟨0, le_rfl, ?_, fun x h0 hx => absurd (hx.trans_eq htotal) (not_lt_of_ge h0)⟩
    rw [hcand]
    apply le_of_eq
    rw [zero_add, show (ofWeight [] v).length = 0 from rfl, Nat.cast_zero, mul_zero]
    exact htotal.symm
  · have hgathered := gathered_candidates hw hnone
    have hcand : ExactWeights w.candidates :=
      hw.sublist (List.filter_sublist.trans List.filter_sublist)
    obtain ⟨n, hn, hdraw, hkey⟩ := hgathered.draw hcand rand1 rand2
    obtain ⟨hnode, hready⟩ := mem_ready.mp (List.mem_of_mem_filter hn)
    have hnonempty : ¬ w.weights.nodes.isEmpty = true := by
      rw [List.isEmpty_iff]
      exact List.ne_nil_of_mem hnode
    rw [if_neg hnonempty, hdraw] at hrun
    exact ⟨_, _, 0, n.val, hm, hrun, iff_of_true rfl ⟨n, hnode, hready⟩,
      fun _ => ⟨n, hnode, hready, rfl, hkey, fun n₀ h₀ => candidates_region hw hn h₀⟩,
      hgathered.segment hcand⟩

def twoServers : SvrPool Rat where
  map_ipport_sgservice := ∅
  map_ipport_spconninfo :=
    (AList.insert "10.0.0.1:80" ⟨sampleService "10.0.0.1" 80, some 0, some 0⟩ ∅).insert
      "10.0.0.2:80" ⟨sampleService "10.0.0.2" 80, some 1, some 1⟩
  weights := (Multimap.empty.insert weightSort 10 (some 0)).insert weightSort 5 (some 1)
  clients := 2
  connection
    | 0 => some ⟨"10.0.0.1", 80, true, .worker .new⟩
    | _ => none

theorem chooseNextReadyConn_weighted_two :
    ∃ t conn, twoServers.chooseNextReadyConn 7 3 = .ok (t, 0, conn) := by
  have hnodes : twoServers.weights.nodes = [⟨0, 10, some 0⟩, ⟨1, 5, some 1⟩] := by decide
  have hw : ExactWeights twoServers.weights.nodes := by
    rw [hnodes]
    exact ⟨by decide, by norm_num [Double.epsilon], by decide⟩
  obtain ⟨p, t, code, conn, -, h, hcode, -⟩ := chooseNextReadyConn_weighted hw 7 3
  have hready : twoServers.Ready ⟨0, 10, some 0⟩ :=
    ⟨0, ⟨"10.0.0.1", 80, true, .worker .new⟩, _, rfl, rfl, rfl, rfl⟩
  exact ⟨t, conn, (hcode.mpr ⟨_, by decide, hready⟩) ▸ h⟩

end SvrPool

end TstMuduo.Cthrift
