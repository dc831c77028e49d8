import TstMuduo.Cthrift.ChooseConn

/-!
# The weight index over whole runs (cthrift/cthrift_client_worker.cc)

Servers are added, changed and destroyed, connections come and go, and now and then one of them
is chosen. The index has to follow, or an iterator that a `ConnInfo` keeps gets invalid.
-/

namespace TstMuduo.Cthrift
open TstMuduo.Lib

variable {D : Type} [Double D]

namespace SvrPool

/-- Every `ConnInfo` has exactly one entry, under the weight of its server and with its own
client, and there are no other entries. -/
structure WeightIndexed (w : SvrPool D) : Prop extends w.Indexed where
  weight : ∀ {k info it weight c}, w.map_ipport_spconninfo.lookup k = some info →
    info.it_index = some it → w.weights.get it = some (weight, c) →
    weight = info.sgservice.octoWeight

/- `~ConnInfo` (`cthrift_client_worker.h:39`), when the map gives up the last pointer. -/
def destroyConnInfo (w : SvrPool D) (k : String) (info : ConnInfo D) :
    Except PoolFault (SvrPool D) := do
  let weights ← eraseIndex w.weights info.it_index
  return { w with map_ipport_spconninfo := w.map_ipport_spconninfo.erase k, weights := weights }

/- Calls of the worker's functions, and a change of what `connection()` of a client gives. -/
inductive Act (D : Type) where
  | addSrv (vec_add_sgservice : List (SGService D))
  | chgSrv (vec_chg_sgservice : List (SGService D))
  | chooseNextReadyConn (rand1 rand2 : Nat)
  | destroyConnInfo (k : String)
  | connection (client : Nat) (conn : Option TcpConn)

def step (w : SvrPool D) : Act D → Option (Except PoolFault (SvrPool D))
  | .addSrv l => addSrv 3 w l
  | .chgSrv l => chgSrv 3 w l
  | .chooseNextReadyConn rand1 rand2 =>
    some ((w.chooseNextReadyConn rand1 rand2).map Prod.fst)
  | .destroyConnInfo k => (w.map_ipport_spconninfo.lookup k).map fun info =>
    w.destroyConnInfo k info
  | .connection client conn =>
    if client < w.clients then
      some (.ok { w with connection := fun c => if c = client then conn else w.connection c })
    else none

def machine (D : Type) [Double D] : Machine (SvrPool D) (Act D) PoolFault where
  init := new
  step := step

/-! ### The condition -/

/-- The weight that the index has after the weights of a server have been `cur` and then those of
a list. -/
def settled : D → D → List D → D
  | weight, _, [] => weight
  | weight, cur, d :: ds => settled (if checkDoubleEqual cur d then weight else d) d ds

/-- Taken one after the other, the weights end at the one at which they last changed by epsilon
or more. -/
def Settles : List D → Prop
  | [] => True
  | d :: ds => settled d d ds = ds.getLast?.getD d

def SettlesAll (w : SvrPool D) (l : List (SGService D)) : Prop :=
  ∀ k, Settles (((w.stored k).toList ++ entriesFor l k).map SGService.octoWeight)

def Steady (w : SvrPool D) : Act D → Prop
  | .addSrv l => w.SettlesAll l
  | .chgSrv l => w.SettlesAll l
  | .chooseNextReadyConn _ _ => w.PeersKnown
  | .destroyConnInfo _ => True
  | .connection _ _ => True

/-! ### Lists of servers -/

variable {w t : SvrPool D} {l : List (SGService D)} {sg : SGService D} {k : String}
  {info : ConnInfo D} {weight : D}

theorem weightIndexed_iff : w.WeightIndexed ↔
    w.Indexed ∧ ∀ k v, w.view k = some v → v.2 = v.1.octoWeight := by
  constructor
  · intro h
    refine ⟨h.toIndexed, ?_⟩
    intro k v hv
    cases hl : w.map_ipport_spconninfo.lookup k with
    | none =>
      rw [view_eq_none hl] at hv
      cases hv
    | some info =>
      obtain ⟨it, c, weight, hit, -, hget⟩ := h.entry hl
      rw [view_eq_some hl hit hget] at hv
      cases hv
      exact h.weight hl hit hget
  · rintro ⟨hi, hview⟩
    refine ⟨hi, ?_⟩
    intro k info it weight c hl hit hget
    obtain ⟨it', c', weight', hit', -, hget'⟩ := hi.entry hl
    cases hit.symm.trans hit'
    cases hget.symm.trans hget'
    exact hview k _ (view_eq_some hl hit hget')

theorem foldl_upd_some (l : List (SGService D)) (sg : SGService D) (weight : D) :
    l.foldl upd (some (sg, weight)) =
      some (l.getLast?.getD sg, settled weight sg.octoWeight (l.map SGService.octoWeight)) := by
  induction l generalizing sg weight with
  | nil => rfl
  | cons s rest ih =>
    rw [List.foldl_cons, upd, ih, List.getLast?_cons]
    rfl

theorem settles_iff (l : List (SGService D)) (sg : SGService D) :
    (∀ v, l.foldl upd (some (sg, sg.octoWeight)) = some v → v.2 = v.1.octoWeight) ↔
      Settles ((sg :: l).map SGService.octoWeight) := by
  have hlast : (l.map SGService.octoWeight).getLast?.getD sg.octoWeight =
      (l.getLast?.getD sg).octoWeight := by
    rw [List.getLast?_map]
    cases l.getLast? with
    | none => rfl
    | some x => rfl
  rw [foldl_upd_some, List.map_cons, Settles, hlast]
  constructor
  · intro h
    exact h _ rfl
  · intro h v hv
    cases hv
    exact h

theorem Applies.weightIndexed_iff (h : w.WeightIndexed) (happ : w.Applies l t) :
    t.WeightIndexed ↔ w.SettlesAll l := by
  rw [SvrPool.weightIndexed_iff, and_iff_right happ.indexed]
  obtain ⟨hi, hw⟩ := SvrPool.weightIndexed_iff.mp h
  refine forall_congr' fun k => ?_
  rw [happ.view k, hi.stored_eq k]
  cases hv : w.view k with
  | some v =>
    have hweight := hw k v hv
    have hpair : v = (v.1, v.1.octoWeight) := by
      rw [← hweight]
    rw [hpair]
    exact settles_iff (entriesFor l k) v.1
  | none =>
    cases entriesFor l k with
    | nil => exact iff_of_true (fun v hv => by cases hv) trivial
    | cons sg rest => exact settles_iff rest sg

/-! ### The other steps -/

theorem destroyConnInfo_spec (h : w.WeightIndexed)
    (hl : w.map_ipport_spconninfo.lookup k = some info) :
    ∃ t, w.destroyConnInfo k info = .ok t ∧ t.WeightIndexed := by
  obtain ⟨it, c, weight, hit, hc, hget⟩ := h.entry hl
  obtain ⟨m, hm⟩ := Multimap.erase_of_get hget
  have hstep : w.destroyConnInfo k info = .ok { w with
      map_ipport_spconninfo := w.map_ipport_spconninfo.erase k, weights := m } := by
    simp only [destroyConnInfo, hit, eraseIndex, hm]
    rfl
  -- what is still in the map was there before, under another address
  have hback : ∀ {k' info'}, (w.map_ipport_spconninfo.erase k).lookup k' = some info' →
      k' ≠ k ∧ w.map_ipport_spconninfo.lookup k' = some info' := by
    intro k' info' hl'
    by_cases hk : k' = k
    · rw [hk, AList.lookup_erase] at hl'
      cases hl'
    · rw [AList.lookup_erase_ne hk] at hl'
      exact ⟨hk, hl'⟩
  refine ⟨_, hstep, ?_, ?_⟩
  · constructor
    · intro k' info' hl'
      obtain ⟨hk, hold⟩ := hback hl'
      obtain ⟨jt, c', weight', hjt, hc', hget'⟩ := h.entry hold
      refine ⟨jt, c', weight', hjt, hc', ?_⟩
      have hne : jt ≠ it := by
        rintro rfl
        exact hk (h.apart _ _ _ _ hold hl (hjt.trans hit.symm))
      rw [Multimap.get_erase hm, if_neg hne, hget']
    · intro jt e he
      rw [Multimap.get_erase hm] at he
      split at he
      · cases he
      next hj =>
        obtain ⟨k', info', hl', hjt⟩ := h.owner he
        have hk : k' ≠ k := by
          rintro rfl
          cases hl.symm.trans hl'
          exact hj (Option.some.inj (hjt.symm.trans hit))
        exact ⟨k', info', by rw [AList.lookup_erase_ne hk]; exact hl', hjt⟩
    · intro k₁ k₂ info₁ info₂ h₁ h₂ he
      exact h.apart _ _ _ _ (hback h₁).2 (hback h₂).2 he
    · intro k' info' c' hl' hc'
      exact h.client_lt (hback hl').2 hc'
    · intro k₁ k₂ info₁ info₂ h₁ h₂ he
      exact h.client_apart _ _ _ _ (hback h₁).2 (hback h₂).2 he
  · intro k' info' jt weight' c' hl' hjt hget'
    rw [Multimap.get_erase hm] at hget'
    split at hget'
    · cases hget'
    · exact h.weight (hback hl').2 hjt hget'

theorem step_steady (h : w.WeightIndexed) (a : Act D) (ha : w.Steady a)
    {x : Except PoolFault (SvrPool D)} (hx : w.step a = some x) :
    ∃ t, x = .ok t ∧ t.WeightIndexed := by
  cases a with
  | addSrv l =>
    obtain ⟨t, ht, happ⟩ := addSrv_spec h.toIndexed l 1
    cases ht.symm.trans hx
    exact ⟨t, rfl, (happ.weightIndexed_iff h).mpr ha⟩
  | chgSrv l =>
    obtain ⟨t, ht, happ⟩ := chgSrv_spec h.toIndexed l 0
    cases ht.symm.trans hx
    exact ⟨t, rfl, (happ.weightIndexed_iff h).mpr ha⟩
  | chooseNextReadyConn rand1 rand2 =>
    obtain ⟨r, hr⟩ := chooseNextReadyConn_keeps h.toIndexed ha rand1 rand2
    simp only [step, hr] at hx
    cases hx
    exact ⟨w, rfl, h⟩
  | destroyConnInfo k =>
    obtain ⟨info, hl, he⟩ := Option.map_eq_some_iff.mp hx
    obtain ⟨t, ht, hi⟩ := destroyConnInfo_spec h hl
    exact ⟨t, he.symm.trans ht, hi⟩
  | connection client conn =>
    simp only [step] at hx
    split at hx
    · cases hx
      exact ⟨_, rfl, ⟨h.entry, h.owner, h.apart, h.client_lt, h.client_apart⟩, h.weight⟩
    · cases hx

theorem step_unsteady (h : w.WeightIndexed) (a : Act D) (ha : ¬ w.Steady a)
    (ht : w.step a = some (.ok t)) : ¬ t.WeightIndexed := by
  cases a with
  | addSrv l =>
    obtain ⟨u, hu, happ⟩ := addSrv_spec h.toIndexed l 1
    cases hu.symm.trans ht
    exact fun hi => ha ((happ.weightIndexed_iff h).mp hi)
  | chgSrv l =>
    obtain ⟨u, hu, happ⟩ := chgSrv_spec h.toIndexed l 0
    cases hu.symm.trans ht
    exact fun hi => ha ((happ.weightIndexed_iff h).mp hi)
  | chooseNextReadyConn rand1 rand2 =>
    simp only [step] at ht
    cases hr : w.chooseNextReadyConn rand1 rand2 with
    | error e =>
      rw [hr] at ht
      cases ht
    | ok r =>
      rw [hr] at ht
      cases ht
      exact fun hi => chooseNextReadyConn_loses h.toIndexed ha hr hi.toIndexed
  | destroyConnInfo k => exact absurd trivial ha
  | connection client conn => exact absurd trivial ha

/-- In any run the index is right in every state, and no erase uses an invalid iterator, if and
only if every step is steady. -/
theorem weight_index_iff (acts : List (Act D)) {x : Except PoolFault (SvrPool D)}
    (h : (machine D).run (machine D).init acts = some x) :
    (∀ pre, pre <+: acts → ∃ t, (machine D).run (machine D).init pre = some (.ok t) ∧
      t.WeightIndexed) ↔ (machine D).Along Steady (machine D).init acts := by
  have hnew : (new : SvrPool D).WeightIndexed :=
    ⟨indexed_new, fun hl => by cases hl⟩
  exact Machine.run_always_iff (fun _ hp => hp)
    (fun _ a _ hp hg hx => step_steady hp a hg hx)
    (fun _ a _ hp hg ht => step_unsteady hp a hg ht) hnew h

/- A server, and a call before it has a connection. -/
def steadyActs : List (Act Rat) :=
  [.addSrv [sampleService "10.0.0.1" 9000], .chooseNextReadyConn 7 7]

theorem weight_index_steadyActs :
    ∃ x, (machine Rat).run (machine Rat).init steadyActs = some x ∧
      ∀ pre, pre <+: steadyActs → ∃ t, (machine Rat).run (machine Rat).init pre = some (.ok t) ∧
        t.WeightIndexed := by
  have hrun : (machine Rat).runsTo (machine Rat).init steadyActs (fun t =>
      decide (t.weights.nodes.length = 1)) = true := by
    decide +kernel
  obtain ⟨t, ht, -⟩ := Machine.exists_of_runsTo hrun
  refine ⟨.ok t, ht, (weight_index_iff steadyActs ht).mpr ⟨?_, ?_⟩⟩
  · intro k
    by_cases hk : (sampleService "10.0.0.1" 9000).ipport = k
    · rw [← hk]
      rfl
    · rw [entriesFor_cons_ne fun he => hk he.symm]
      trivial
  · intro u hu
    refine ⟨?_, fun v hv => trivial⟩
    have hconn : ∀ c, u.connection c = none := by
      cases hu
      intro c
      exact ite_self _
    intro n hn c conn hval hc
    rw [hconn c] at hc
    cases hc

/-- A server whose port does not fit into 16 bits reports another one: the call takes its entry
for stale, and the destructor then erases it once more. -/
theorem chooseNextReadyConn_invalidates :
    (machine Rat).run (machine Rat).init
      [.addSrv [sampleService "10.0.0.1" 70000],
        .connection 0 (some ⟨"10.0.0.1", 4464, true, .empty⟩),
        .chooseNextReadyConn 7 7,
        .destroyConnInfo "10.0.0.1:70000"] = some (.error .invalidIterator) := by
  apply Machine.run_of_failsWith
  decide +kernel

/-! ### The order of the index -/

/-- What `<` is on doubles, also on values that are not numbers. -/
structure StrictLt (D : Type) [Double D] : Prop where
  asymm : ∀ a b : D, Double.lt a b = true → Double.lt b a = false
  trans : ∀ a b c : D, Double.lt a b = true → Double.lt b c = true → Double.lt a c = true

section
variable {m m' : WeightMap D} {w t : SvrPool D} {sg : SGService D} {l chg : List (SGService D)}
  {p q : Picking D} {acts : List (Act D)}

theorem ordered_insert (hlt : StrictLt D) (h : m.Ordered weightSort) (k : D) (c : Option Nat) :
    (m.insert weightSort k c).Ordered weightSort :=
  h.insert (fun a b => hlt.asymm b a) (fun a b c hab hbc => hlt.trans c b a hbc hab) k c

theorem ordered_eraseIndex {it : Option Nat} (h : m.Ordered weightSort)
    (hm : eraseIndex m it = .ok m') : m'.Ordered weightSort := by
  cases it with
  | none => cases hm
  | some it => exact h.erase (eraseIndex_ok hm)

theorem ordered_connect (hlt : StrictLt D) (h : w.weights.Ordered weightSort)
    (ht : w.connect sg = .ok t) : t.weights.Ordered weightSort := by
  cases ht
  exact ordered_insert hlt h _ _

theorem ordered_change {info : ConnInfo D} (hlt : StrictLt D) (h : w.weights.Ordered weightSort)
    (ht : w.change info sg = .ok t) : t.weights.Ordered weightSort := by
  obtain ⟨⟨info', m⟩, hm, ht⟩ := bind_eq_ok ht
  cases ht
  unfold ConnInfo.uptSgservice at hm
  split at hm
  · cases hm
    exact h
  · obtain ⟨m', hm', hm⟩ := bind_eq_ok hm
    cases hm
    exact ordered_insert hlt (ordered_eraseIndex h hm') _ _

theorem ordered_addLoop (hlt : StrictLt D) (h : w.weights.Ordered weightSort)
    (ht : addLoop w l = .ok (t, chg)) : t.weights.Ordered weightSort := by
  induction l generalizing w chg with
  | nil =>
    cases ht
    exact h
  | cons sg l ih =>
    unfold addLoop at ht
    split at ht
    · obtain ⟨⟨u, chg'⟩, hu, ht⟩ := bind_eq_ok ht
      cases ht
      exact ih h hu
    · obtain ⟨u, hu, ht⟩ := bind_eq_ok ht
      exact ih (ordered_connect hlt h hu) ht

theorem ordered_chgLoop (hlt : StrictLt D) (h : w.weights.Ordered weightSort)
    (ht : chgLoop w l = .ok (t, chg)) : t.weights.Ordered weightSort := by
  induction l generalizing w chg with
  | nil =>
    cases ht
    exact h
  | cons sg l ih =>
    unfold chgLoop at ht
    split at ht
    · obtain ⟨⟨u, add⟩, hu, ht⟩ := bind_eq_ok ht
      cases ht
      exact ih h hu
    · obtain ⟨u, hu, ht⟩ := bind_eq_ok ht
      exact ih (ordered_change hlt h hu) ht

theorem ordered_addSrv_chgSrv (hlt : StrictLt D) (depth : Nat) (h : w.weights.Ordered weightSort) :
    (addSrv depth w l = some (.ok t) → t.weights.Ordered weightSort) ∧
      (chgSrv depth w l = some (.ok t) → t.weights.Ordered weightSort) := by
  induction depth generalizing w l with
  | zero =>
    constructor
    · exact fun ht => nomatch ht
    · exact fun ht => nomatch ht
  | succ depth ih =>
    constructor
    · intro ht
      unfold addSrv at ht
      split at ht
      · cases ht
      next u chg hu =>
        have hu' := ordered_addLoop hlt h hu
        split at ht
        · cases ht
          exact hu'
        · exact (ih hu').2 ht
    · intro ht
      unfold chgSrv at ht
      split at ht
      · cases ht
      next u add hu =>
        have hu' := ordered_chgLoop hlt h hu
        split at ht
        · cases ht
          exact hu'
        · exact (ih hu').1 ht

theorem ordered_chooseLoop {ns : List (Multimap.Node D (Option Nat))}
    (h : p.weights.Ordered weightSort) (hq : w.chooseLoop ns p = .ok q) :
    q.weights.Ordered weightSort := by
  induction ns generalizing p with
  | nil =>
    cases hq
    exact h
  | cons n ns ih =>
    unfold chooseLoop at hq
    split at hq
    · obtain ⟨m, hm, hq⟩ := bind_eq_ok hq
      exact ih (ordered_eraseIndex h hm) hq
    · exact ih h hq
    · split at hq
      · cases hq
        exact h
      next r hr => exact ih (by rw [weigh_weights hr]; exact h) hq

theorem step_ordered (hlt : StrictLt D) (a : Act D) (h : w.weights.Ordered weightSort)
    (ht : w.step a = some (.ok t)) : t.weights.Ordered weightSort := by
  cases a with
  | addSrv l => exact (ordered_addSrv_chgSrv hlt 3 h).1 ht
  | chgSrv l => exact (ordered_addSrv_chgSrv hlt 3 h).2 ht
  | chooseNextReadyConn rand1 rand2 =>
    have hmap := Option.some.inj ht
    unfold chooseNextReadyConn at hmap
    split at hmap
    · cases hmap
      exact h
    · cases hp : w.chooseLoop w.weights.nodes w.picking with
      | error e =>
        rw [hp] at hmap
        cases hmap
      | ok p =>
        rw [hp] at hmap
        cases hmap
        exact ordered_chooseLoop (p := w.picking) h hp
  | destroyConnInfo k =>
    obtain ⟨info, -, hinfo⟩ := Option.map_eq_some_iff.mp ht
    obtain ⟨m, hm, hu⟩ := bind_eq_ok hinfo
    cases hu
    exact ordered_eraseIndex h hm
  | connection client conn =>
    simp only [step] at ht
    split at ht
    · cases ht
      exact h
    · cases ht

theorem ordered_run (hlt : StrictLt D)
    (h : (machine D).run (machine D).init acts = some (.ok t)) :
    t.weights.Ordered weightSort := by
  have hinit : (machine D).init.weights.Ordered weightSort := List.Pairwise.nil
  exact Machine.run_inv_all (P := fun w : SvrPool D => w.weights.Ordered weightSort)
    (fun _ a _ hs ht => step_ordered hlt a hs ht) hinit h

end

end SvrPool

end TstMuduo.Cthrift
