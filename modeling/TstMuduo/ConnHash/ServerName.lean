import TstMuduo.ConnHash.ConsistentHash

/-!
# Routing (tstconnhash/ConsistentHash.cpp: `getServerName`)

A client belongs to the first entry of the ring from its key on, or to the smallest one past the
end. `getServerName` looks that entry up but returns its name only past the end.
-/

namespace TstMuduo.ConnHash.ConsistentHash
open TstMuduo.Lib

/-- The name at the client's entry of the ring is returned, and it is that of a node. -/
def Routed (hash : Name → Key) (s : ConsistentHash) (cliName : Name) : Prop :=
  ∃ e, route (hash cliName) s.allNode = some e ∧ s.getServerName hash cliName = some e.2 ∧
    e.2 ∈ s.realNode.map Node.nodeName

/-- There is an entry, and none from the client's key on, or the first of those has the empty
name. -/
def PastTheEnd (hash : Name → Key) (s : ConsistentHash) (cliName : Name) : Prop :=
  s.allNode ≠ [] ∧
    ∀ e ∈ s.allNode.find? (fun e => decide (hash cliName ≤ e.1)), e.2 = []

variable {hash : Name → Key} {s t : ConsistentHash} {cliName nodeName : Name} {e : Key × Name}

theorem Covered.mem_realNode (hs : s.Covered hash) (he : e ∈ s.allNode) :
    e.2 ∈ s.realNode.map Node.nodeName := by
  have hpos : 0 < (s.realNode.flatMap (entriesOf hash)).count e :=
    Nat.lt_of_lt_of_le (List.count_pos_iff.mpr he) (hs.count_le e)
  obtain ⟨node, hnode, hmem⟩ := List.mem_flatMap.mp (List.count_pos_iff.mp hpos)
  rw [snd_of_mem_entriesOf hmem]
  exact List.mem_map_of_mem hnode

theorem getServerName_eq_iff (he : route (hash cliName) s.allNode = some e) :
    s.getServerName hash cliName = some e.2 ↔ s.PastTheEnd hash cliName := by
  have hne : s.allNode ≠ [] := List.ne_nil_of_mem (route_mem he)
  rw [PastTheEnd, and_iff_right hne]
  cases hfind : s.allNode.find? (fun e => decide (hash cliName ≤ e.1)) with
  | none =>
    rw [route, hfind, Option.none_or] at he
    simp only [getServerName, hfind, he, Option.map_some]
    exact ⟨fun _ d hd => (by cases hd), fun _ => trivial⟩
  | some d =>
    rw [route, hfind, Option.some_or] at he
    cases he
    simp only [getServerName, hfind, Option.some.injEq]
    constructor
    · intro hname d hd
      cases hd
      exact hname.symm
    · intro hall
      exact (hall e rfl).symm

theorem routed_iff (hs : s.Covered hash) (cliName : Name) :
    s.Routed hash cliName ↔ s.PastTheEnd hash cliName := by
  constructor
  · rintro ⟨e, he, hname, -⟩
    exact (getServerName_eq_iff he).mp hname
  · intro hpast
    obtain ⟨e, he⟩ := route_isSome (k := hash cliName) hpast.1
    exact ⟨e, he, (getServerName_eq_iff he).mpr hpast, hs.mem_realNode (route_mem he)⟩

theorem Routed.disruption (hs : s.Routed hash cliName) (ht : t.Routed hash cliName)
    (hothers : others nodeName t.allNode = others nodeName s.allNode)
    (hne : s.getServerName hash cliName ≠ t.getServerName hash cliName) :
    s.getServerName hash cliName = some nodeName ∨
      t.getServerName hash cliName = some nodeName := by
  obtain ⟨e, he, hse, -⟩ := hs
  obtain ⟨d, hd, htd, -⟩ := ht
  rw [hse, htd] at hne ⊢
  by_contra hnot
  obtain ⟨hnote, hnotd⟩ := not_or.mp hnot
  have hkept : ∀ {d : Key × Name}, ¬ some d.2 = some nodeName →
      decide (d.2 ≠ nodeName) = true := by
    intro d h
    exact decide_eq_true fun hname => h (congrArg some hname)
  have heq : e = d := route_eq_of_filter_eq hothers.symm he (hkept hnote) hd (hkept hnotd)
  exact hne (by rw [heq])

/-- After any calls, a client gets the name at its entry of the ring exactly if there is no entry
from its key on, or the name there is empty. If this is so before and after another call, the
answer changes only from the node of that call or to it. -/
theorem getServerName_routes_iff (hash : Name → Key) (acts : List Act)
    (hcount : (machine hash).Along (Counted hash) (machine hash).init acts) :
    ∃ s, (machine hash).run (machine hash).init acts = some (.ok s) ∧
      (∀ cliName, s.Routed hash cliName ↔ s.PastTheEnd hash cliName) ∧
      ∀ a, s.Counted hash a → ∃ t, s.step hash a = .ok t ∧ ∀ cliName,
        (s.Routed hash cliName ∧ t.Routed hash cliName ∧
          (s.getServerName hash cliName ≠ t.getServerName hash cliName →
            s.getServerName hash cliName = some a.nodeName ∨
              t.getServerName hash cliName = some a.nodeName)) ↔
        s.PastTheEnd hash cliName ∧ t.PastTheEnd hash cliName := by
  have hstep : ∀ s a, s.Covered hash → s.Counted hash a →
      ∃ t, (machine hash).step s a = some (.ok t) ∧ t.Covered hash := by
    intro s a hs hc
    obtain ⟨t, ht, hcovered, -⟩ := step_spec hs a hc
    exact ⟨t, congrArg some ht, hcovered⟩
  obtain ⟨s, hrun, hs⟩ := Machine.run_good hstep covered_empty hcount
  refine ⟨s, hrun, routed_iff hs, ?_⟩
  intro a hc
  obtain ⟨t, ht, hcovered, hothers⟩ := step_spec hs a hc
  refine ⟨t, ht, ?_⟩
  intro cliName
  constructor
  · rintro ⟨hsr, htr, -⟩
    exact ⟨(routed_iff hs cliName).mp hsr, (routed_iff hcovered cliName).mp htr⟩
  · rintro ⟨hsp, htp⟩
    have hsr := (routed_iff hs cliName).mpr hsp
    have htr := (routed_iff hcovered cliName).mpr htp
    exact ⟨hsr, htr, hsr.disruption htr hothers⟩

def lastKey (name : Name) : Key := if name = ['c'] then 5 else 0

theorem getServerName_routes_lastKey :
    ∃ s, (machine lastKey).run (machine lastKey).init [.addNode ['a'] 1] = some (.ok s) ∧
      s.PastTheEnd lastKey ['c'] ∧ s.Routed lastKey ['c'] := by
  obtain ⟨s, hs, hiff, -⟩ := getServerName_routes_iff lastKey [.addNode ['a'] 1] (by decide +kernel)
  have hrun : (machine lastKey).runsTo (machine lastKey).init [.addNode ['a'] 1]
      (fun t => decide (t.allNode = [(0, ['a']), (0, ['a'])])) = true := by decide +kernel
  obtain ⟨t, ht, hring⟩ := Machine.exists_of_runsTo hrun
  cases hs.symm.trans ht
  have hpast : s.PastTheEnd lastKey ['c'] := by
    rw [PastTheEnd, of_decide_eq_true hring]
    decide +kernel
  exact ⟨s, hs, hpast, (hiff ['c']).mpr hpast⟩

/-- One node and a client with the same key: the client gets the empty name. -/
theorem getServerName_not_found :
    ∃ s, (machine fun _ => 0).run (machine fun _ => 0).init [.addNode ['a'] 1] = some (.ok s) ∧
      s.realNode ≠ [] ∧ route 0 s.allNode = some (0, ['a']) ∧
      s.getServerName (fun _ => 0) ['c'] = some [] ∧ ¬ s.Routed (fun _ => 0) ['c'] := by
  have hrun : (machine fun _ => 0).runsTo (machine fun _ => 0).init [.addNode ['a'] 1]
      (fun t => decide (t.realNode ≠ [] ∧ route 0 t.allNode = some (0, ['a']) ∧
        t.getServerName (fun _ => 0) ['c'] = some [])) = true := by decide +kernel
  obtain ⟨s, hs, hfacts⟩ := Machine.exists_of_runsTo hrun
  obtain ⟨hnodes, hroute, hname⟩ := of_decide_eq_true hfacts
  refine ⟨s, hs, hnodes, hroute, hname, ?_⟩
  rintro ⟨e, he, hse, -⟩
  cases hroute.symm.trans he
  cases hname.symm.trans hse

end TstMuduo.ConnHash.ConsistentHash
