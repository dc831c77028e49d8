import TstMuduo.Cthrift.SvrPool

/-!
# The server list (cthrift/cthrift_client_worker.cc)

`UpdateSvrList` compares a new list with `map_ipport_sgservice_`, and hands what was added and
what has changed to `AddSrv` and `ChgSrv`. The two maps then have to agree with each other and
with the list.
-/

namespace TstMuduo.Cthrift
open TstMuduo.Lib

variable {D : Type} [Double D]

/- A server list map, and the entries for `AddSrv`, `DelSrv` and `ChgSrv`. -/
structure Changes (D : Type) where
  sgservice : AList fun _ : String => SGService D
  add : List (SGService D)
  del : List (SGService D)
  chg : List (SGService D)

/- `unordered_map::insert`. -/
def insertNew (m : AList fun _ : String => SGService D) (sg : SGService D) :
    AList fun _ : String => SGService D :=
  if sg.ipport ∈ m then m else m.insert sg.ipport sg

/- The loop for the first list (`cthrift_client_worker.cc:307`). -/
def initLoop : (AList fun _ : String => SGService D) → List (SGService D) → Changes D
  | m, [] => ⟨m, [], [], []⟩
  | m, sg :: rest =>
    if sg.status ≠ 2 then initLoop m rest
    else
      let r := initLoop (insertNew m sg) rest
      { r with add := sg :: r.add }

/- The loop over a later list (`cthrift_client_worker.cc:342`), with `map_tmp_locate_del`. -/
def diffLoop : (AList fun _ : String => SGService D) → (AList fun _ : String => SGService D) →
    List (SGService D) → Changes D × AList fun _ : String => SGService D
  | m, tmp, [] => (⟨m, [], [], []⟩, tmp)
  | m, tmp, sg :: rest =>
    if sg.status ≠ 2 then diffLoop m tmp rest
    else
      match m.lookup sg.ipport with
      | none =>
        let r := diffLoop (m.insert sg.ipport sg) tmp rest
        ({ r.1 with add := sg :: r.1.add }, r.2)
      | some old =>
        if !old.eq sg then
          let r := diffLoop (m.insert sg.ipport sg) (tmp.erase sg.ipport) rest
          ({ r.1 with chg := sg :: r.1.chg }, r.2)
        else diffLoop m (tmp.erase sg.ipport) rest

/- The keys that are left in `map_tmp_locate_del` (`cthrift_client_worker.cc:394`). -/
def deleteRest (c : Changes D) (tmp : AList fun _ : String => SGService D) : Changes D :=
  { c with
    sgservice := tmp.keys.foldl (fun m k => m.erase k) c.sgservice
    del := tmp.entries.map Sigma.snd }

/- The four cases of `UpdateSvrList`. -/
def changes (m : AList fun _ : String => SGService D) (vec_sgservice : List (SGService D)) :
    Changes D :=
  if m.entries.isEmpty && vec_sgservice.isEmpty then ⟨m, [], [], []⟩
  else if m.entries.isEmpty then initLoop m vec_sgservice
  else if vec_sgservice.isEmpty then ⟨∅, [], m.entries.map Sigma.snd, []⟩
  else
    let r := diffLoop m m vec_sgservice
    deleteRest r.1 r.2

namespace SvrPool

/- `UpdateSvrList` (`cthrift_client_worker.cc:288`), to a given depth of `AddSrv` and `ChgSrv`. -/
def updateSvrList (depth : Nat) (w : SvrPool D) (vec_sgservice : List (SGService D)) :
    Option (Except PoolFault (SvrPool D)) :=
  let c := changes w.map_ipport_sgservice vec_sgservice
  match addSrv depth { w with map_ipport_sgservice := c.sgservice } c.add with
  | none => none
  | some (.error e) => some (.error e)
  | some (.ok t) => chgSrv depth (t.delSrv c.del) c.chg

/-- The entries of a list that count, for one address. -/
def up (l : List (SGService D)) (k : String) : List (SGService D) :=
  entriesFor (l.filter fun sg => sg.status = 2) k

/-- The maps have the addresses of the entries with status 2, and for each of these the same
entry, which the list has too. -/
structure Reconciled (w : SvrPool D) (l : List (SGService D)) : Prop where
  sgservice_keys : ∀ k, k ∈ w.map_ipport_sgservice ↔ ∃ e ∈ l, e.status = 2 ∧ e.ipport = k
  conninfo_keys : ∀ k, k ∈ w.map_ipport_spconninfo ↔ ∃ e ∈ l, e.status = 2 ∧ e.ipport = k
  same : ∀ k s info, w.map_ipport_sgservice.lookup k = some s →
    w.map_ipport_spconninfo.lookup k = some info →
    info.sgservice = s ∧ ∃ e ∈ l, e.status = 2 ∧ e.ipport = k ∧ (s = e ∨ s.eq e)

/-- No address of the list before is missing in the new one; and if that list had none, the
first and the last entry of each address in the new one are the same. -/
def Follows (before l : List (SGService D)) : Prop :=
  (∀ k, up before k ≠ [] → up l k ≠ []) ∧
    ((∀ k, up before k = []) → ∀ k, (up l k).head? = (up l k).getLast?)

/-! ### The differences -/

variable {m tmp : AList fun _ : String => SGService D} {l rest : List (SGService D)}
  {sg s : SGService D} {k : String} {w t : SvrPool D}

omit [Double D] in
theorem mem_up : sg ∈ up l k ↔ sg ∈ l ∧ sg.status = 2 ∧ sg.ipport = k := by
  rw [up, mem_entriesFor, List.mem_filter, decide_eq_true_iff, and_assoc]

omit [Double D] in
theorem up_ne_nil : up l k ≠ [] ↔ ∃ e ∈ l, e.status = 2 ∧ e.ipport = k := by
  constructor
  · intro h
    obtain ⟨e, he⟩ := List.exists_mem_of_ne_nil _ h
    exact ⟨e, mem_up.mp he⟩
  · rintro ⟨e, he⟩
    exact List.ne_nil_of_mem (mem_up.mpr he)

omit [Double D] in
theorem up_cons_down (h : sg.status ≠ 2) : up (sg :: l) k = up l k := by
  rw [up, List.filter_cons_of_neg (by rw [decide_eq_true_iff]; exact h)]
  rfl

omit [Double D] in
theorem up_cons_self (h : sg.status = 2) : up (sg :: l) sg.ipport = sg :: up l sg.ipport := by
  rw [up, List.filter_cons_of_pos (by rw [decide_eq_true_iff]; exact h), entriesFor_cons_self]
  rfl

omit [Double D] in
theorem up_cons_ne (h : k ≠ sg.ipport) : up (sg :: l) k = up l k := by
  by_cases hs : sg.status = 2
  · rw [up, List.filter_cons_of_pos (by rw [decide_eq_true_iff]; exact hs), entriesFor_cons_ne h]
    rfl
  · exact up_cons_down hs

omit [Double D] in
theorem lookup_insertNew :
    (insertNew m sg).lookup k = (m.lookup k).or (if k = sg.ipport then some sg else none) := by
  unfold insertNew
  by_cases hk : k = sg.ipport
  · subst hk
    rw [if_pos rfl]
    split
    next hm =>
      obtain ⟨s, hs⟩ := Option.isSome_iff_exists.mp (AList.lookup_isSome.mpr hm)
      rw [hs]
      rfl
    next hm => rw [AList.lookup_insert, AList.lookup_eq_none.mpr hm, Option.none_or]
  · rw [if_neg hk, Option.or_none]
    split
    · rfl
    · exact AList.lookup_insert_ne hk

omit [Double D] in
theorem initLoop_spec (l : List (SGService D)) (m : AList fun _ : String => SGService D) :
    (initLoop m l).chg = [] ∧
      ∀ k, (initLoop m l).sgservice.lookup k = (m.lookup k).or (up l k).head? ∧
        entriesFor (initLoop m l).add k = up l k := by
  induction l generalizing m with
  | nil => exact ⟨rfl, fun k => ⟨(Option.or_none).symm, rfl⟩⟩
  | cons sg rest ih =>
    by_cases hs : sg.status = 2
    · have hstep : initLoop m (sg :: rest) = { initLoop (insertNew m sg) rest with
          add := sg :: (initLoop (insertNew m sg) rest).add } := by
        rw [initLoop, if_neg (not_not_intro hs)]
      obtain ⟨hchg, hrest⟩ := ih (insertNew m sg)
      rw [hstep]
      refine ⟨hchg, fun k => ?_⟩
      obtain ⟨hmap, hadd⟩ := hrest k
      by_cases hk : k = sg.ipport
      · subst hk
        rw [up_cons_self hs, entriesFor_cons_self, hadd]
        refine ⟨?_, rfl⟩
        rw [hmap, lookup_insertNew, if_pos rfl, Option.or_assoc]
        rfl
      · rw [up_cons_ne hk, entriesFor_cons_ne hk, hadd]
        refine ⟨?_, rfl⟩
        rw [hmap, lookup_insertNew, if_neg hk, Option.or_none]
    · have hstep : initLoop m (sg :: rest) = initLoop m rest := by
        rw [initLoop, if_pos hs]
      rw [hstep]
      refine ⟨(ih m).1, fun k => ?_⟩
      rw [up_cons_down hs]
      exact (ih m).2 k

/-- What the loop over a later list has made of one address. -/
structure Compared (m tmp : AList fun _ : String => SGService D) (l : List (SGService D))
    (k : String) (r : Changes D × AList fun _ : String => SGService D) : Prop where
  known : k ∈ m → entriesFor r.1.add k = []
  last : r.1.sgservice.lookup k =
    (entriesFor r.1.add k ++ entriesFor r.1.chg k).getLast?.or (m.lookup k)
  left : k ∈ r.2 ↔ k ∈ tmp ∧ up l k = []
  entry : up l k ≠ [] → ∃ s e, r.1.sgservice.lookup k = some s ∧ e ∈ up l k ∧ (s = e ∨ s.eq e)
  kept : up l k = [] → r.1.sgservice.lookup k = m.lookup k

variable {m' tmp' : AList fun _ : String => SGService D}
  {r r' : Changes D × AList fun _ : String => SGService D}

theorem Compared.elsewhere (h : Compared m' tmp' rest k r) (hk : up (sg :: rest) k = up rest k)
    (hm : m'.lookup k = m.lookup k) (htmp : k ∈ tmp' ↔ k ∈ tmp)
    (hadd : entriesFor r'.1.add k = entriesFor r.1.add k)
    (hchg : entriesFor r'.1.chg k = entriesFor r.1.chg k)
    (hmap : r'.1.sgservice = r.1.sgservice) (hleft : r'.2 = r.2) :
    Compared m tmp (sg :: rest) k r' := by
  have hmem : k ∈ m' ↔ k ∈ m := by
    rw [← AList.lookup_isSome, ← AList.lookup_isSome, hm]
  constructor
  · intro hin
    rw [hadd]
    exact h.known (hmem.mpr hin)
  · rw [hmap, hadd, hchg, ← hm]
    exact h.last
  · rw [hleft, hk, ← htmp]
    exact h.left
  · rw [hmap, hk]
    exact h.entry
  · rw [hmap, hk, ← hm]
    exact h.kept

theorem Compared.here (h : Compared m' tmp' rest sg.ipport r) (hs : sg.status = 2)
    (htmp : sg.ipport ∉ tmp') (hput : m'.lookup sg.ipport = some s) (hlike : s = sg ∨ s.eq sg)
    (hknown : sg.ipport ∈ m → entriesFor r'.1.add sg.ipport = [])
    (hlast : r'.1.sgservice.lookup sg.ipport =
      (entriesFor r'.1.add sg.ipport ++ entriesFor r'.1.chg sg.ipport).getLast?.or
        (m.lookup sg.ipport))
    (hmap : r'.1.sgservice = r.1.sgservice) (hleft : r'.2 = r.2) :
    Compared m tmp (sg :: rest) sg.ipport r' := by
  have hup := up_cons_self (l := rest) hs
  constructor
  · exact hknown
  · exact hlast
  · rw [hleft, h.left, hup]
    exact iff_of_false (fun hx => htmp hx.1) (fun hx => List.cons_ne_nil _ _ hx.2)
  · intro _
    rw [hmap, hup]
    by_cases hrest : up rest sg.ipport = []
    · rw [h.kept hrest, hput]
      exact ⟨s, sg, rfl, List.mem_cons_self, hlike⟩
    · obtain ⟨s', e, hl, he, hsame⟩ := h.entry hrest
      exact ⟨s', e, hl, List.mem_cons_of_mem _ he, hsame⟩
  · intro hnil
    rw [hup] at hnil
    cases hnil

theorem Compared.assigned (h : Compared (m.insert sg.ipport sg) tmp' rest sg.ipport r)
    (hs : sg.status = 2) (htmp : sg.ipport ∉ tmp')
    (hknown : sg.ipport ∈ m → entriesFor r'.1.add sg.ipport = [])
    (hchanged : entriesFor r'.1.add sg.ipport ++ entriesFor r'.1.chg sg.ipport =
      sg :: (entriesFor r.1.add sg.ipport ++ entriesFor r.1.chg sg.ipport))
    (hmap : r'.1.sgservice = r.1.sgservice) (hleft : r'.2 = r.2) :
    Compared m tmp (sg :: rest) sg.ipport r' := by
  have hput : (m.insert sg.ipport sg).lookup sg.ipport = some sg := AList.lookup_insert m
  refine h.here hs htmp hput (.inl rfl) hknown ?_ hmap hleft
  rw [hmap, h.last, hchanged, List.getLast?_cons, hput]
  cases (entriesFor r.1.add sg.ipport ++ entriesFor r.1.chg sg.ipport).getLast? with
  | none => rfl
  | some x => rfl

theorem diffLoop_spec (l : List (SGService D)) (m tmp : AList fun _ : String => SGService D)
    (k : String) (hsub : k ∈ tmp → k ∈ m) : Compared m tmp l k (diffLoop m tmp l) := by
  induction l generalizing m tmp with
  | nil =>
    exact ⟨fun _ => rfl, rfl, (and_iff_left rfl).symm, fun h => absurd rfl h, fun _ => rfl⟩
  | cons sg rest ih =>
    by_cases hs : sg.status = 2
    · cases hl : m.lookup sg.ipport with
      | none =>
        have hnew : sg.ipport ∉ m := AList.lookup_eq_none.mp hl
        have hr := ih (m.insert sg.ipport sg) tmp
          fun hx => (AList.mem_insert _).mpr (.inr (hsub hx))
        simp only [diffLoop, if_neg (not_not_intro hs), hl]
        by_cases hk : k = sg.ipport
        · subst hk
          refine hr.assigned hs (fun hx => hnew (hsub hx)) (fun hx => absurd hx hnew) ?_ rfl rfl
          rw [entriesFor_cons_self]
          rfl
        · exact hr.elsewhere (up_cons_ne hk) (AList.lookup_insert_ne hk) Iff.rfl
            (entriesFor_cons_ne hk) rfl rfl rfl
      | some old =>
        have hold : sg.ipport ∈ m := AList.lookup_isSome.mp (by rw [hl]; rfl)
        have hgone : sg.ipport ∉ tmp.erase sg.ipport := by
          rw [AList.mem_erase]
          exact fun hx => hx.1 rfl
        have hstill : k ≠ sg.ipport → (k ∈ tmp.erase sg.ipport ↔ k ∈ tmp) := by
          intro hk
          rw [AList.mem_erase]
          exact and_iff_right hk
        have hsub' : k ∈ tmp.erase sg.ipport → k ∈ m := by
          intro hx
          exact hsub (AList.mem_erase.mp hx).2
        by_cases heq : old.eq sg
        · have hr := ih m (tmp.erase sg.ipport) hsub'
          simp only [diffLoop, if_neg (not_not_intro hs), hl, heq, Bool.not_true,
            Bool.false_eq_true, if_false]
          by_cases hk : k = sg.ipport
          · subst hk
            exact hr.here hs hgone hl (.inr heq) hr.known hr.last rfl rfl
          · exact hr.elsewhere (up_cons_ne hk) rfl (hstill hk) rfl rfl rfl rfl
        · have hr := ih (m.insert sg.ipport sg) (tmp.erase sg.ipport)
            fun hx => (AList.mem_insert _).mpr (.inr (hsub' hx))
          simp only [diffLoop, if_neg (not_not_intro hs), hl, heq, Bool.not_false, if_true]
          by_cases hk : k = sg.ipport
          · subst hk
            have hnone := hr.known ((AList.mem_insert _).mpr (.inl rfl))
            refine hr.assigned hs hgone (fun _ => hnone) ?_ rfl rfl
            rw [hnone, entriesFor_cons_self]
            rfl
          · exact hr.elsewhere (up_cons_ne hk) (AList.lookup_insert_ne hk) (hstill hk) rfl
              (entriesFor_cons_ne hk) rfl rfl
    · have hstep : diffLoop m tmp (sg :: rest) = diffLoop m tmp rest := by
        rw [diffLoop, if_pos hs]
      rw [hstep]
      exact (ih m tmp hsub).elsewhere (up_cons_down hs) rfl Iff.rfl rfl rfl rfl rfl

omit [Double D] in
theorem lookup_eraseAll (ks : List String) (m : AList fun _ : String => SGService D)
    (k : String) :
    (ks.foldl (fun m k => m.erase k) m).lookup k = if k ∈ ks then none else m.lookup k := by
  induction ks generalizing m with
  | nil => rfl
  | cons k' ks ih =>
    rw [List.foldl_cons, ih]
    by_cases hk : k = k'
    · subst hk
      rw [AList.lookup_erase, ite_self, if_pos List.mem_cons_self]
    · rw [AList.lookup_erase_ne hk]
      exact if_congr (by rw [List.mem_cons, or_iff_right hk]) rfl rfl

/-! ### A call -/

theorem foldl_upd_fst (l : List (SGService D)) (v : Option (SGService D × D)) :
    (l.foldl upd v).map Prod.fst = l.getLast?.or (v.map Prod.fst) := by
  induction l generalizing v with
  | nil => rfl
  | cons sg rest ih =>
    have hupd : (upd v sg).map Prod.fst = some sg := by
      cases v with
      | none => rfl
      | some v => rfl
    rw [List.foldl_cons, ih, hupd, List.getLast?_cons]
    cases rest.getLast? with
    | none => rfl
    | some x => rfl

theorem Applies.stored (h : w.Indexed) (happ : w.Applies l t) (k : String) :
    t.stored k = (entriesFor l k).getLast?.or (w.stored k) := by
  rw [happ.indexed.stored_eq, happ.view k, foldl_upd_fst, h.stored_eq]

theorem updateSvrList_spec (h : w.Indexed) (l : List (SGService D)) (depth : Nat) :
    ∃ t, updateSvrList (depth + 3) w l = some (.ok t) ∧ t.Indexed ∧
      t.map_ipport_sgservice = (changes w.map_ipport_sgservice l).sgservice ∧
      ∀ k, t.stored k = (entriesFor (changes w.map_ipport_sgservice l).add k ++
        entriesFor (changes w.map_ipport_sgservice l).chg k).getLast?.or (w.stored k) := by
  let u : SvrPool D := { w with
    map_ipport_sgservice := (changes w.map_ipport_sgservice l).sgservice }
  have hu : u.Indexed := ⟨h.entry, h.owner, h.apart, h.client_lt, h.client_apart⟩
  obtain ⟨v, hv, hadd⟩ := addSrv_spec hu (changes w.map_ipport_sgservice l).add (depth + 1)
  obtain ⟨t, ht, hchg⟩ := chgSrv_spec hadd.indexed (changes w.map_ipport_sgservice l).chg depth
  refine ⟨t, ?_, hchg.indexed, hchg.sgservice.trans hadd.sgservice, ?_⟩
  · have hv' : addSrv (depth + 3) { w with
        map_ipport_sgservice := (changes w.map_ipport_sgservice l).sgservice }
        (changes w.map_ipport_sgservice l).add = some (.ok v) := hv
    simp only [updateSvrList, hv', delSrv, ht]
  · intro k
    rw [hchg.stored hadd.indexed k, hadd.stored hu k, List.getLast?_append, Option.or_assoc]
    rfl

omit [Double D] in
theorem entries_eq_nil_iff : m.entries = [] ↔ ∀ k, m.lookup k = none := by
  constructor
  · intro he k
    rw [AList.lookup_eq_none, AList.mem_keys, AList.keys, he]
    exact List.not_mem_nil
  · intro hn
    apply List.eq_nil_iff_forall_not_mem.mpr
    intro e he
    exact AList.lookup_eq_none.mp (hn e.1) (AList.mem_keys.mpr (List.mem_map_of_mem he))

theorem changes_first (hm : m.entries = []) (l : List (SGService D)) (k : String) :
    (changes m l).sgservice.lookup k = (up l k).head? ∧
      entriesFor (changes m l).add k ++ entriesFor (changes m l).chg k = up l k := by
  have hnone : m.lookup k = none := entries_eq_nil_iff.mp hm k
  cases l with
  | nil =>
    simp only [changes, hm]
    exact ⟨hnone, rfl⟩
  | cons sg rest =>
    have hinit : changes m (sg :: rest) = initLoop m (sg :: rest) := by
      simp only [changes, hm]
      rfl
    obtain ⟨hchg, hspec⟩ := initLoop_spec (sg :: rest) m
    obtain ⟨hmap, hadd⟩ := hspec k
    rw [hinit, hmap, hadd, hchg, hnone, Option.none_or]
    exact ⟨rfl, List.append_nil _⟩

theorem changes_later (hm : m.entries ≠ []) (l : List (SGService D)) (k : String) :
    (changes m l).sgservice.lookup k =
      (if up l k = [] then none
        else (entriesFor (changes m l).add k ++
          entriesFor (changes m l).chg k).getLast?.or (m.lookup k)) ∧
      (up l k ≠ [] → ∃ s e, (changes m l).sgservice.lookup k = some s ∧ e ∈ up l k ∧
        (s = e ∨ s.eq e)) ∧
      (up l k = [] → (entriesFor (changes m l).add k ++
        entriesFor (changes m l).chg k).getLast?.or (m.lookup k) = m.lookup k) := by
  have hne : m.entries.isEmpty = false := by
    rw [List.isEmpty_eq_false_iff]
    exact hm
  cases l with
  | nil =>
    simp only [changes, hne]
    exact ⟨rfl, fun h => absurd rfl h, fun _ => rfl⟩
  | cons sg rest =>
    have hdiff : changes m (sg :: rest) =
        deleteRest (diffLoop m m (sg :: rest)).1 (diffLoop m m (sg :: rest)).2 := by
      simp only [changes, hne]
      rfl
    have hr := diffLoop_spec (sg :: rest) m m k id
    rw [hdiff]
    simp only [deleteRest]
    rw [lookup_eraseAll, ← hr.last]
    have hgone : k ∈ (diffLoop m m (sg :: rest)).2.keys ↔ k ∈ m ∧ up (sg :: rest) k = [] := by
      rw [← AList.mem_keys]
      exact hr.left
    by_cases hup : up (sg :: rest) k = []
    · refine ⟨?_, fun h => absurd hup h, fun _ => hr.kept hup⟩
      rw [if_pos hup]
      by_cases hk : k ∈ m
      · exact if_pos (hgone.mpr ⟨hk, hup⟩)
      · rw [if_neg (fun h => hk (hgone.mp h).1), hr.kept hup]
        exact AList.lookup_eq_none.mpr hk
    · rw [if_neg hup, if_neg fun h => hup (hgone.mp h).2]
      exact ⟨rfl, hr.entry, fun h => absurd h hup⟩

/-- `Reconciled`, said about what is found under an address. -/
theorem reconciled_iff : w.Reconciled l ↔
    ∀ k, w.stored k = w.map_ipport_sgservice.lookup k ∧
      ((w.map_ipport_sgservice.lookup k).isSome ↔ up l k ≠ []) ∧
      ∀ s, w.map_ipport_sgservice.lookup k = some s → ∃ e ∈ up l k, s = e ∨ s.eq e := by
  constructor
  · intro h k
    have hsg : (w.map_ipport_sgservice.lookup k).isSome ↔ up l k ≠ [] := by
      rw [AList.lookup_isSome, up_ne_nil]
      exact h.sgservice_keys k
    have hconn : (w.map_ipport_spconninfo.lookup k).isSome ↔ up l k ≠ [] := by
      rw [AList.lookup_isSome, up_ne_nil]
      exact h.conninfo_keys k
    cases hs : w.map_ipport_sgservice.lookup k with
    | none =>
      cases hi : w.map_ipport_spconninfo.lookup k with
      | none =>
        rw [hs] at hsg
        refine ⟨by rw [stored, hi]; rfl, hsg, fun s h => by cases h⟩
      | some info =>
        have hnone := hsg.mpr (hconn.mp (by rw [hi]; rfl))
        rw [hs] at hnone
        cases hnone
    | some s =>
      obtain ⟨info, hi⟩ := Option.isSome_iff_exists.mp (hconn.mpr (hsg.mp (by rw [hs]; rfl)))
      obtain ⟨he, e, hmem, hstatus, hkey, hsame⟩ := h.same k s info hs hi
      rw [hs] at hsg
      refine ⟨by rw [stored, hi, ← he]; rfl, hsg, ?_⟩
      intro s' hs'
      cases hs'
      exact ⟨e, mem_up.mpr ⟨hmem, hstatus, hkey⟩, hsame⟩
  · intro h
    constructor
    · intro k
      rw [← AList.lookup_isSome, (h k).2.1, up_ne_nil]
    · intro k
      have hconn : (w.map_ipport_spconninfo.lookup k).isSome = (w.stored k).isSome :=
        Option.isSome_map.symm
      rw [← AList.lookup_isSome, hconn, (h k).1, (h k).2.1, up_ne_nil]
    · intro k s info hs hi
      have hstored := (h k).1
      rw [stored, hi, hs] at hstored
      obtain ⟨e, he, hsame⟩ := (h k).2.2 s hs
      obtain ⟨hmem, hstatus, hkey⟩ := mem_up.mp he
      exact ⟨Option.some.inj hstored, e, hmem, hstatus, hkey, hsame⟩

/-- After a reconciled list, exactly the lists that follow it are reconciled. -/
theorem reconciled_step {before : List (SGService D)} (h : w.Reconciled before)
    (hsg : t.map_ipport_sgservice = (changes w.map_ipport_sgservice l).sgservice)
    (hstored : ∀ k, t.stored k = (entriesFor (changes w.map_ipport_sgservice l).add k ++
      entriesFor (changes w.map_ipport_sgservice l).chg k).getLast?.or (w.stored k)) :
    t.Reconciled l ↔ Follows before l := by
  rw [reconciled_iff] at h
  have hempty : w.map_ipport_sgservice.entries = [] ↔ ∀ k, up before k = [] := by
    rw [entries_eq_nil_iff]
    refine forall_congr' fun k => ?_
    rw [← Option.not_isSome_iff_eq_none, (h k).2.1, not_not]
  have habsent : ∀ k, up before k = [] → w.map_ipport_sgservice.lookup k = none := by
    intro k hk
    rw [← Option.not_isSome_iff_eq_none, (h k).2.1, not_not]
    exact hk
  constructor
  · intro ht
    rw [reconciled_iff] at ht
    refine ⟨?_, ?_⟩
    · intro k hk
      -- an address that was stored stays stored
      rw [← (ht k).2.1, ← (ht k).1, hstored k, (h k).1]
      have hold := (h k).2.1.mpr hk
      rw [Option.isSome_or, hold, Bool.or_true]
    · intro hnone k
      obtain ⟨hmap, hchanged⟩ := changes_first (hempty.mpr hnone) l k
      have hw : w.stored k = none := (h k).1.trans (habsent k (hnone k))
      have hboth := (ht k).1
      rw [hstored k, hchanged, hw, Option.or_none, hsg, hmap] at hboth
      exact hboth.symm
  · rintro ⟨hkept, hfirst⟩
    rw [reconciled_iff]
    intro k
    rw [hstored k, hsg, (h k).1]
    by_cases hm : w.map_ipport_sgservice.entries = []
    · obtain ⟨hmap, hchanged⟩ := changes_first hm l k
      have hnone := hempty.mp hm
      rw [hchanged, hmap, habsent k (hnone k), Option.or_none]
      refine ⟨(hfirst hnone k).symm, ?_, ?_⟩
      · exact List.isSome_head?
      · intro s hs
        exact ⟨s, List.mem_of_mem_head? hs, .inl rfl⟩
    · obtain ⟨hmap, hentry, hrest⟩ := changes_later hm l k
      by_cases hup : up l k = []
      · rw [hrest hup, hmap, if_pos hup]
        have hw : w.map_ipport_sgservice.lookup k = none := by
          apply habsent
          by_contra hne
          exact hkept k hne hup
        exact ⟨hw, iff_of_false Bool.false_ne_true (fun hne => hne hup), fun s hs => by cases hs⟩
      · obtain ⟨s, e, hs, he, hsame⟩ := hentry hup
        rw [hs]
        rw [if_neg hup] at hmap
        refine ⟨hmap.symm.trans hs, iff_of_true rfl hup, ?_⟩
        intro s' hs'
        cases hs'
        exact ⟨e, he, hsame⟩

/-! ### Any number of calls -/

def listMachine (D : Type) [Double D] :
    Machine (SvrPool D × List (SGService D)) (List (SGService D)) PoolFault where
  init := (new, [])
  step s l := (updateSvrList 3 s.1 l).map fun x => x.map fun t => (t, l)

theorem reconciled_new : (new : SvrPool D).Reconciled [] where
  sgservice_keys := fun k => iff_of_false (fun h => by cases h) (fun ⟨e, he, _⟩ => by cases he)
  conninfo_keys := fun k => iff_of_false (fun h => by cases h) (fun ⟨e, he, _⟩ => by cases he)
  same := fun k s info h => by cases h

theorem listMachine_step (h : w.Indexed) (before l : List (SGService D)) :
    ∃ t, (listMachine D).step (w, before) l = some (.ok (t, l)) ∧ t.Indexed ∧
      (w.Reconciled before → (t.Reconciled l ↔ Follows before l)) := by
  obtain ⟨t, ht, hi, hsg, hstored⟩ := updateSvrList_spec h l 0
  refine ⟨t, ?_, hi, fun hw => reconciled_step hw hsg hstored⟩
  simp only [listMachine, ht]
  rfl

theorem reconciles_from (calls : List (List (SGService D))) (before : List (SGService D))
    (hi : w.Indexed) (hw : w.Reconciled before) :
    (∀ pre, pre <+: calls → ∃ t, (listMachine D).run (w, before) pre = some (.ok t) ∧
      t.1.Reconciled t.2) ↔ List.IsChain Follows (before :: calls) := by
  induction calls generalizing w before with
  | nil =>
    apply iff_of_true
    · intro pre hpre
      rw [List.prefix_nil.mp hpre]
      exact ⟨(w, before), rfl, hw⟩
    · exact List.IsChain.singleton before
  | cons l calls ih =>
    obtain ⟨t, ht, hti, hiff⟩ := listMachine_step hi before l
    have hcons : ∀ pre, (listMachine D).run (w, before) (l :: pre) =
        (listMachine D).run (t, l) pre := by
      intro pre
      simp only [Machine.run, ht]
    rw [List.isChain_cons_cons]
    constructor
    · intro hall
      obtain ⟨u, hu, hr⟩ := hall [l] (List.prefix_append [l] calls)
      rw [hcons] at hu
      cases hu
      refine ⟨(hiff hw).mp hr, (ih l hti hr).mp ?_⟩
      intro pre hpre
      rw [← hcons]
      exact hall (l :: pre) ((List.prefix_cons_inj l).mpr hpre)
    · rintro ⟨hfollows, hchain⟩ pre hpre
      cases pre with
      | nil => exact ⟨(w, before), rfl, hw⟩
      | cons l' pre =>
        obtain ⟨rfl, hpre'⟩ := List.cons_prefix_cons.mp hpre
        rw [hcons]
        exact (ih l' hti ((hiff hw).mpr hfollows)).mpr hchain pre hpre'

/-- The maps agree with each other and with the last list after every call, if and only if each
list follows the one before it, the first one the empty list. -/
theorem updateSvrList_reconciles_iff (calls : List (List (SGService D))) :
    (∀ pre, pre <+: calls → ∃ t, (listMachine D).run (listMachine D).init pre = some (.ok t) ∧
      t.1.Reconciled t.2) ↔ List.IsChain Follows ([] :: calls) :=
  reconciles_from calls [] indexed_new reconciled_new

/-- A server that the second list does not have keeps its `ConnInfo`. -/
theorem updateSvrList_keeps_removed :
    ∃ t, (listMachine Rat).run (listMachine Rat).init
        [[sampleService "10.0.0.1" 9000, sampleService "10.0.0.2" 9000],
          [sampleService "10.0.0.2" 9000]] = some (.ok t) ∧ ¬ t.1.Reconciled t.2 := by
  have hrun : (listMachine Rat).runsTo (listMachine Rat).init
      [[sampleService "10.0.0.1" 9000, sampleService "10.0.0.2" 9000],
        [sampleService "10.0.0.2" 9000]]
      (fun t => decide ("10.0.0.1:9000" ∈ t.1.map_ipport_spconninfo ∧
        t.2.map SGService.ipport = ["10.0.0.2:9000"])) = true := by
    decide +kernel
  obtain ⟨t, ht, hend⟩ := Machine.exists_of_runsTo hrun
  obtain ⟨hkept, hlist⟩ := of_decide_eq_true hend
  refine ⟨t, ht, ?_⟩
  intro hr
  obtain ⟨e, he, -, hkey⟩ := (hr.conninfo_keys _).mp hkept
  have hmem : "10.0.0.1:9000" ∈ t.2.map SGService.ipport := by
    rw [← hkey]
    exact List.mem_map_of_mem he
  rw [hlist] at hmem
  exact absurd hmem (by decide)

end SvrPool

end TstMuduo.Cthrift
