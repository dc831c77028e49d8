import TstMuduo.Lib.Multimap
import TstMuduo.Cthrift.ClientFrames

/-!
# The servers of a client worker (cthrift/cthrift_client_worker.cc)

The worker keeps a `ConnInfo` for every server, and an index of their clients by weight. Each
`ConnInfo` has the iterator of its own entry in that index.

`AddSrv` and `ChgSrv` call each other. What they do to one server is the same: the first entry
for an unknown address makes a `ConnInfo`, and every other one updates it.
-/

namespace TstMuduo.Cthrift
open TstMuduo.Lib TstMuduo.Net

/-- What the code uses of `double`. Nothing is assumed about it: `eq` need not be equality, and
rounding is whatever it is. -/
class Double (D : Type) where
  ofInt : Int → D
  epsilon : D
  kDSecondRegionMin : D
  add : D → D → D
  sub : D → D → D
  mul : D → D → D
  fmod : D → D → D
  fabs : D → D
  lt : D → D → Bool
  eq : D → D → Bool

variable {D : Type} [Double D]

/- `CheckDoubleEqual` (`cthrift_common.cc:43`). -/
def checkDoubleEqual (d1 d2 : D) : Bool :=
  Double.lt (Double.fabs (Double.sub d1 d2)) Double.epsilon

/- `FetchOctoWeight` (`cthrift_name_service.cc:247`). -/
def fetchOctoWeight (fweight weight : D) : D :=
  if !checkDoubleEqual fweight weight && !checkDoubleEqual fweight (Double.ofInt 0) then fweight
  else weight

/- `SGService` (`naming_common_types.h:113`); `serviceInfo` has the `unifiedProto` of each
service, by name. -/
structure SGService (D : Type) where
  appkey : String
  version : String
  ip : String
  port : BitVec 32
  weight : BitVec 32
  status : BitVec 32
  role : BitVec 32
  envir : BitVec 32
  lastUpdateTime : BitVec 32
  fweight : D
  serverType : BitVec 32
  protocol : String
  serviceInfo : List (String × Bool)
  heartbeatSupport : BitVec 8
  warmup : BitVec 32
  deriving DecidableEq, Repr

namespace SGService

/- `operator==` (`naming_common_types.h:202`). -/
def eq (a b : SGService D) : Bool :=
  a.appkey = b.appkey && a.version = b.version && a.ip = b.ip && a.port = b.port &&
    a.weight = b.weight && a.status = b.status && a.role = b.role && a.envir = b.envir &&
    a.lastUpdateTime = b.lastUpdateTime && Double.eq a.fweight b.fweight &&
    a.serverType = b.serverType && a.protocol = b.protocol && a.serviceInfo = b.serviceInfo &&
    a.heartbeatSupport = b.heartbeatSupport && a.warmup = b.warmup

def ipport (s : SGService D) : String := s.ip ++ ":" ++ lexicalCast s.port.toInt

def octoWeight (s : SGService D) : D :=
  fetchOctoWeight s.fweight (Double.ofInt s.weight.toInt)

end SGService

/- The erased iterator does not refer to an entry. -/
inductive PoolFault where
  | invalidIterator
  deriving DecidableEq, Repr

/- `*p_multimap_weight_wptcpcli_`. A weak pointer is the number of its client. -/
abbrev WeightMap (D : Type) := Multimap D (Option Nat)

/- `WeightSort` (`cthrift_client_worker.h:16`). -/
def weightSort (a b : D) : Bool := Double.lt b a

/- `p_map_weight_tcpclientwp_->erase(it)`; a new `ConnInfo` has no iterator yet. -/
def eraseIndex (m : WeightMap D) : Option Nat → Except PoolFault (WeightMap D)
  | none => .error .invalidIterator
  | some it =>
    match m.erase it with
    | none => .error .invalidIterator
    | some t => .ok t

structure ConnInfo (D : Type) where
  sgservice : SGService D
  sp_tcpclient : Option Nat
  it_index : Option Nat
  deriving DecidableEq, Repr

namespace ConnInfo

def new (sgservice : SGService D) : ConnInfo D := ⟨sgservice, none, none⟩

/- `UptSgservice` (`cthrift_client_worker.cc:13`). -/
def uptSgservice (info : ConnInfo D) (m : WeightMap D) (sgservice : SGService D) :
    Except PoolFault (ConnInfo D × WeightMap D) :=
  if checkDoubleEqual info.sgservice.octoWeight sgservice.octoWeight then
    .ok ({ info with sgservice := sgservice }, m)
  else do
    let t ← eraseIndex m info.it_index
    return ({ info with sgservice := sgservice, it_index := some t.fresh },
      t.insert weightSort sgservice.octoWeight info.sp_tcpclient)

/- `setSp_tcpclient_` (`cthrift_client_worker.cc:36`). -/
def setSp_tcpclient (info : ConnInfo D) (m : WeightMap D) (sp_tcpclient : Nat) :
    Except PoolFault (ConnInfo D × WeightMap D) := do
  let t ← if info.sp_tcpclient.isSome then eraseIndex m info.it_index else .ok m
  return ({ info with sp_tcpclient := some sp_tcpclient, it_index := some t.fresh },
    t.insert weightSort info.sgservice.octoWeight (some sp_tcpclient))

end ConnInfo

/- What `connection()` of a client gives. -/
structure TcpConn where
  peerIp : String
  peerPort : BitVec 16
  connected : Bool
  context : Context
  deriving DecidableEq, Repr

def TcpConn.ipport (c : TcpConn) : String := c.peerIp ++ ":" ++ lexicalCast c.peerPort.toNat

/-- The servers of a worker. The clients are numbered as they are made. -/
structure SvrPool (D : Type) where
  map_ipport_sgservice : AList fun _ : String => SGService D
  map_ipport_spconninfo : AList fun _ : String => ConnInfo D
  weights : WeightMap D
  clients : Nat
  connection : Nat → Option TcpConn

namespace SvrPool

def new : SvrPool D where
  map_ipport_sgservice := ∅
  map_ipport_spconninfo := ∅
  weights := .empty
  clients := 0
  connection := fun _ => none

/- The part of the loop of `AddSrv` for an address without a `ConnInfo`. -/
def connect (w : SvrPool D) (sg : SGService D) : Except PoolFault (SvrPool D) := do
  let (info, weights) ← (ConnInfo.new sg).setSp_tcpclient w.weights w.clients
  return { w with
    map_ipport_spconninfo := w.map_ipport_spconninfo.insert sg.ipport info
    weights := weights
    clients := w.clients + 1
    connection := fun c => if c = w.clients then none else w.connection c }

/- The loop of `AddSrv`, with `vec_chg_sgservice`. -/
def addLoop : SvrPool D → List (SGService D) → Except PoolFault (SvrPool D × List (SGService D))
  | w, [] => .ok (w, [])
  | w, sg :: rest =>
    match w.map_ipport_spconninfo.lookup sg.ipport with
    | some _ => do
      let (t, chg) ← addLoop w rest
      return (t, sg :: chg)
    | none => do
      let t ← w.connect sg
      addLoop t rest

/- The part of the loop of `ChgSrv` for an address with a `ConnInfo`. -/
def change (w : SvrPool D) (info : ConnInfo D) (sg : SGService D) :
    Except PoolFault (SvrPool D) := do
  let (info, weights) ← info.uptSgservice w.weights sg
  return { w with
    map_ipport_spconninfo := w.map_ipport_spconninfo.insert sg.ipport info
    weights := weights }

/- The loop of `ChgSrv`, with `vec_add_sgservice`. -/
def chgLoop : SvrPool D → List (SGService D) → Except PoolFault (SvrPool D × List (SGService D))
  | w, [] => .ok (w, [])
  | w, sg :: rest =>
    match w.map_ipport_spconninfo.lookup sg.ipport with
    | none => do
      let (t, add) ← chgLoop w rest
      return (t, sg :: add)
    | some info => do
      let t ← w.change info sg
      chgLoop t rest

/- `AddSrv` (`cthrift_client_worker.cc:527`) and `ChgSrv` (`cthrift_client_worker.cc:620`), to a
given depth of the calls; `none` if that is not enough. -/
mutual

def addSrv : Nat → SvrPool D → List (SGService D) → Option (Except PoolFault (SvrPool D))
  | 0, _, _ => none
  | depth + 1, w, vec_add_sgservice =>
    match addLoop w vec_add_sgservice with
    | .error e => some (.error e)
    | .ok (t, chg) => if chg.isEmpty then some (.ok t) else chgSrv depth t chg

def chgSrv : Nat → SvrPool D → List (SGService D) → Option (Except PoolFault (SvrPool D))
  | 0, _, _ => none
  | depth + 1, w, vec_chg_sgservice =>
    match chgLoop w vec_chg_sgservice with
    | .error e => some (.error e)
    | .ok (t, add) => if add.isEmpty then some (.ok t) else addSrv depth t add

end

/- `DelSrv` (`cthrift_client_worker.cc:592`): its body is commented out. -/
def delSrv (w : SvrPool D) (_vec_del_sgservice : List (SGService D)) : SvrPool D := w

/-! ### The index -/

/-- No two addresses have the same `f`. -/
def Apart {γ : Type} (m : AList fun _ : String => ConnInfo D) (f : ConnInfo D → γ) : Prop :=
  ∀ k k' info info', m.lookup k = some info → m.lookup k' = some info' → f info = f info' →
    k = k'

/-- Every `ConnInfo` has an entry of its own, with its own client, and there are no other
entries. -/
structure Indexed (w : SvrPool D) : Prop where
  entry : ∀ {k info}, w.map_ipport_spconninfo.lookup k = some info →
    ∃ it c weight, info.it_index = some it ∧ info.sp_tcpclient = some c ∧
      w.weights.get it = some (weight, some c)
  owner : ∀ {it e}, w.weights.get it = some e →
    ∃ k info, w.map_ipport_spconninfo.lookup k = some info ∧ info.it_index = some it
  apart : Apart w.map_ipport_spconninfo ConnInfo.it_index
  client_lt : ∀ {k info c}, w.map_ipport_spconninfo.lookup k = some info →
    info.sp_tcpclient = some c → c < w.clients
  client_apart : Apart w.map_ipport_spconninfo ConnInfo.sp_tcpclient

def view (w : SvrPool D) (k : String) : Option (SGService D × D) := do
  let info ← w.map_ipport_spconninfo.lookup k
  let it ← info.it_index
  let e ← w.weights.get it
  return (info.sgservice, e.1)

/-- The entry of the list that the `ConnInfo` of an address has. -/
def stored (w : SvrPool D) (k : String) : Option (SGService D) :=
  (w.map_ipport_spconninfo.lookup k).map ConnInfo.sgservice

def upd : Option (SGService D × D) → SGService D → Option (SGService D × D)
  | none, sg => some (sg, sg.octoWeight)
  | some (old, weight), sg =>
    some (sg, if checkDoubleEqual old.octoWeight sg.octoWeight then weight else sg.octoWeight)

variable {w t : SvrPool D} {k : String} {info : ConnInfo D} {it c : Nat} {weight : D}
  {sg : SGService D} {l rest : List (SGService D)}

omit [Double D] in
theorem Apart.insert {γ : Type} {m : AList fun _ : String => ConnInfo D} {f : ConnInfo D → γ}
    (h : Apart m f) (hnew : ∀ k' old, m.lookup k' = some old → f old = f info → k' = k) :
    Apart (m.insert k info) f := by
  have hlookup : ∀ {k' old}, (m.insert k info).lookup k' = some old →
      k' = k ∧ old = info ∨ m.lookup k' = some old := by
    intro k' old hl
    by_cases hk : k' = k
    · subst hk
      rw [AList.lookup_insert] at hl
      cases hl
      exact .inl ⟨rfl, rfl⟩
    · rw [AList.lookup_insert_ne hk] at hl
      exact .inr hl
  intro k₁ k₂ info₁ info₂ h₁ h₂ he
  rcases hlookup h₁ with ⟨rfl, rfl⟩ | hold₁
  · rcases hlookup h₂ with ⟨rfl, -⟩ | hold₂
    · rfl
    · exact (hnew k₂ info₂ hold₂ he.symm).symm
  · rcases hlookup h₂ with ⟨rfl, rfl⟩ | hold₂
    · exact hnew k₁ info₁ hold₁ he
    · exact h k₁ k₂ info₁ info₂ hold₁ hold₂ he

omit [Double D] in
theorem view_eq_some (h : w.map_ipport_spconninfo.lookup k = some info)
    (hit : info.it_index = some it) (hget : w.weights.get it = some (weight, some c)) :
    w.view k = some (info.sgservice, weight) := by
  rw [view, h, Option.bind_eq_bind, Option.bind_some, hit, Option.bind_eq_bind, Option.bind_some,
    hget]
  rfl

omit [Double D] in
theorem view_eq_none (h : w.map_ipport_spconninfo.lookup k = none) : w.view k = none := by
  rw [view, h]
  rfl

omit [Double D] in
theorem Indexed.view_none_iff (h : w.Indexed) :
    w.view k = none ↔ w.map_ipport_spconninfo.lookup k = none := by
  constructor
  · intro hv
    cases hl : w.map_ipport_spconninfo.lookup k with
    | none => rfl
    | some info =>
      obtain ⟨it, c, weight, hit, -, hget⟩ := h.entry hl
      rw [view_eq_some hl hit hget] at hv
      cases hv
  · exact view_eq_none

omit [Double D] in
theorem Indexed.stored_eq (h : w.Indexed) (k : String) : w.stored k = (w.view k).map Prod.fst := by
  cases hl : w.map_ipport_spconninfo.lookup k with
  | none =>
    rw [stored, hl, view_eq_none hl]
    rfl
  | some info =>
    obtain ⟨it, c, weight, hit, -, hget⟩ := h.entry hl
    rw [stored, hl, view_eq_some hl hit hget]
    rfl

omit [Double D] in
theorem indexed_new : (new : SvrPool D).Indexed where
  entry := fun h => by cases h
  owner := fun h => by cases h
  apart := fun _ _ _ _ h => by cases h
  client_lt := fun h => by cases h
  client_apart := fun _ _ _ _ h => by cases h

/-- A new entry for the address `k` in an index from which its old one has been erased. -/
theorem Indexed.reindex (h : w.Indexed) (t : SvrPool D) {m : WeightMap D}
    (hm : ∀ it e, m.get it = some e ↔ w.weights.get it = some e ∧
      ∀ old, w.map_ipport_spconninfo.lookup k = some old → old.it_index ≠ some it)
    (hc : c < t.clients) (hclients : w.clients ≤ t.clients)
    (hown : ∀ k' old, w.map_ipport_spconninfo.lookup k' = some old →
      old.sp_tcpclient = some c → k' = k)
    (hmap : t.map_ipport_spconninfo =
      w.map_ipport_spconninfo.insert k ⟨sg, some c, some m.fresh⟩)
    (hweights : t.weights = m.insert weightSort weight (some c)) :
    t.Indexed ∧ t.view k = some (sg, weight) ∧ ∀ k', k' ≠ k → t.view k' = w.view k' := by
  have hget : ∀ it, t.weights.get it =
      if it = m.fresh then some (weight, some c) else m.get it := by
    intro it
    rw [hweights, Multimap.get_insert]
  have hself : t.map_ipport_spconninfo.lookup k = some ⟨sg, some c, some m.fresh⟩ := by
    rw [hmap, AList.lookup_insert]
  have hlookup : ∀ {k'}, k' ≠ k →
      t.map_ipport_spconninfo.lookup k' = w.map_ipport_spconninfo.lookup k' := by
    intro k' hk
    rw [hmap, AList.lookup_insert_ne hk]
  -- the entries of the other addresses are still there
  have hother : ∀ {k' info}, k' ≠ k → w.map_ipport_spconninfo.lookup k' = some info →
      ∃ it c weight, info.it_index = some it ∧ info.sp_tcpclient = some c ∧ it < m.fresh ∧
        w.weights.get it = some (weight, some c) ∧ t.weights.get it = some (weight, some c) := by
    intro k' info hk hl
    obtain ⟨it, c, weight, hit, hcl, hg⟩ := h.entry hl
    have hg' : m.get it = some (weight, some c) := by
      rw [hm]
      refine ⟨hg, fun old hold he => hk (h.apart _ _ _ _ hl hold (hit.trans he.symm))⟩
    have hlt := Multimap.lt_fresh_of_get hg'
    refine ⟨it, c, weight, hit, hcl, hlt, hg, ?_⟩
    rw [hget, if_neg (Nat.ne_of_lt hlt), hg']
  refine ⟨?_, ?_, ?_⟩
  · constructor
    · intro k' info hl
      by_cases hk : k' = k
      · subst hk
        cases hself.symm.trans hl
        exact ⟨m.fresh, c, weight, rfl, rfl, by rw [hget, if_pos rfl]⟩
      · obtain ⟨it, c, weight, hit, hcl, -, -, hg⟩ := hother hk (hlookup hk ▸ hl)
        exact ⟨it, c, weight, hit, hcl, hg⟩
    · intro it e he
      rw [hget] at he
      split at he
      next hit => exact ⟨k, _, hself, by rw [hit]⟩
      next hit =>
        obtain ⟨hold, hne⟩ := (hm it e).mp he
        obtain ⟨k', info, hl, hi⟩ := h.owner hold
        have hk : k' ≠ k := by
          rintro rfl
          exact hne info hl hi
        exact ⟨k', info, by rw [hlookup hk]; exact hl, hi⟩
    · rw [hmap]
      apply h.apart.insert
      intro k' old hold he
      by_contra hk
      obtain ⟨it, -, -, hit, -, hlt, -⟩ := hother hk hold
      rw [hit] at he
      cases he
      exact Nat.lt_irrefl _ hlt
    · intro k' info c' hl hcl
      by_cases hk : k' = k
      · subst hk
        cases hself.symm.trans hl
        cases hcl
        exact hc
      · exact Nat.lt_of_lt_of_le (h.client_lt (hlookup hk ▸ hl) hcl) hclients
    · rw [hmap]
      exact h.client_apart.insert hown
  · exact view_eq_some hself rfl (by rw [hget, if_pos rfl])
  · intro k' hk
    cases hl : w.map_ipport_spconninfo.lookup k' with
    | none => rw [view_eq_none hl, view_eq_none (hlookup hk ▸ hl)]
    | some info =>
      obtain ⟨it, c, weight, hit, -, -, hg, hg'⟩ := hother hk hl
      rw [view_eq_some hl hit hg, view_eq_some (hlookup hk ▸ hl) hit hg']

omit [Double D] in
/-- Another entry of the list for an address that keeps its place in the index. -/
theorem Indexed.restate (h : w.Indexed) (t : SvrPool D)
    (hl : w.map_ipport_spconninfo.lookup k = some info)
    (hclients : t.clients = w.clients) (hweights : t.weights = w.weights)
    (hmap : t.map_ipport_spconninfo =
      w.map_ipport_spconninfo.insert k { info with sgservice := sg }) :
    t.Indexed ∧ t.view k = (w.view k).map (fun v => (sg, v.2)) ∧
      ∀ k', k' ≠ k → t.view k' = w.view k' := by
  have hself : t.map_ipport_spconninfo.lookup k = some { info with sgservice := sg } := by
    rw [hmap, AList.lookup_insert]
  have hlookup : ∀ {k'}, k' ≠ k →
      t.map_ipport_spconninfo.lookup k' = w.map_ipport_spconninfo.lookup k' := by
    intro k' hk
    rw [hmap, AList.lookup_insert_ne hk]
  -- whatever is found now has the iterator and the client that it had
  have hback : ∀ {k' info'}, t.map_ipport_spconninfo.lookup k' = some info' →
      ∃ old, w.map_ipport_spconninfo.lookup k' = some old ∧ old.it_index = info'.it_index ∧
        old.sp_tcpclient = info'.sp_tcpclient := by
    intro k' info' hl'
    by_cases hk : k' = k
    · subst hk
      cases hself.symm.trans hl'
      exact ⟨info, hl, rfl, rfl⟩
    · exact ⟨info', hlookup hk ▸ hl', rfl, rfl⟩
  obtain ⟨it, c, weight, hit, hc, hget⟩ := h.entry hl
  refine ⟨?_, ?_, ?_⟩
  · constructor
    · intro k' info' hl'
      obtain ⟨old, hold, hi, hcl⟩ := hback hl'
      rw [← hi, ← hcl, hweights]
      exact h.entry hold
    · intro it e he
      rw [hweights] at he
      obtain ⟨k', info', hl', hi⟩ := h.owner he
      by_cases hk : k' = k
      · subst hk
        cases hl.symm.trans hl'
        exact ⟨k', _, hself, hi⟩
      · exact ⟨k', info', by rw [hlookup hk]; exact hl', hi⟩
    · rw [hmap]
      exact h.apart.insert fun k' old hold he => h.apart _ _ _ _ hold hl he
    · intro k' info' c hl' hcl
      obtain ⟨old, hold, -, hc⟩ := hback hl'
      rw [hclients]
      exact h.client_lt hold (hc.trans hcl)
    · rw [hmap]
      exact h.client_apart.insert fun k' old hold he => h.client_apart _ _ _ _ hold hl he
  · rw [view_eq_some hl hit hget, view_eq_some hself hit (by rw [hweights, hget])]
    rfl
  · intro k' hk
    rw [view, view, hlookup hk, hweights]

/-! ### One entry of a list -/

/-- A step that stores `sg` for its address and leaves the other addresses alone. -/
structure Stores (w : SvrPool D) (sg : SGService D) (t : SvrPool D) : Prop where
  indexed : t.Indexed
  sgservice : t.map_ipport_sgservice = w.map_ipport_sgservice
  here : t.view sg.ipport = upd (w.view sg.ipport) sg
  elsewhere : ∀ k, k ≠ sg.ipport → t.view k = w.view k

theorem connect_spec (h : w.Indexed) (hl : w.map_ipport_spconninfo.lookup sg.ipport = none) :
    ∃ t, w.connect sg = .ok t ∧ w.Stores sg t := by
  obtain ⟨t, ht, hsg, hclients, hmap, hweights⟩ : ∃ t, w.connect sg = .ok t ∧
      t.map_ipport_sgservice = w.map_ipport_sgservice ∧ t.clients = w.clients + 1 ∧
      t.map_ipport_spconninfo = w.map_ipport_spconninfo.insert sg.ipport
        ⟨sg, some w.clients, some w.weights.fresh⟩ ∧
      t.weights = w.weights.insert weightSort sg.octoWeight (some w.clients) :=
    ⟨_, rfl, rfl, rfl, rfl, rfl⟩
  have hm : ∀ it e, w.weights.get it = some e ↔ w.weights.get it = some e ∧
      ∀ old, w.map_ipport_spconninfo.lookup sg.ipport = some old → old.it_index ≠ some it := by
    intro it e
    rw [hl]
    exact (and_iff_left fun old hold => by cases hold).symm
  have hown : ∀ k' old, w.map_ipport_spconninfo.lookup k' = some old →
      old.sp_tcpclient = some w.clients → k' = sg.ipport := by
    intro k' old hold hc
    exact absurd (h.client_lt hold hc) (Nat.lt_irrefl _)
  obtain ⟨hindexed, hhere, helse⟩ :=
    h.reindex t hm (by omega) (by omega) hown hmap hweights
  refine ⟨t, ht, hindexed, hsg, ?_, helse⟩
  rw [view_eq_none hl]
  exact hhere

theorem change_spec (h : w.Indexed) (hl : w.map_ipport_spconninfo.lookup sg.ipport = some info) :
    ∃ t, w.change info sg = .ok t ∧ w.Stores sg t := by
  obtain ⟨it, c, weight, hit, hc, hget⟩ := h.entry hl
  have hview := view_eq_some hl hit hget
  by_cases hclose : checkDoubleEqual info.sgservice.octoWeight sg.octoWeight
  · obtain ⟨t, ht, hsg, hclients, hweights, hmap⟩ : ∃ t, w.change info sg = .ok t ∧
        t.map_ipport_sgservice = w.map_ipport_sgservice ∧ t.clients = w.clients ∧
        t.weights = w.weights ∧
        t.map_ipport_spconninfo = w.map_ipport_spconninfo.insert sg.ipport
          { info with sgservice := sg } := by
      simp only [change, ConnInfo.uptSgservice, if_pos hclose]
      exact ⟨_, rfl, rfl, rfl, rfl, rfl⟩
    obtain ⟨hindexed, hhere, helse⟩ := h.restate t hl hclients hweights hmap
    refine ⟨t, ht, hindexed, hsg, ?_, helse⟩
    rw [hhere, hview, upd, if_pos hclose]
    rfl
  · obtain ⟨m, hm⟩ := Multimap.erase_of_get hget
    obtain ⟨t, ht, hsg, hclients, hmap, hweights⟩ : ∃ t, w.change info sg = .ok t ∧
        t.map_ipport_sgservice = w.map_ipport_sgservice ∧ t.clients = w.clients ∧
        t.map_ipport_spconninfo = w.map_ipport_spconninfo.insert sg.ipport
          ⟨sg, some c, some m.fresh⟩ ∧
        t.weights = m.insert weightSort sg.octoWeight (some c) := by
      simp only [change, ConnInfo.uptSgservice, if_neg hclose, hit, eraseIndex, hm, hc]
      exact ⟨_, rfl, rfl, rfl, rfl, rfl⟩
    have hkept : ∀ jt e, m.get jt = some e ↔ w.weights.get jt = some e ∧
        ∀ old, w.map_ipport_spconninfo.lookup sg.ipport = some old →
          old.it_index ≠ some jt := by
      intro jt e
      rw [Multimap.get_erase hm, hl]
      by_cases hj : jt = it
      · rw [if_pos hj]
        apply iff_of_false
        · intro he
          cases he
        · rintro ⟨-, hne⟩
          exact hne info rfl (by rw [hit, hj])
      · rw [if_neg hj]
        refine (and_iff_left ?_).symm
        intro old hold he
        cases hold
        exact hj (Option.some.inj (he.symm.trans hit))
    have hown : ∀ k' old, w.map_ipport_spconninfo.lookup k' = some old →
        old.sp_tcpclient = some c → k' = sg.ipport := by
      intro k' old hold hcl
      exact h.client_apart _ _ _ _ hold hl (hcl.trans hc.symm)
    have hlt := h.client_lt hl hc
    obtain ⟨hindexed, hhere, helse⟩ :=
      h.reindex t hkept (by omega) (by omega) hown hmap hweights
    refine ⟨t, ht, hindexed, hsg, ?_, helse⟩
    rw [hview, upd, if_neg hclose]
    exact hhere

/-! ### A list of entries -/

def entriesFor (l : List (SGService D)) (k : String) : List (SGService D) :=
  l.filter fun sg => sg.ipport = k

omit [Double D] in
theorem entriesFor_cons_self : entriesFor (sg :: l) sg.ipport = sg :: entriesFor l sg.ipport :=
  List.filter_cons_of_pos (decide_eq_true rfl)

omit [Double D] in
theorem entriesFor_cons_ne (h : k ≠ sg.ipport) : entriesFor (sg :: l) k = entriesFor l k :=
  List.filter_cons_of_neg (by rw [decide_eq_true_iff]; exact fun he => h he.symm)

omit [Double D] in
theorem mem_entriesFor : sg ∈ entriesFor l k ↔ sg ∈ l ∧ sg.ipport = k := by
  rw [entriesFor, List.mem_filter, decide_eq_true_iff]

/-- All entries of a list have been stored, those for one address in their order. -/
structure Applies (w : SvrPool D) (l : List (SGService D)) (t : SvrPool D) : Prop where
  indexed : t.Indexed
  sgservice : t.map_ipport_sgservice = w.map_ipport_sgservice
  view : ∀ k, t.view k = (entriesFor l k).foldl upd (w.view k)

/-- The loop of `AddSrv` stores the first entry for each unknown address, and leaves the rest. -/
theorem addLoop_spec (l : List (SGService D)) (h : w.Indexed) :
    ∃ t chg, addLoop w l = .ok (t, chg) ∧ t.Indexed ∧
      t.map_ipport_sgservice = w.map_ipport_sgservice ∧
      (∀ sg ∈ chg, t.view sg.ipport ≠ none) ∧
      (∀ k, w.view k ≠ none → t.view k = w.view k ∧ entriesFor chg k = entriesFor l k) ∧
      ∀ k, (entriesFor chg k).foldl upd (t.view k) = (entriesFor l k).foldl upd (w.view k) := by
  induction l generalizing w with
  | nil =>
    refine ⟨w, [], rfl, h, rfl, ?_, fun k _ => ⟨rfl, rfl⟩, fun k => rfl⟩
    intro sg hsg
    cases hsg
  | cons sg rest ih =>
    cases hl : w.map_ipport_spconninfo.lookup sg.ipport with
    | some info =>
      obtain ⟨t, chg, ht, hi, hsg, hchg, hkept, hfold⟩ := ih h
      have hpresent : w.view sg.ipport ≠ none := by
        rw [Ne, h.view_none_iff, hl]
        exact Option.some_ne_none info
      refine ⟨t, sg :: chg, by simp only [addLoop, hl, ht]; rfl, hi, hsg, ?_, ?_, ?_⟩
      · intro x hx
        rcases List.mem_cons.mp hx with rfl | hx
        · rw [(hkept _ hpresent).1]
          exact hpresent
        · exact hchg x hx
      · intro k hk
        obtain ⟨hv, he⟩ := hkept k hk
        refine ⟨hv, ?_⟩
        by_cases hkey : k = sg.ipport
        · subst hkey
          rw [entriesFor_cons_self, entriesFor_cons_self, he]
        · rw [entriesFor_cons_ne hkey, entriesFor_cons_ne hkey, he]
      · intro k
        by_cases hkey : k = sg.ipport
        · subst hkey
          obtain ⟨hv, he⟩ := hkept _ hpresent
          rw [entriesFor_cons_self, entriesFor_cons_self, he, hv]
        · rw [entriesFor_cons_ne hkey, entriesFor_cons_ne hkey]
          exact hfold k
    | none =>
      obtain ⟨u, hu, hstores⟩ := connect_spec h hl
      obtain ⟨t, chg, ht, hi, hsg, hchg, hkept, hfold⟩ := ih hstores.indexed
      refine ⟨t, chg, by simp only [addLoop, hl, hu]; exact ht, hi, hsg.trans hstores.sgservice,
        hchg, ?_, ?_⟩
      · intro k hk
        have hkey : k ≠ sg.ipport := by
          rintro rfl
          exact hk (view_eq_none hl)
        rw [entriesFor_cons_ne hkey, ← hstores.elsewhere k hkey]
        exact hkept k (by rw [hstores.elsewhere k hkey]; exact hk)
      · intro k
        rw [hfold k]
        by_cases hkey : k = sg.ipport
        · subst hkey
          rw [entriesFor_cons_self, hstores.here]
          rfl
        · rw [entriesFor_cons_ne hkey, hstores.elsewhere k hkey]

/-- The loop of `ChgSrv` stores the entries for the known addresses, and leaves the others. -/
theorem chgLoop_spec (l : List (SGService D)) (h : w.Indexed) :
    ∃ t add, chgLoop w l = .ok (t, add) ∧ t.Indexed ∧
      t.map_ipport_sgservice = w.map_ipport_sgservice ∧
      (∀ k, w.view k ≠ none →
        t.view k = (entriesFor l k).foldl upd (w.view k) ∧ entriesFor add k = []) ∧
      ∀ k, w.view k = none → t.view k = none ∧ entriesFor add k = entriesFor l k := by
  induction l generalizing w with
  | nil => exact ⟨w, [], rfl, h, rfl, fun k _ => ⟨rfl, rfl⟩, fun k hk => ⟨hk, rfl⟩⟩
  | cons sg rest ih =>
    cases hl : w.map_ipport_spconninfo.lookup sg.ipport with
    | none =>
      obtain ⟨t, add, ht, hi, hsg, hknown, hunknown⟩ := ih h
      refine ⟨t, sg :: add, by simp only [chgLoop, hl, ht]; rfl, hi, hsg, ?_, ?_⟩
      · intro k hk
        have hkey : k ≠ sg.ipport := by
          rintro rfl
          exact hk (view_eq_none hl)
        rw [entriesFor_cons_ne hkey, entriesFor_cons_ne hkey]
        exact hknown k hk
      · intro k hk
        obtain ⟨hv, he⟩ := hunknown k hk
        refine ⟨hv, ?_⟩
        by_cases hkey : k = sg.ipport
        · subst hkey
          rw [entriesFor_cons_self, entriesFor_cons_self, he]
        · rw [entriesFor_cons_ne hkey, entriesFor_cons_ne hkey, he]
    | some info =>
      obtain ⟨u, hu, hstores⟩ := change_spec h hl
      obtain ⟨t, add, ht, hi, hsg, hknown, hunknown⟩ := ih hstores.indexed
      refine ⟨t, add, by simp only [chgLoop, hl, hu]; exact ht, hi, hsg.trans hstores.sgservice,
        ?_, ?_⟩
      · intro k hk
        by_cases hkey : k = sg.ipport
        · subst hkey
          have hu' : u.view sg.ipport ≠ none := by
            rw [hstores.here]
            cases hv : w.view sg.ipport with
            | none => exact Option.some_ne_none _
            | some v => exact Option.some_ne_none _
          obtain ⟨hv, he⟩ := hknown _ hu'
          rw [entriesFor_cons_self, hv, hstores.here]
          exact ⟨rfl, he⟩
        · rw [entriesFor_cons_ne hkey, ← hstores.elsewhere k hkey]
          exact hknown k (by rw [hstores.elsewhere k hkey]; exact hk)
      · intro k hk
        have hkey : k ≠ sg.ipport := by
          rintro rfl
          rw [h.view_none_iff, hl] at hk
          cases hk
        rw [entriesFor_cons_ne hkey]
        exact hunknown k (by rw [hstores.elsewhere k hkey]; exact hk)

theorem chgSrv_known (h : w.Indexed) (hl : ∀ sg ∈ l, w.view sg.ipport ≠ none) (depth : Nat) :
    ∃ t, chgSrv (depth + 1) w l = some (.ok t) ∧ w.Applies l t := by
  obtain ⟨t, add, ht, hi, hsg, hknown, hunknown⟩ := chgLoop_spec l h
  have hadd : add = [] := by
    apply List.eq_nil_iff_forall_not_mem.mpr
    intro sg hm
    have hself : sg ∈ entriesFor add sg.ipport := mem_entriesFor.mpr ⟨hm, rfl⟩
    by_cases hv : w.view sg.ipport = none
    · rw [(hunknown _ hv).2] at hself
      exact hl sg (mem_entriesFor.mp hself).1 hv
    · rw [(hknown _ hv).2] at hself
      cases hself
  refine ⟨t, by simp only [chgSrv, ht, hadd]; rfl, hi, hsg, ?_⟩
  intro k
  by_cases hv : w.view k = none
  · have hnone := (hunknown k hv).2
    rw [hadd] at hnone
    rw [← hnone, (hunknown k hv).1, hv]
    rfl
  · exact (hknown k hv).1

theorem addSrv_spec (h : w.Indexed) (l : List (SGService D)) (depth : Nat) :
    ∃ t, addSrv (depth + 2) w l = some (.ok t) ∧ w.Applies l t := by
  obtain ⟨u, chg, hu, hi, hsg, hchg, -, hfold⟩ := addLoop_spec l h
  cases chg with
  | nil => exact ⟨u, by simp only [addSrv, hu]; rfl, hi, hsg, hfold⟩
  | cons sg rest =>
    obtain ⟨t, ht, happ⟩ := chgSrv_known hi hchg depth
    refine ⟨t, by simp only [addSrv, hu]; exact ht, happ.indexed, happ.sgservice.trans hsg, ?_⟩
    intro k
    rw [happ.view k, hfold k]

theorem chgSrv_spec (h : w.Indexed) (l : List (SGService D)) (depth : Nat) :
    ∃ t, chgSrv (depth + 3) w l = some (.ok t) ∧ w.Applies l t := by
  obtain ⟨u, add, hu, hi, hsg, hknown, hunknown⟩ := chgLoop_spec l h
  have hview : ∀ k, (entriesFor add k).foldl upd (u.view k) =
      (entriesFor l k).foldl upd (w.view k) := by
    intro k
    by_cases hv : w.view k = none
    · rw [(hunknown k hv).1, (hunknown k hv).2, hv]
    · rw [(hknown k hv).1, (hknown k hv).2]
      rfl
  cases add with
  | nil => exact ⟨u, by simp only [chgSrv, hu]; rfl, hi, hsg, hview⟩
  | cons sg rest =>
    obtain ⟨t, ht, happ⟩ := addSrv_spec hi (sg :: rest) depth
    refine ⟨t, by simp only [chgSrv, hu]; exact ht, happ.indexed, happ.sgservice.trans hsg, ?_⟩
    intro k
    rw [happ.view k, hview k]

/-! ### A sample -/

/- Exact arithmetic, which is what `double` has where nothing is rounded. -/
instance exactDouble : Double Rat where
  ofInt i := i
  epsilon := 1 / 2 ^ 52
  kDSecondRegionMin := 1 / 1000
  add := (· + ·)
  sub := (· - ·)
  mul := (· * ·)
  fmod a b := a - b * (Int.tdiv (a / b).num (a / b).den)
  fabs a := if a < 0 then -a else a
  lt a b := a < b
  eq a b := a = b

def sampleService (ip : String) (port : BitVec 32) : SGService Rat where
  appkey := "com.sample"
  version := ""
  ip := ip
  port := port
  weight := 10
  status := 2
  role := 0
  envir := 3
  lastUpdateTime := 0
  fweight := 0
  serverType := 0
  protocol := "thrift"
  serviceInfo := []
  heartbeatSupport := 0
  warmup := 0

end SvrPool

end TstMuduo.Cthrift
