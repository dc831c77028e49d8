import TstMuduo.Cthrift.SvrPool

/-!
# The choice of a connection (cthrift/cthrift_client_worker.cc)

`ChooseNextReadyConn` goes through the index by falling weight and collects the clients that
can be used, until it leaves the region of the first of them. On its way it erases the entries
that it takes for stale, without a word to the `ConnInfo` that has their iterator.
-/

namespace TstMuduo.Cthrift
open TstMuduo.Lib

variable {D : Type} [Double D]

/- `CheckRegion` (`cthrift_client_worker.cc:90`), as a number of the enumeration. -/
def checkRegion (d_weight : D) : Nat :=
  if Double.lt d_weight Double.kDSecondRegionMin then 2
  else if Double.lt d_weight (Double.ofInt 1) then 1
  else 0

/-! ### `unordered_map<double, vector<TcpClientWeakPtr>>` -/

abbrev WeightVec (D : Type) := List (D × List (Option Nat))

def WeightVec.find (m : WeightVec D) (d : D) : Option (List (Option Nat)) :=
  (m.find? fun e => Double.eq e.1 d).map Prod.snd

/- `operator[]` for reading: it makes an empty vector where there is none. -/
def WeightVec.touch (m : WeightVec D) (d : D) : WeightVec D :=
  if (m.find d).isSome then m else m ++ [(d, [])]

def WeightVec.size (m : WeightVec D) (d : D) : D :=
  Double.ofInt ((m.find d).getD []).length

/- `map_weight_vec[d].push_back(c)`. -/
def WeightVec.pushBack : WeightVec D → D → Option Nat → WeightVec D
  | [], d, c => [(d, [c])]
  | e :: m, d, c =>
    if Double.eq e.1 d then (e.1, e.2 ++ [c]) :: m else e :: WeightVec.pushBack m d c

/- The variables of the loop. -/
structure Picking (D : Type) where
  weights : WeightMap D
  map_weight_vec : WeightVec D
  vec_weight : List D
  d_last_weight : D
  d_total_weight : D
  i8_stop_region : Nat

/- What the loop does with an entry. -/
inductive Look where
  | erase
  | skip
  | weigh
  deriving DecidableEq, Repr

namespace SvrPool

/- `CheckConnHealthy` (`cthrift_client_worker.cc:99`). -/
def checkConnHealthy (w : SvrPool D) (info : ConnInfo D) : Bool :=
  match info.sp_tcpclient.bind w.connection with
  | none => false
  | some conn =>
    conn.connected &&
      match conn.context with
      | .empty => false
      | .other => false
      | .worker c => !(c.b_highwater || c.b_occupied)

def lock (w : SvrPool D) (wp : Option Nat) : Option Nat :=
  wp.filter fun c => w.map_ipport_spconninfo.entries.any fun e => e.2.sp_tcpclient = some c

/- The checks of the loop (`cthrift_client_worker.cc:166`). -/
def look (w : SvrPool D) (n : Multimap.Node D (Option Nat)) : Look :=
  match w.lock n.val with
  | none => .erase
  | some c =>
    match w.connection c with
    | none => .skip
    | some conn =>
      match w.map_ipport_spconninfo.lookup conn.ipport with
      | none => .erase
      | some info => if w.checkConnHealthy info then .weigh else .skip

/- The part of the loop for a client that can be used (`cthrift_client_worker.cc:213`); `none` is
the `break`. -/
def weigh (p : Picking D) (n : Multimap.Node D (Option Nat)) : Option (Picking D) :=
  if !checkDoubleEqual p.d_last_weight n.key then
    if !checkDoubleEqual p.d_last_weight (Double.ofInt (-1)) then
      if p.i8_stop_region ≤ checkRegion n.key then none
      else some { p with
        d_total_weight := Double.add p.d_total_weight
          (Double.mul p.d_last_weight (p.map_weight_vec.size p.d_last_weight))
        map_weight_vec := (p.map_weight_vec.touch p.d_last_weight).pushBack n.key n.val
        vec_weight := p.vec_weight ++ [n.key]
        d_last_weight := n.key }
    else some { p with
      i8_stop_region := checkRegion n.key + 1
      map_weight_vec := p.map_weight_vec.pushBack n.key n.val
      vec_weight := p.vec_weight ++ [n.key]
      d_last_weight := n.key }
  else some { p with map_weight_vec := p.map_weight_vec.pushBack n.key n.val }

def chooseLoop (w : SvrPool D) : List (Multimap.Node D (Option Nat)) → Picking D →
    Except PoolFault (Picking D)
  | [], p => .ok p
  | n :: ns, p =>
    match w.look n with
    | .erase => do
      let t ← eraseIndex p.weights (some n.iter)
      chooseLoop w ns { p with weights := t }
    | .skip => chooseLoop w ns p
    | .weigh =>
      match weigh p n with
      | none => .ok p
      | some q => chooseLoop w ns q

/- The search for the region of the random weight (`cthrift_client_worker.cc:259`). -/
def findChoose (m : WeightVec D) (d_random_weight : D) : List D → D → D
  | [], _ => Double.ofInt 0
  | d :: ds, d_tmp =>
    let d_tmp := Double.add d_tmp (Double.mul (Double.mul d (m.size d)) (Double.ofInt 1000))
    if Double.lt d_random_weight d_tmp then d else findChoose m d_random_weight ds d_tmp

/- The random choice after the loop (`cthrift_client_worker.cc:238`). An empty vector stands only
under a weight that is not a number, and `find` does not get there. -/
def draw (p : Picking D) (rand1 rand2 : Nat) : Int × Option Nat :=
  if p.vec_weight.isEmpty then (1, none)
  else
    let total := Double.add p.d_total_weight
      (Double.mul p.d_last_weight (p.map_weight_vec.size p.d_last_weight))
    let m := p.map_weight_vec.touch p.d_last_weight
    let d_random_weight :=
      Double.fmod (Double.ofInt rand1) (Double.mul total (Double.ofInt 1000))
    match m.find (findChoose m d_random_weight p.vec_weight (Double.ofInt 0)) with
    | none => (-1, none)
    | some clients =>
      if clients.length = 1 then (0, (clients[0]?).join)
      else (0, (clients[rand2 % clients.length]?).join)

def picking (w : SvrPool D) : Picking D where
  weights := w.weights
  map_weight_vec := []
  vec_weight := []
  d_last_weight := Double.ofInt (-1)
  d_total_weight := Double.ofInt 0
  i8_stop_region := 1

/- `ChooseNextReadyConn` (`cthrift_client_worker.cc:146`), with the two results of `rand()`. -/
def chooseNextReadyConn (w : SvrPool D) (rand1 rand2 : Nat) :
    Except PoolFault (SvrPool D × Int × Option Nat) :=
  if w.weights.nodes.isEmpty then .ok (w, -1, none)
  else do
    let p ← w.chooseLoop w.weights.nodes w.picking
    return ({ w with weights := p.weights }, draw p rand1 rand2)

/-! ### What is erased -/

/-- The entries that the loop gets to before it stops. -/
def reached (w : SvrPool D) : List (Multimap.Node D (Option Nat)) → Picking D →
    List (Multimap.Node D (Option Nat))
  | [], _ => []
  | n :: ns, p =>
    match w.look n with
    | .weigh =>
      match weigh p n with
      | none => [n]
      | some q => n :: w.reached ns q
    | _ => n :: w.reached ns p

variable {w t : SvrPool D} {n : Multimap.Node D (Option Nat)}
  {ns : List (Multimap.Node D (Option Nat))} {p q : Picking D}

theorem weigh_weights (h : weigh p n = some q) : q.weights = p.weights := by
  unfold weigh at h
  split at h
  · split at h
    · split at h
      · cases h
      · cases h
        rfl
    · cases h
      rfl
  · cases h
    rfl

theorem weigh_erased (p : Picking D) (n : Multimap.Node D (Option Nat)) (m : WeightMap D) :
    weigh { p with weights := m } n = (weigh p n).map fun q => { q with weights := m } := by
  unfold weigh
  split
  · split
    · split
      · rfl
      · rfl
    · rfl
  · rfl

theorem reached_erased (ns : List (Multimap.Node D (Option Nat))) (p : Picking D)
    (m : WeightMap D) : w.reached ns { p with weights := m } = w.reached ns p := by
  induction ns generalizing p with
  | nil => rfl
  | cons n ns ih =>
    unfold reached
    rw [weigh_erased]
    cases w.look n with
    | erase => exact congrArg (n :: ·) (ih p)
    | skip => exact congrArg (n :: ·) (ih p)
    | weigh =>
      cases weigh p n with
      | none => rfl
      | some q => exact congrArg (n :: ·) (ih q)

theorem mem_reached (h : n ∈ w.reached ns p) : n ∈ ns := by
  induction ns generalizing p with
  | nil => cases h
  | cons n' ns ih =>
    unfold reached at h
    split at h
    · split at h
      · rw [List.mem_singleton.mp h]
        exact List.mem_cons_self
      · exact (List.mem_cons.mp h).elim (fun he => he ▸ List.mem_cons_self)
          fun hm => List.mem_cons_of_mem _ (ih hm)
    · exact (List.mem_cons.mp h).elim (fun he => he ▸ List.mem_cons_self)
        fun hm => List.mem_cons_of_mem _ (ih hm)

theorem chooseLoop_keeps (h : ∀ n ∈ w.reached ns p, w.look n ≠ .erase) :
    ∃ q, w.chooseLoop ns p = .ok q ∧ q.weights = p.weights := by
  induction ns generalizing p with
  | nil => exact ⟨p, rfl, rfl⟩
  | cons n ns ih =>
    unfold reached at h
    unfold chooseLoop
    cases hl : w.look n with
    | erase =>
      simp only [hl] at h
      exact absurd hl (h n List.mem_cons_self)
    | skip =>
      simp only [hl] at h
      exact ih fun n' hn' => h n' (List.mem_cons_of_mem _ hn')
    | weigh =>
      simp only [hl] at h
      cases hw : weigh p n with
      | none => exact ⟨p, rfl, rfl⟩
      | some q =>
        simp only [hw] at h
        obtain ⟨r, hr, hweights⟩ := ih fun n' hn' => h n' (List.mem_cons_of_mem _ hn')
        exact ⟨r, hr, hweights.trans (weigh_weights hw)⟩

omit [Double D] in
theorem eraseIndex_ok {m m' : WeightMap D} {it : Nat} (h : eraseIndex m (some it) = .ok m') :
    m.erase it = some m' := by
  simp only [eraseIndex] at h
  split at h
  · cases h
  next he =>
    cases h
    exact he

theorem chooseLoop_none {it : Nat} (h : w.chooseLoop ns p = .ok q)
    (hnone : p.weights.get it = none) : q.weights.get it = none := by
  induction ns generalizing p with
  | nil =>
    cases h
    exact hnone
  | cons n ns ih =>
    unfold chooseLoop at h
    split at h
    · obtain ⟨m, hm, hrest⟩ := bind_eq_ok h
      apply ih hrest
      rw [Multimap.get_erase (eraseIndex_ok hm), hnone, ite_self]
    · exact ih h hnone
    · split at h
      · cases h
        exact hnone
      next r hr => exact ih h (by rw [weigh_weights hr]; exact hnone)

theorem chooseLoop_erases (h : w.chooseLoop ns p = .ok q) (hn : n ∈ w.reached ns p)
    (he : w.look n = .erase) : q.weights.get n.iter = none := by
  induction ns generalizing p with
  | nil => cases hn
  | cons n' ns ih =>
    unfold reached at hn
    unfold chooseLoop at h
    cases hl : w.look n' with
    | erase =>
      simp only [hl] at h hn
      obtain ⟨m, hm, hrest⟩ := bind_eq_ok h
      rcases List.mem_cons.mp hn with rfl | hn
      · apply chooseLoop_none hrest
        rw [Multimap.get_erase (eraseIndex_ok hm), if_pos rfl]
      · exact ih hrest (by rw [reached_erased]; exact hn)
    | skip =>
      simp only [hl] at h hn
      rcases List.mem_cons.mp hn with rfl | hn
      · rw [hl] at he
        cases he
      · exact ih h hn
    | weigh =>
      simp only [hl] at h hn
      cases hw : weigh p n' with
      | none =>
        simp only [hw] at hn
        rw [List.mem_singleton.mp hn, hl] at he
        cases he
      | some r =>
        simp only [hw] at h hn
        rcases List.mem_cons.mp hn with rfl | hn
        · rw [hl] at he
          cases he
        · exact ih h hn

/-- Every entry that the loop gets to has a client without a connection, or with a connection to
an address that the worker knows. -/
def PeersKnown (w : SvrPool D) : Prop :=
  ∀ n ∈ w.reached w.weights.nodes w.picking, ∀ c conn, n.val = some c →
    w.connection c = some conn → conn.ipport ∈ w.map_ipport_spconninfo

omit [Double D] in
theorem Indexed.look_erase (h : w.Indexed) (hn : n ∈ w.weights.nodes) :
    w.look n = .erase ↔ ∃ c conn, n.val = some c ∧ w.connection c = some conn ∧
      conn.ipport ∉ w.map_ipport_spconninfo := by
  obtain ⟨k, info, hl, hit⟩ := h.owner (Multimap.get_iter hn)
  obtain ⟨it, c, weight, hit', hc, hget⟩ := h.entry hl
  cases hit.symm.trans hit'
  have hval : n.val = some c := by
    rw [Multimap.get_iter hn] at hget
    exact congrArg Prod.snd (Option.some.inj hget)
  have halive : w.lock n.val = some c := by
    rw [hval, lock, Option.filter_some_pos]
    rw [List.any_eq_true]
    exact ⟨⟨k, info⟩, AList.mem_lookup_iff.mp hl, decide_eq_true hc⟩
  simp only [look, halive]
  constructor
  · intro he
    cases hconn : w.connection c with
    | none =>
      simp only [hconn] at he
      cases he
    | some conn =>
      refine ⟨c, conn, hval, hconn, ?_⟩
      intro hmem
      obtain ⟨info', hi⟩ := Option.isSome_iff_exists.mp (AList.lookup_isSome.mpr hmem)
      simp only [hconn, hi] at he
      split at he
      · cases he
      · cases he
  · rintro ⟨c', conn, hval', hconn, hun⟩
    cases hval.symm.trans hval'
    simp only [hconn, AList.lookup_eq_none.mpr hun]

theorem chooseNextReadyConn_keeps (h : w.Indexed) (hp : w.PeersKnown) (rand1 rand2 : Nat) :
    ∃ r, w.chooseNextReadyConn rand1 rand2 = .ok (w, r) := by
  have hnone : ∀ n ∈ w.reached w.weights.nodes w.picking, w.look n ≠ .erase := by
    intro n hn he
    obtain ⟨c, conn, hval, hconn, hun⟩ := (h.look_erase (mem_reached hn)).mp he
    exact hun (hp n hn c conn hval hconn)
  obtain ⟨q, hq, hweights⟩ := chooseLoop_keeps hnone
  unfold chooseNextReadyConn
  split
  · exact ⟨_, rfl⟩
  · rw [hq, ok_bind, hweights]
    exact ⟨_, rfl⟩

theorem chooseNextReadyConn_loses (h : w.Indexed) (hp : ¬ w.PeersKnown) {rand1 rand2 : Nat}
    {r : Int × Option Nat} (ht : w.chooseNextReadyConn rand1 rand2 = .ok (t, r)) :
    ¬ t.Indexed := by
  unfold PeersKnown at hp
  push Not at hp
  obtain ⟨n, hn, c, conn, hval, hconn, hun⟩ := hp
  have hmem := mem_reached hn
  have he := (h.look_erase hmem).mpr ⟨c, conn, hval, hconn, hun⟩
  obtain ⟨k, info, hl, hit⟩ := h.owner (Multimap.get_iter hmem)
  unfold chooseNextReadyConn at ht
  rw [if_neg (by rw [List.isEmpty_iff]; exact List.ne_nil_of_mem hmem)] at ht
  obtain ⟨q, hq, hrest⟩ := bind_eq_ok ht
  cases hrest
  intro hindexed
  obtain ⟨it, c', weight, hit', -, hget⟩ := hindexed.entry hl
  cases hit.symm.trans hit'
  rw [chooseLoop_erases hq hn he] at hget
  cases hget

end SvrPool

end TstMuduo.Cthrift
