import TstMuduo.Lib.Machine
import TstMuduo.Cthrift.Responses

/-!
# Clients that share a worker (cthrift/cthrift_client.cc)

`InitWorker` keeps the workers it makes in a static map of weak pointers, under a key that it
puts together from five fields of the client. A client that is not parallel takes a worker from
there as soon as enough have been made for its key. Nothing is ever removed from the map.
-/

namespace TstMuduo.Cthrift
open TstMuduo.Lib

/- The fields that a worker is constructed with. -/
structure WorkerConfig where
  str_svr_appkey : String
  str_serviceName_filter : String
  i32_port_filter : BitVec 32
  str_server_ip : String
  i16_server_port : BitVec 16
  deriving DecidableEq, Repr

/- `map_key` (`cthrift_client.cc:44`). -/
def WorkerConfig.mapKey (c : WorkerConfig) : String :=
  c.str_svr_appkey ++ c.str_serviceName_filter ++ lexicalCast c.i32_port_filter.toInt ++
    c.str_server_ip ++ lexicalCast c.i16_server_port.toInt

theorem WorkerConfig.mapKey_append (a b filter ip : String) (port : BitVec 32)
    (server_port : BitVec 16) :
    mapKey ⟨a ++ b, filter, port, ip, server_port⟩ =
      mapKey ⟨a, b ++ filter, port, ip, server_port⟩ := by
  simp only [mapKey, String.append_assoc]

/-- A client, until it is destroyed, with the fields it had when `InitWorker` last returned. A
worker is the number in which it was made. -/
structure CthriftClient where
  config : WorkerConfig
  b_parallel : Bool
  i32_worker_num : Nat
  alive : Bool
  initialised : Option WorkerConfig
  sp_cthrift_client_worker : Option Nat
  deriving DecidableEq, Repr

def CthriftClient.new (config : WorkerConfig) (b_parallel : Bool) (i32_worker_num : Nat) :
    CthriftClient where
  config := config
  b_parallel := b_parallel
  i32_worker_num := i32_worker_num
  alive := true
  initialised := none
  sp_cthrift_client_worker := none

/- All clients and workers there have ever been, and `map_appkey_worker_`. -/
structure Sharing where
  clients : List CthriftClient
  workers : List WorkerConfig
  map_appkey_worker : List (String × Nat)

/- The null pointer that the log statement follows. -/
inductive SharingFault where
  | nullPointer
  deriving DecidableEq, Repr

namespace Sharing

def new : Sharing := ⟨[], [], []⟩

def setClient (s : Sharing) (i : Nat) (c : CthriftClient) : Sharing :=
  { s with clients := s.clients.set i c }

def live (s : Sharing) (id : Nat) : Bool :=
  s.clients.any fun c => c.alive && c.sp_cthrift_client_worker = some id

def count (s : Sharing) (map_key : String) : Nat :=
  s.map_appkey_worker.countP fun e => e.1 = map_key

def candidates (s : Sharing) (map_key : String) : List Nat :=
  (s.map_appkey_worker.filter fun e => e.1 = map_key && s.live e.2).map Prod.snd

/- The first live worker in the range of the key. The order of the range is not specified, so
`pick` is. -/
def pickWorker (s : Sharing) (map_key : String) (pick : Nat) : Option Nat :=
  (s.candidates map_key)[pick % (s.candidates map_key).length]?

/- Whether `InitWorker` looks for a worker in the map (`cthrift_client.cc:59`). -/
def reuses (s : Sharing) (c : CthriftClient) (async : Bool) : Bool :=
  !(c.b_parallel || async) && c.i32_worker_num ≤ s.count c.config.mapKey

def newWorker (s : Sharing) (config : WorkerConfig) : Sharing :=
  { s with
    workers := s.workers ++ [config]
    map_appkey_worker := s.map_appkey_worker ++ [(config.mapKey, s.workers.length)] }

/- The end of `InitWorker`. The debug log, if it is on, asks the worker for a number. -/
def returns (debug : Bool) (s : Sharing) (i : Nat) (c : CthriftClient) (async : Bool)
    (worker : Option Nat) : Except SharingFault Sharing :=
  if debug && worker.isNone then .error .nullPointer
  else .ok (s.setClient i { c with
    b_parallel := c.b_parallel || async
    initialised := some c.config
    sp_cthrift_client_worker := worker })

/- `InitWorker` (`cthrift_client.cc:42`). If no worker of the range is alive, the pointer stays
what it was. -/
def initWorker (debug : Bool) (s : Sharing) (i : Nat) (c : CthriftClient) (async : Bool)
    (pick : Nat) : Except SharingFault Sharing :=
  if s.reuses c async then
    s.returns debug i c async
      ((s.pickWorker c.config.mapKey pick).or c.sp_cthrift_client_worker)
  else (s.newWorker c.config).returns debug i c async (some s.workers.length)

/- `assign` stands for the setters; `Init` also trims the appkey. -/
inductive Act where
  | create (config : WorkerConfig) (b_parallel : Bool) (i32_worker_num : Nat)
  | assign (i : Nat) (config : WorkerConfig) (b_parallel : Bool) (i32_worker_num : Nat)
  | initWorker (i : Nat) (async : Bool) (pick : Nat)
  | destroy (i : Nat)
  deriving DecidableEq, Repr

def step (debug : Bool) (s : Sharing) : Act → Option (Except SharingFault Sharing)
  | .create config b_parallel i32_worker_num =>
    some (.ok { s with
      clients := s.clients ++ [CthriftClient.new config b_parallel i32_worker_num] })
  | .assign i config b_parallel i32_worker_num => (s.clients[i]?).bind fun c =>
    if c.alive then
      some (.ok (s.setClient i { c with
        config := config
        b_parallel := b_parallel
        i32_worker_num := i32_worker_num }))
    else none
  | .initWorker i async pick => (s.clients[i]?).bind fun c =>
    if c.alive then some (s.initWorker debug i c async pick) else none
  | .destroy i => (s.clients[i]?).bind fun c =>
    if c.alive then
      some (.ok (s.setClient i { c with
        alive := false
        sp_cthrift_client_worker := none }))
    else none

def machine (debug : Bool) : Machine Sharing Act SharingFault where
  init := new
  step := step debug

/- The client has a worker, and one with the fields it had when `InitWorker` returned. -/
def Serves (s : Sharing) (c : CthriftClient) : Prop :=
  c.alive = true → ∀ config, c.initialised = some config →
    ∃ id, c.sp_cthrift_client_worker = some id ∧ s.workers[id]? = some config

/-- Every client for which `InitWorker` has returned has its worker. -/
def Served (s : Sharing) : Prop := ∀ c ∈ s.clients, s.Serves c

/-- A call that looks for a worker finds a live one under the key, and that one has the fields of
the client. -/
def Shares (s : Sharing) : Act → Prop
  | .initWorker i async pick => ∀ c, s.clients[i]? = some c → s.reuses c async = true →
      ∃ id, s.pickWorker c.config.mapKey pick = some id ∧ s.workers[id]? = some c.config
  | _ => True

/-! ### The map -/

variable {debug : Bool} {s t : Sharing} {i id : Nat} {c : CthriftClient}

theorem mem_candidates {map_key : String} :
    id ∈ s.candidates map_key ↔ (map_key, id) ∈ s.map_appkey_worker ∧ s.live id = true := by
  unfold candidates
  rw [List.mem_map]
  constructor
  · intro h
    obtain ⟨⟨k, j⟩, hmem, rfl⟩ := h
    rw [List.mem_filter, Bool.and_eq_true, decide_eq_true_iff] at hmem
    obtain ⟨hin, rfl, hlive⟩ := hmem
    exact ⟨hin, hlive⟩
  · intro h
    refine ⟨(map_key, id), ?_, rfl⟩
    rw [List.mem_filter, Bool.and_eq_true, decide_eq_true_iff]
    exact ⟨h.1, rfl, h.2⟩

theorem pickWorker_eq_none {map_key : String} {pick : Nat}
    (h : s.pickWorker map_key pick = none) : s.candidates map_key = [] := by
  by_contra hne
  have hpos := List.length_pos_of_ne_nil hne
  rw [pickWorker, List.getElem?_eq_none_iff] at h
  exact absurd (Nat.mod_lt pick hpos) (Nat.not_lt.mpr h)

theorem live_of_client (hc : c ∈ s.clients) (halive : c.alive = true)
    (hid : c.sp_cthrift_client_worker = some id) : s.live id = true := by
  rw [live, List.any_eq_true]
  exact ⟨c, hc, by rw [halive, hid, Bool.true_and, decide_eq_true_iff]⟩

/-! ### Steps -/

/-- The clients have their workers, and the map has every worker under its key. -/
structure Inv (s : Sharing) : Prop where
  served : s.Served
  mapped : ∀ id config, s.workers[id]? = some config →
    (config.mapKey, id) ∈ s.map_appkey_worker

theorem inv_new : new.Inv where
  served := fun c hc => by cases hc
  mapped := fun id config h => by cases h

theorem Inv.create (h : s.Inv) (config : WorkerConfig) (b_parallel : Bool)
    (i32_worker_num : Nat) :
    { s with clients := s.clients ++
      [CthriftClient.new config b_parallel i32_worker_num] }.Inv := by
  constructor
  · intro c hc
    rcases List.mem_append.mp hc with hold | hnew
    · exact h.served c hold
    · rw [List.mem_singleton.mp hnew]
      intro _ config' hinit
      cases hinit
  · exact h.mapped

theorem Inv.setClient (h : s.Inv) (hc : s.Serves c) : (s.setClient i c).Inv := by
  constructor
  · intro d hd
    rcases List.mem_or_eq_of_mem_set hd with hold | rfl
    · exact h.served d hold
    · exact hc
  · exact h.mapped

theorem Inv.newWorker (h : s.Inv) (config : WorkerConfig) : (s.newWorker config).Inv := by
  constructor
  · intro c hc halive config' hinit
    obtain ⟨id, hid, hworker⟩ := h.served c hc halive config' hinit
    have hlt := (List.getElem?_eq_some_iff.mp hworker).1
    exact ⟨id, hid, (List.getElem?_append_left hlt).trans hworker⟩
  · intro id config' hworker
    rw [Sharing.newWorker] at hworker ⊢
    apply List.mem_append.mpr
    by_cases hlt : id < s.workers.length
    · rw [List.getElem?_append_left hlt] at hworker
      exact Or.inl (h.mapped id config' hworker)
    · have hbound := (List.getElem?_eq_some_iff.mp hworker).1
      rw [List.length_append, List.length_singleton] at hbound
      obtain rfl : id = s.workers.length := by omega
      rw [List.getElem?_concat_length] at hworker
      cases hworker
      exact Or.inr List.mem_cons_self

theorem returns_eq_ok {async : Bool} {worker : Option Nat}
    (h : s.returns debug i c async worker = .ok t) :
    t = s.setClient i { c with
      b_parallel := c.b_parallel || async
      initialised := some c.config
      sp_cthrift_client_worker := worker } := by
  unfold returns at h
  split at h
  · cases h
  · cases h
    rfl

theorem Inv.initWorker (h : s.Inv) {async : Bool} {pick : Nat}
    (hshares : s.reuses c async = true →
      ∃ id, s.pickWorker c.config.mapKey pick = some id ∧ s.workers[id]? = some c.config)
    (ht : s.initWorker debug i c async pick = .ok t) : t.Inv := by
  unfold Sharing.initWorker at ht
  split at ht
  next hreuses =>
    obtain ⟨id, hpick, hworker⟩ := hshares hreuses
    rw [returns_eq_ok ht, hpick]
    apply h.setClient
    intro _ config hinit
    cases hinit
    exact ⟨id, rfl, hworker⟩
  next hnew =>
    rw [returns_eq_ok ht]
    apply (h.newWorker c.config).setClient
    intro _ config hinit
    cases hinit
    exact ⟨s.workers.length, rfl, List.getElem?_concat_length⟩

theorem initWorker_not_served (h : s.Inv) (hc : s.clients[i]? = some c) (halive : c.alive = true)
    {async : Bool} {pick : Nat} (hreuses : s.reuses c async = true)
    (hbad : ¬ ∃ id, s.pickWorker c.config.mapKey pick = some id ∧
      s.workers[id]? = some c.config)
    (ht : s.initWorker debug i c async pick = .ok t) : ¬ t.Served := by
  intro hserved
  rw [Sharing.initWorker, if_pos hreuses] at ht
  obtain rfl := returns_eq_ok ht
  have hi := (List.getElem?_eq_some_iff.mp hc).1
  obtain ⟨id, hid, hworker⟩ := hserved _ (List.mem_set hi _) halive c.config rfl
  cases hpick : s.pickWorker c.config.mapKey pick with
  | some picked =>
    rw [hpick] at hid
    cases hid
    exact hbad ⟨_, hpick, hworker⟩
  | none =>
    rw [hpick] at hid
    have hlive := live_of_client (List.mem_of_getElem? hc) halive hid
    have hmem := mem_candidates.mpr ⟨h.mapped id c.config hworker, hlive⟩
    rw [pickWorker_eq_none hpick] at hmem
    cases hmem

theorem step_shares (h : s.Inv) (a : Act) (ha : s.Shares a) (ht : s.step debug a = some (.ok t)) :
    t.Inv := by
  cases a with
  | create config b_parallel i32_worker_num =>
    cases ht
    exact h.create config b_parallel i32_worker_num
  | assign i config b_parallel i32_worker_num =>
    obtain ⟨c, hc, hstep⟩ := Option.bind_eq_some_iff.mp ht
    split at hstep
    · cases hstep
      apply h.setClient
      exact h.served c (List.mem_of_getElem? hc)
    · cases hstep
  | initWorker i async pick =>
    obtain ⟨c, hc, hstep⟩ := Option.bind_eq_some_iff.mp ht
    split at hstep
    · exact h.initWorker (ha c hc) (Option.some.inj hstep)
    · cases hstep
  | destroy i =>
    obtain ⟨c, hc, hstep⟩ := Option.bind_eq_some_iff.mp ht
    split at hstep
    · cases hstep
      apply h.setClient
      intro halive
      cases halive
    · cases hstep

theorem step_not_shares (h : s.Inv) (a : Act) (ha : ¬ s.Shares a)
    (ht : s.step debug a = some (.ok t)) : ¬ t.Served := by
  cases a with
  | create config b_parallel i32_worker_num => exact absurd trivial ha
  | assign i config b_parallel i32_worker_num => exact absurd trivial ha
  | destroy i => exact absurd trivial ha
  | initWorker i async pick =>
    obtain ⟨c, hc, hstep⟩ := Option.bind_eq_some_iff.mp ht
    split at hstep
    next halive =>
      by_cases hreuses : s.reuses c async = true
      · apply initWorker_not_served h hc halive hreuses ?_ (Option.some.inj hstep)
        intro hfound
        apply ha
        intro c' hc' _
        cases hc.symm.trans hc'
        exact hfound
      · apply absurd _ ha
        intro c' hc' hreuses'
        cases hc.symm.trans hc'
        exact absurd hreuses' hreuses
    · cases hstep

/-! ### Runs -/

/-- In any run that follows no null pointer, every `InitWorker` gives its client a worker with the
client's fields if and only if every call that looks for one finds such a worker first. -/
theorem worker_sharing_iff (debug : Bool) (acts : List Act) {t : Sharing}
    (h : (machine debug).run (machine debug).init acts = some (.ok t)) :
    (∀ pre, pre <+: acts → ∃ u, (machine debug).run (machine debug).init pre = some (.ok u) ∧
      u.Served) ↔ (machine debug).Along Shares (machine debug).init acts :=
  Machine.run_along_iff (fun _ hp => hp.served)
    (fun _ a _ hp hg ht => step_shares hp a hg ht)
    (fun _ a _ hp hg ht => step_not_shares hp a hg ht) inv_new h

def sampleConfig : WorkerConfig := ⟨"com.demo", "", -1, "", 0⟩

/- A second client takes the worker of the first. -/
def sharingActs : List Act :=
  [.create sampleConfig false 1, .initWorker 0 false 0, .create sampleConfig false 1,
    .initWorker 1 false 0]

theorem worker_sharing_two_clients :
    (∃ t, (machine false).run (machine false).init sharingActs = some (.ok t)) ∧
      ∀ pre, pre <+: sharingActs → ∃ u, (machine false).run (machine false).init pre =
        some (.ok u) ∧ u.Served := by
  have hrun : (machine false).runsTo (machine false).init sharingActs
      (fun t => t.live 0) = true := by decide +kernel
  obtain ⟨t, ht, -⟩ := Machine.exists_of_runsTo hrun
  refine ⟨⟨t, ht⟩, (worker_sharing_iff false sharingActs ht).mpr ?_⟩
  refine ⟨trivial, fun s hs => ?_⟩
  cases hs
  refine ⟨fun c hc hreuses => ?_, fun s hs => ?_⟩
  · cases hc
    exact absurd hreuses (by decide +kernel)
  cases hs
  refine ⟨trivial, fun s hs => ?_⟩
  cases hs
  refine ⟨fun c hc _ => ?_, fun _ _ => trivial⟩
  cases hc
  exact ⟨0, by decide +kernel, rfl⟩

/-- After its only client is destroyed a worker still counts: the next client gets none, and
`InitWorker` returns. -/
theorem initWorker_finds_expired :
    ∃ t, (machine false).run (machine false).init
      [.create sampleConfig false 1, .initWorker 0 false 0, .destroy 0,
        .create sampleConfig false 1, .initWorker 1 false 0] = some (.ok t) ∧ ¬ t.Served := by
  have hrun : (machine false).runsTo (machine false).init
      [.create sampleConfig false 1, .initWorker 0 false 0, .destroy 0,
        .create sampleConfig false 1, .initWorker 1 false 0]
      (fun t => decide (t.clients[1]? =
        some ⟨sampleConfig, false, 1, true, some sampleConfig, none⟩)) = true := by
    decide +kernel
  obtain ⟨t, ht, hend⟩ := Machine.exists_of_runsTo hrun
  refine ⟨t, ht, ?_⟩
  intro hserved
  have hmem := List.mem_of_getElem? (of_decide_eq_true hend)
  obtain ⟨id, hid, -⟩ := hserved _ hmem rfl sampleConfig rfl
  cases hid

end Sharing

end TstMuduo.Cthrift
