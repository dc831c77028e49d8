import Mathlib.Algebra.BigOperators.Group.Finset.Basic
import TstMuduo.Lib.Condition
import TstMuduo.Lib.Machine

/-!
# The thrift connection pool (muduo/base/thrift_connection_pool.h)

Clients are known by their addresses: `new` returns one that is not in use. Every section
under `mMutex` is one action; `get_connection` is one section up to its result or its
wait, and one more for each time that the wait returns. What `new_client` answers is part
of the action: a client, or an exception. A handle is used by one thread at a time.
-/

namespace TstMuduo.Base
open TstMuduo.Lib

abbrev Host := UInt32 × UInt16

/-- The limits that the constructor is given. -/
structure PoolLimits where
  maxConn : UInt32
  maxConnPerHost : UInt32

/-- A map entry that is used though it is missing, and a `delete` of what is not there. -/
inductive ThriftFault where
  | noEntry
  | deleteDead
  deriving DecidableEq, Repr

/-- A handle holds its client, is past `destroy_connection` in `destroy()`, has `mClient`
null, or is gone. -/
inductive HandlePhase where
  | held
  | destroying
  | cleared
  | destructed
  deriving DecidableEq, Repr

structure ThriftConnection where
  client : Nat
  host : Host
  phase : HandlePhase
  deriving DecidableEq, Repr

/-- The pool, all handles that it ever gave out, and the clients that are allocated. The maps
are their sets of keys and the values at them. -/
structure ThriftConnectionPool where
  activeKeys : Finset Host
  idleKeys : Finset Host
  active : Host → Finset Nat
  idle : Host → List Nat
  totalConn : UInt32
  cond : Condition Host
  handles : List ThriftConnection
  live : Finset Nat

namespace ThriftConnectionPool

def init : ThriftConnectionPool where
  activeKeys := ∅
  idleKeys := ∅
  active := fun _ => ∅
  idle := fun _ => []
  totalConn := 0
  cond := .empty
  handles := []
  live := ∅

def count (s : ThriftConnectionPool) (host : Host) : Nat :=
  (s.idle host).length + (s.active host).card

/- `init_connection_map` (`thrift_connection_pool.h:198`). -/
def initConnectionMap (s : ThriftConnectionPool) (host : Host) : ThriftConnectionPool :=
  { s with
    idleKeys := insert host s.idleKeys
    idle := if host ∈ s.idleKeys then s.idle else Function.update s.idle host []
    activeKeys := insert host s.activeKeys
    active := if host ∈ s.activeKeys then s.active else Function.update s.active host ∅ }

def reuse (s : ThriftConnectionPool) (host : Host) (interf : Nat) (rest : List Nat) :
    ThriftConnectionPool :=
  { s with
    idle := Function.update s.idle host rest
    active := Function.update s.active host (insert interf (s.active host))
    handles := s.handles ++ [⟨interf, host, .held⟩] }

def create (s : ThriftConnectionPool) (host : Host) (interf : Nat) : ThriftConnectionPool :=
  { s with
    active := Function.update s.active host (insert interf (s.active host))
    totalConn := s.totalConn + 1
    live := insert interf s.live
    handles := s.handles ++ [⟨interf, host, .held⟩] }

/- One round of the loop of `get_connection` (`thrift_connection_pool.h:126`). An exception of
`new_client` leaves the function. -/
def getLoop (limits : PoolLimits) (s : ThriftConnectionPool) (host : Host)
    (newClient : Option Nat) : Option (Except ThriftFault ThriftConnectionPool) :=
  if host ∈ s.idleKeys ∧ host ∈ s.activeKeys then
    match s.idle host with
    | interf :: rest => some (.ok (s.reuse host interf rest))
    | [] =>
      if UInt32.ofNat (s.count host) < limits.maxConnPerHost ∧ s.totalConn < limits.maxConn then
        match newClient with
        | none => some (.ok s)
        | some interf => if interf ∈ s.live then none else some (.ok (s.create host interf))
      else some (.ok { s with cond := s.cond.wait host })
  else some (.error .noEntry)

/- `return_connection` (`thrift_connection_pool.h:155`). -/
def returnConnection (s : ThriftConnectionPool) (interf : Nat) (host : Host) :
    Except ThriftFault ThriftConnectionPool :=
  if host ∈ s.activeKeys then do
    check (host ∈ s.idleKeys) .noEntry
    return { s with
      idle := Function.update s.idle host (interf :: s.idle host)
      active := Function.update s.active host ((s.active host).erase interf)
      cond := s.cond.notifyAll }
  else return s

/- `destroy_connection` (`thrift_connection_pool.h:180`). -/
def destroyConnection (s : ThriftConnectionPool) (interf : Nat) (host : Host) :
    Except ThriftFault ThriftConnectionPool :=
  if host ∈ s.activeKeys then do
    check (interf ∈ s.live) .deleteDead
    return { s with
      active := Function.update s.active host ((s.active host).erase interf)
      live := s.live.erase interf
      totalConn := s.totalConn - 1 }
  else return s

def setPhase (s : ThriftConnectionPool) (i : Nat) (a : ThriftConnection) (p : HandlePhase) :
    ThriftConnectionPool :=
  { s with handles := s.handles.set i { a with phase := p } }

/- `ThriftConnection::destroy` up to its assignment of `mClient`; it does nothing on a cleared
handle. -/
def destroy (s : ThriftConnectionPool) (i : Nat) (a : ThriftConnection) :
    Option (Except ThriftFault ThriftConnectionPool) :=
  match a.phase with
  | .held => some do
    let t ← s.destroyConnection a.client a.host
    return t.setPhase i a .destroying
  | .cleared => some (.ok s)
  | _ => none

/- `~ThriftConnection`. -/
def destruct (s : ThriftConnectionPool) (i : Nat) (a : ThriftConnection) :
    Option (Except ThriftFault ThriftConnectionPool) :=
  match a.phase with
  | .held => some do
    let t ← s.returnConnection a.client a.host
    return t.setPhase i a .destructed
  | .cleared => some (.ok (s.setPhase i a .destructed))
  | _ => none

inductive ThriftAction where
  | get (host : Host) (newClient : Option Nat)
  | wake (k : Nat)
  | resume (w : Wakeup) (k : Nat) (newClient : Option Nat)
  | timeout (k : Nat)
  | expire (w : Wakeup) (k : Nat)
  | destroy (i : Nat)
  | clear (i : Nat)
  | destruct (i : Nat)
  deriving DecidableEq, Repr

def step (limits : PoolLimits) (s : ThriftConnectionPool) :
    ThriftAction → Option (Except ThriftFault ThriftConnectionPool)
  | .get host newClient => (s.initConnectionMap host).getLoop limits host newClient
  | .wake k =>
    match s.cond.wakeSpuriously k with
    | none => none
    | some cond => some (.ok { s with cond := cond })
  | .resume w k newClient =>
    match s.cond.resume w k with
    | none => none
    | some (host, cond) => { s with cond := cond }.getLoop limits host newClient
  | .timeout k =>
    match s.cond.waiting[k]? with
    | none => none
    | some _ => some (.ok { s with
        cond := { s.cond with waiting := s.cond.waiting.eraseIdx k } })
  -- the time was up before the thread had the mutex again
  | .expire w k =>
    match s.cond.resume w k with
    | none => none
    | some (_, cond) => some (.ok { s with cond := cond })
  | .destroy i =>
    match s.handles[i]? with
    | none => none
    | some a => s.destroy i a
  | .clear i =>
    match s.handles[i]? with
    | none => none
    | some a => if a.phase = .destroying then some (.ok (s.setPhase i a .cleared)) else none
  | .destruct i =>
    match s.handles[i]? with
    | none => none
    | some a => s.destruct i a

/-! ### The accounts -/

def Has (s : ThriftConnectionPool) (host : Host) (c : Nat) : Prop :=
  c ∈ s.idle host ∨ c ∈ s.active host

def total (s : ThriftConnectionPool) : Nat := ∑ host ∈ s.activeKeys, s.count host

/-- Every allocated client is at one place, and the counter and the limits are right. -/
structure Accounts (limits : PoolLimits) (s : ThriftConnectionPool) : Prop where
  keys : s.idleKeys = s.activeKeys
  absent : ∀ host, host ∉ s.activeKeys → s.idle host = [] ∧ s.active host = ∅
  nodup : ∀ host, (s.idle host).Nodup
  apart : ∀ host c, c ∈ s.idle host → c ∉ s.active host
  one_host : ∀ host₁ host₂ c, s.Has host₁ c → s.Has host₂ c → host₁ = host₂
  live : ∀ c, c ∈ s.live ↔ ∃ host, s.Has host c
  counted : s.totalConn.toNat = s.total
  total_le : s.totalConn ≤ limits.maxConn
  host_le : ∀ host, s.count host ≤ limits.maxConnPerHost.toNat

theorem Accounts.init (limits : PoolLimits) : init.Accounts limits where
  keys := rfl
  absent := fun _ _ => ⟨rfl, rfl⟩
  nodup := fun _ => List.nodup_nil
  apart := fun _ _ h => by cases h
  one_host := fun _ _ _ h => by
    rcases h with h | h
    · cases h
    · exact absurd h (Finset.notMem_empty _)
  live := by
    intro c
    constructor
    · intro h
      exact absurd h (Finset.notMem_empty _)
    · rintro ⟨host, h | h⟩
      · cases h
      · exact absurd h (Finset.notMem_empty _)
  counted := rfl
  total_le := UInt32.le_iff_toNat_le.mpr (Nat.zero_le _)
  host_le := fun _ => Nat.zero_le _

theorem total_change {s t : ThriftConnectionPool} {host : Host} (hk : t.activeKeys = s.activeKeys)
    (hmem : host ∈ s.activeKeys) (hsame : ∀ h, h ≠ host → t.count h = s.count h) :
    t.total + s.count host = s.total + t.count host := by
  have hs := Finset.add_sum_erase s.activeKeys s.count hmem
  have ht := Finset.add_sum_erase s.activeKeys t.count hmem
  have hrest : ∑ h ∈ s.activeKeys.erase host, t.count h =
      ∑ h ∈ s.activeKeys.erase host, s.count h := by
    apply Finset.sum_congr rfl
    intro h hh
    exact hsame h (Finset.ne_of_mem_erase hh)
  unfold total
  rw [hk]
  omega

theorem initConnectionMap_eq {limits : PoolLimits} {s : ThriftConnectionPool}
    (hs : s.Accounts limits) (host : Host) :
    s.initConnectionMap host =
      { s with idleKeys := insert host s.activeKeys, activeKeys := insert host s.activeKeys } := by
  have hidle : (if host ∈ s.idleKeys then s.idle else Function.update s.idle host []) = s.idle := by
    split
    · rfl
    next h =>
      rw [hs.keys] at h
      conv => rhs; rw [← Function.update_eq_self host s.idle, (hs.absent host h).1]
  have hactive : (if host ∈ s.activeKeys then s.active else Function.update s.active host ∅) =
      s.active := by
    split
    · rfl
    next h => conv => rhs; rw [← Function.update_eq_self host s.active, (hs.absent host h).2]
  rw [ThriftConnectionPool.initConnectionMap, hidle, hactive, hs.keys]

theorem Accounts.initConnectionMap {limits : PoolLimits} {s : ThriftConnectionPool}
    (hs : s.Accounts limits) (host : Host) : (s.initConnectionMap host).Accounts limits := by
  rw [initConnectionMap_eq hs host]
  refine { hs with keys := rfl, absent := ?_, counted := ?_ }
  · intro h hh
    exact hs.absent h fun hmem => hh (Finset.mem_insert_of_mem hmem)
  · rw [hs.counted]
    by_cases hmem : host ∈ s.activeKeys
    · exact congrArg (fun k => ∑ h ∈ k, s.count h) (Finset.insert_eq_of_mem hmem).symm
    · have hzero : s.count host = 0 := by
        rw [count, (hs.absent host hmem).1, (hs.absent host hmem).2]
        rfl
      change s.total = ∑ h ∈ insert host s.activeKeys, s.count h
      rw [Finset.sum_insert hmem, hzero, Nat.zero_add]
      rfl

/-- One host's clients become `l` and `A`. -/
theorem Accounts.change {limits : PoolLimits} {s t : ThriftConnectionPool} (hs : s.Accounts limits)
    {host : Host} (hmem : host ∈ s.activeKeys) {l : List Nat} {A : Finset Nat}
    (hk : t.activeKeys = s.activeKeys) (hk' : t.idleKeys = s.idleKeys)
    (hi : t.idle = Function.update s.idle host l)
    (ha : t.active = Function.update s.active host A) (hnodup : l.Nodup)
    (hapart : ∀ c ∈ l, c ∉ A) (hhas : ∀ c, c ∈ l ∨ c ∈ A → ∀ h, s.Has h c → h = host)
    (hlive : ∀ c, c ∈ t.live ↔ (c ∈ l ∨ c ∈ A) ∨ ∃ h, h ≠ host ∧ s.Has h c)
    (hcount : t.totalConn.toNat + s.count host = s.totalConn.toNat + (l.length + A.card))
    (hmax : t.totalConn ≤ limits.maxConn)
    (hhost : l.length + A.card ≤ limits.maxConnPerHost.toNat) : t.Accounts limits := by
  have hat : t.idle host = l ∧ t.active host = A := by
    rw [hi, ha, Function.update_self, Function.update_self]
    exact ⟨rfl, rfl⟩
  have hoff : ∀ h, h ≠ host → t.idle h = s.idle h ∧ t.active h = s.active h := by
    intro h hne
    rw [hi, ha, Function.update_of_ne hne, Function.update_of_ne hne]
    exact ⟨rfl, rfl⟩
  have hHat : ∀ c, t.Has host c ↔ c ∈ l ∨ c ∈ A := by
    intro c
    rw [Has, hat.1, hat.2]
  have hHoff : ∀ h c, h ≠ host → (t.Has h c ↔ s.Has h c) := by
    intro h c hne
    rw [Has, Has, (hoff h hne).1, (hoff h hne).2]
  have hcat : t.count host = l.length + A.card := by
    rw [count, hat.1, hat.2]
  have hcoff : ∀ h, h ≠ host → t.count h = s.count h := by
    intro h hne
    rw [count, count, (hoff h hne).1, (hoff h hne).2]
  constructor
  · rw [hk, hk', hs.keys]
  · intro h hh
    rw [hk] at hh
    have hne : h ≠ host := fun he => hh (he ▸ hmem)
    rw [(hoff h hne).1, (hoff h hne).2]
    exact hs.absent h hh
  · intro h
    by_cases he : h = host
    · rw [he, hat.1]
      exact hnodup
    · rw [(hoff h he).1]
      exact hs.nodup h
  · intro h c hc
    by_cases he : h = host
    · rw [he, hat.1] at hc
      rw [he, hat.2]
      exact hapart c hc
    · rw [(hoff h he).1] at hc
      rw [(hoff h he).2]
      exact hs.apart h c hc
  · intro h₁ h₂ c hc₁ hc₂
    by_cases he₁ : h₁ = host <;> by_cases he₂ : h₂ = host
    · rw [he₁, he₂]
    · rw [he₁, hHat] at hc₁
      exact absurd (hhas c hc₁ h₂ ((hHoff h₂ c he₂).mp hc₂)) he₂
    · rw [he₂, hHat] at hc₂
      exact absurd (hhas c hc₂ h₁ ((hHoff h₁ c he₁).mp hc₁)) he₁
    · exact hs.one_host h₁ h₂ c ((hHoff h₁ c he₁).mp hc₁) ((hHoff h₂ c he₂).mp hc₂)
  · intro c
    rw [hlive c]
    constructor
    · rintro (hc | ⟨h, hne, hc⟩)
      · exact ⟨host, (hHat c).mpr hc⟩
      · exact ⟨h, (hHoff h c hne).mpr hc⟩
    · rintro ⟨h, hc⟩
      by_cases he : h = host
      · rw [he, hHat] at hc
        exact .inl hc
      · exact .inr ⟨h, he, (hHoff h c he).mp hc⟩
  · have hsum := total_change hk hmem hcoff
    rw [hcat, ← hs.counted] at hsum
    omega
  · exact hmax
  · intro h
    by_cases he : h = host
    · rw [he, hcat]
      exact hhost
    · rw [hcoff h he]
      exact hs.host_le h

theorem Accounts.move {limits : PoolLimits} {s t : ThriftConnectionPool} (hs : s.Accounts limits)
    {host : Host} (hmem : host ∈ s.activeKeys) {l : List Nat} {A : Finset Nat}
    (hk : t.activeKeys = s.activeKeys) (hk' : t.idleKeys = s.idleKeys)
    (hi : t.idle = Function.update s.idle host l)
    (ha : t.active = Function.update s.active host A) (hl : t.live = s.live)
    (hn : t.totalConn = s.totalConn) (hnodup : l.Nodup) (hapart : ∀ c ∈ l, c ∉ A)
    (hsame : ∀ c, c ∈ l ∨ c ∈ A ↔ s.Has host c) (hcount : l.length + A.card = s.count host) :
    t.Accounts limits := by
  refine hs.change hmem hk hk' hi ha hnodup hapart ?_ ?_ ?_ ?_ ?_
  · intro c hc h hh
    exact hs.one_host h host c hh ((hsame c).mp hc)
  · intro c
    rw [hl, hs.live c, hsame c]
    constructor
    · rintro ⟨h, hc⟩
      by_cases he : h = host
      · exact .inl (he ▸ hc)
      · exact .inr ⟨h, he, hc⟩
    · rintro (hc | ⟨h, -, hc⟩)
      · exact ⟨host, hc⟩
      · exact ⟨h, hc⟩
  · rw [hn, hcount]
  · rw [hn]
    exact hs.total_le
  · rw [hcount]
    exact hs.host_le host

theorem Accounts.reuse {limits : PoolLimits} {s : ThriftConnectionPool} (hs : s.Accounts limits)
    {host : Host} (hmem : host ∈ s.activeKeys) {c : Nat} {rest : List Nat}
    (hidle : s.idle host = c :: rest) : (s.reuse host c rest).Accounts limits := by
  have hnodup := hs.nodup host
  rw [hidle, List.nodup_cons] at hnodup
  have hnot : c ∉ s.active host := hs.apart host c (by rw [hidle]; exact List.mem_cons_self)
  refine hs.move hmem rfl rfl rfl rfl rfl rfl hnodup.2 ?_ ?_ ?_
  · intro d hd hins
    rcases Finset.mem_insert.mp hins with rfl | hact
    · exact hnodup.1 hd
    · exact hs.apart host d (by rw [hidle]; exact List.mem_cons_of_mem _ hd) hact
  · intro d
    rw [Has, hidle, List.mem_cons, Finset.mem_insert]
    tauto
  · rw [Finset.card_insert_of_notMem hnot, count, hidle, List.length_cons]
    omega

theorem Accounts.create {limits : PoolLimits} {s : ThriftConnectionPool} (hs : s.Accounts limits)
    {host : Host} (hmem : host ∈ s.activeKeys) {c : Nat} (hnew : c ∉ s.live)
    (hhost : UInt32.ofNat (s.count host) < limits.maxConnPerHost)
    (htotal : s.totalConn < limits.maxConn) : (s.create host c).Accounts limits := by
  have hnone : ∀ h, ¬ s.Has h c := fun h hc => hnew ((hs.live c).mpr ⟨h, hc⟩)
  have hnot : c ∉ s.active host := fun hc => hnone host (.inr hc)
  have hcard := Finset.card_insert_of_notMem hnot
  have hlimit := hs.host_le host
  have hlt : s.count host < limits.maxConnPerHost.toNat := by
    have hsmall := limits.maxConnPerHost.toNat_lt
    have h := UInt32.lt_iff_toNat_lt.mp hhost
    rw [UInt32.toNat_ofNat_of_lt' (Nat.lt_of_le_of_lt hlimit hsmall)] at h
    exact h
  have hnext : (s.totalConn + 1).toNat = s.totalConn.toNat + 1 := by
    have hsmall := limits.maxConn.toNat_lt
    have h := UInt32.lt_iff_toNat_lt.mp htotal
    rw [UInt32.toNat_add]
    change (s.totalConn.toNat + 1) % 2 ^ 32 = _
    omega
  refine hs.change (l := s.idle host) hmem rfl rfl (Function.update_eq_self host s.idle).symm rfl
    (hs.nodup host) ?_ ?_ ?_ ?_ ?_ ?_
  · intro d hd hins
    rcases Finset.mem_insert.mp hins with rfl | hact
    · exact hnone host (.inl hd)
    · exact hs.apart host d hd hact
  · intro d hd h hh
    rw [Finset.mem_insert] at hd
    rcases hd with hd | rfl | hd
    · exact hs.one_host h host d hh (.inl hd)
    · exact absurd hh (hnone h)
    · exact hs.one_host h host d hh (.inr hd)
  · intro d
    change d ∈ insert c s.live ↔ _
    rw [Finset.mem_insert, Finset.mem_insert, hs.live d]
    constructor
    · rintro (rfl | ⟨h, hd⟩)
      · exact .inl (.inr (.inl rfl))
      · by_cases he : h = host
        · rcases he ▸ hd with hd | hd
          · exact .inl (.inl hd)
          · exact .inl (.inr (.inr hd))
        · exact .inr ⟨h, he, hd⟩
    · rintro ((hd | rfl | hd) | ⟨h, -, hd⟩)
      · exact .inr ⟨host, .inl hd⟩
      · exact .inl rfl
      · exact .inr ⟨host, .inr hd⟩
      · exact .inr ⟨h, hd⟩
  · change (s.totalConn + 1).toNat + s.count host = _
    rw [hnext, hcard, count]
    omega
  · have h := UInt32.lt_iff_toNat_lt.mp htotal
    apply UInt32.le_iff_toNat_le.mpr
    change (s.totalConn + 1).toNat ≤ _
    omega
  · rw [hcard]
    unfold count at hlt
    omega

theorem Accounts.returnConnection {limits : PoolLimits} {s : ThriftConnectionPool}
    (hs : s.Accounts limits) {host : Host} {c : Nat} (hc : c ∈ s.active host) :
    ∃ t, s.returnConnection c host = .ok t ∧ t.Accounts limits ∧
      t = { s with
        idle := Function.update s.idle host (c :: s.idle host),
        active := Function.update s.active host ((s.active host).erase c),
        cond := s.cond.notifyAll } := by
  have hmem : host ∈ s.activeKeys := by
    by_contra hno
    rw [(hs.absent host hno).2] at hc
    exact Finset.notMem_empty _ hc
  have hmem' : host ∈ s.idleKeys := by
    rw [hs.keys]
    exact hmem
  have hnot : c ∉ s.idle host := fun h => hs.apart host c h hc
  refine ⟨_, ?_, ?_, rfl⟩
  · rw [ThriftConnectionPool.returnConnection, if_pos hmem, check_ok hmem']
    rfl
  · refine hs.move hmem rfl rfl rfl rfl rfl rfl (List.nodup_cons.mpr ⟨hnot, hs.nodup host⟩) ?_ ?_ ?_
    · intro d hd hact
      obtain ⟨hne, hact⟩ := Finset.mem_erase.mp hact
      rcases List.mem_cons.mp hd with rfl | hd
      · exact hne rfl
      · exact hs.apart host d hd hact
    · intro d
      rw [Has, List.mem_cons, Finset.mem_erase]
      by_cases hdc : d = c
      · rw [hdc]
        tauto
      · tauto
    · have hpos := Finset.card_pos.mpr ⟨c, hc⟩
      rw [List.length_cons, Finset.card_erase_of_mem hc, count]
      omega

/-- `destroy_connection` of an active client frees it and counts it off. -/
theorem Accounts.destroyConnection {limits : PoolLimits} {s : ThriftConnectionPool}
    (hs : s.Accounts limits) {host : Host} {c : Nat} (hc : c ∈ s.active host) :
    ∃ t, s.destroyConnection c host = .ok t ∧ t.Accounts limits ∧
      t = { s with
        active := Function.update s.active host ((s.active host).erase c),
        live := s.live.erase c,
        totalConn := s.totalConn - 1 } := by
  have hmem : host ∈ s.activeKeys := by
    by_contra hno
    rw [(hs.absent host hno).2] at hc
    exact Finset.notMem_empty _ hc
  have hlive : c ∈ s.live := (hs.live c).mpr ⟨host, .inr hc⟩
  have hpos := Finset.card_pos.mpr ⟨c, hc⟩
  have hone : 1 ≤ s.totalConn.toNat := by
    have hsum := Finset.add_sum_erase s.activeKeys s.count hmem
    have hcount : 1 ≤ s.count host := by
      unfold count
      omega
    rw [hs.counted, total]
    omega
  have hprev : (s.totalConn - 1).toNat = s.totalConn.toNat - 1 :=
    UInt32.toNat_sub_of_le _ _ (UInt32.le_iff_toNat_le.mpr hone)
  refine ⟨_, ?_, ?_, rfl⟩
  · rw [ThriftConnectionPool.destroyConnection, if_pos hmem, check_ok hlive]
    rfl
  · refine hs.change (l := s.idle host) hmem rfl rfl (Function.update_eq_self host s.idle).symm rfl
      (hs.nodup host) ?_ ?_ ?_ ?_ ?_ ?_
    · intro d hd hact
      exact hs.apart host d hd (Finset.mem_of_mem_erase hact)
    · intro d hd h hh
      rcases hd with hd | hd
      · exact hs.one_host h host d hh (.inl hd)
      · exact hs.one_host h host d hh (.inr (Finset.mem_of_mem_erase hd))
    · intro d
      change d ∈ s.live.erase c ↔ _
      rw [Finset.mem_erase, Finset.mem_erase, hs.live d]
      constructor
      · rintro ⟨hne, h, hd⟩
        by_cases he : h = host
        · rcases he ▸ hd with hd | hd
          · exact .inl (.inl hd)
          · exact .inl (.inr ⟨hne, hd⟩)
        · exact .inr ⟨h, he, hd⟩
      · rintro ((hd | ⟨hne, hd⟩) | ⟨h, hne, hd⟩)
        · exact ⟨fun he => hs.apart host d hd (he ▸ hc), host, .inl hd⟩
        · exact ⟨hne, host, .inr hd⟩
        · refine ⟨fun he => hne ?_, h, hd⟩
          exact hs.one_host h host d hd (he ▸ .inr hc)
    · change (s.totalConn - 1).toNat + s.count host = _
      rw [hprev, Finset.card_erase_of_mem hc, count]
      omega
    · have h := UInt32.le_iff_toNat_le.mp hs.total_le
      apply UInt32.le_iff_toNat_le.mpr
      change (s.totalConn - 1).toNat ≤ _
      omega
    · have h := hs.host_le host
      unfold count at h
      rw [Finset.card_erase_of_mem hc]
      omega

/-! ### The handles -/

/-- A handle's client is active for its host, and no other handle has it. -/
structure Holders (s : ThriftConnectionPool) : Prop where
  held : ∀ (i : Nat) (a : ThriftConnection), s.handles[i]? = some a → a.phase = .held →
    a.client ∈ s.active a.host
  once : ∀ (i j : Nat) (a b : ThriftConnection), s.handles[i]? = some a →
    s.handles[j]? = some b → a.phase = .held → b.phase = .held → a.client = b.client → i = j

theorem Holders.init : init.Holders where
  held := fun _ _ h => by cases h
  once := fun _ _ _ _ h => by cases h

theorem getElem?_concat {α : Type} {l : List α} {x a : α} {i : Nat}
    (h : (l ++ [x])[i]? = some a) : l[i]? = some a ∨ i = l.length ∧ a = x := by
  rcases Nat.lt_trichotomy i l.length with hlt | heq | hgt
  · rw [List.getElem?_append_left hlt] at h
    exact .inl h
  · rw [heq, List.getElem?_concat_length] at h
    exact .inr ⟨heq, (Option.some.inj h).symm⟩
  · rw [List.getElem?_eq_none (by rw [List.length_append, List.length_singleton]; omega)] at h
    cases h

theorem Holders.give {s t : ThriftConnectionPool} (hs : s.Holders) {host : Host} {c : Nat}
    (hnew : ∀ h, c ∉ s.active h)
    (ha : t.active = Function.update s.active host (insert c (s.active host)))
    (hh : t.handles = s.handles ++ [⟨c, host, .held⟩]) : t.Holders := by
  have hold : ∀ h, s.active h ⊆ t.active h := by
    intro h
    rw [ha]
    by_cases he : h = host
    · rw [he, Function.update_self]
      exact Finset.subset_insert _ _
    · rw [Function.update_of_ne he]
  constructor
  · intro i a hi hp
    rw [hh] at hi
    rcases getElem?_concat hi with hi | ⟨-, rfl⟩
    · exact hold _ (hs.held i a hi hp)
    · rw [ha, Function.update_self]
      exact Finset.mem_insert_self _ _
  · intro i j a b hi hj hpa hpb hcl
    rw [hh] at hi hj
    rcases getElem?_concat hi with hi | ⟨hi', rfl⟩ <;>
      rcases getElem?_concat hj with hj | ⟨hj', rfl⟩
    · exact hs.once i j a b hi hj hpa hpb hcl
    · have := hs.held i a hi hpa
      rw [hcl] at this
      exact absurd this (hnew _)
    · have := hs.held j b hj hpb
      rw [← hcl] at this
      exact absurd this (hnew _)
    · rw [hi', hj']

theorem getElem?_setPhase {s : ThriftConnectionPool} {i j : Nat} {a b : ThriftConnection}
    {p : HandlePhase} (hp : p ≠ .held) (h : (s.setPhase i a p).handles[j]? = some b)
    (hb : b.phase = .held) : j ≠ i ∧ s.handles[j]? = some b := by
  change (s.handles.set i _)[j]? = some b at h
  by_cases hji : j = i
  · rw [hji, List.getElem?_set_self'] at h
    cases hget : s.handles[i]? with
    | none =>
      rw [hget] at h
      cases h
    | some c =>
      rw [hget] at h
      cases h
      exact absurd hb hp
  · rw [List.getElem?_set_ne (Ne.symm hji)] at h
    exact ⟨hji, h⟩

/-- A handle gives its client up. -/
theorem Holders.drop {s t : ThriftConnectionPool} (hs : s.Holders) {i : Nat} {a : ThriftConnection}
    (hi : s.handles[i]? = some a) (ha : a.phase = .held) {p : HandlePhase} (hp : p ≠ .held)
    (hact : t.active = Function.update s.active a.host ((s.active a.host).erase a.client))
    (hh : t.handles = s.handles) : (t.setPhase i a p).Holders := by
  have hback : ∀ (j : Nat) (b : ThriftConnection), (t.setPhase i a p).handles[j]? = some b →
      b.phase = .held → j ≠ i ∧ s.handles[j]? = some b := by
    intro j b hj hb
    rw [← hh]
    exact getElem?_setPhase hp hj hb
  constructor
  · intro j b hj hb
    obtain ⟨hji, hj⟩ := hback j b hj hb
    have hmem := hs.held j b hj hb
    change b.client ∈ t.active b.host
    rw [hact]
    by_cases he : b.host = a.host
    · rw [he] at hmem
      rw [he, Function.update_self]
      refine Finset.mem_erase.mpr ⟨?_, hmem⟩
      intro hcl
      exact hji (hs.once j i b a hj hi hb ha hcl)
    · rw [Function.update_of_ne he]
      exact hmem
  · intro j k b c hj hk hb hc hcl
    exact hs.once j k b c (hback j b hj hb).2 (hback k c hk hc).2 hb hc hcl

theorem Holders.phase {s : ThriftConnectionPool} (hs : s.Holders) {i : Nat} (a : ThriftConnection)
    {p : HandlePhase} (hp : p ≠ .held) : (s.setPhase i a p).Holders := by
  constructor
  · intro j b hj hb
    exact hs.held j b (getElem?_setPhase hp hj hb).2 hb
  · intro j k b c hj hk hb hc hcl
    exact hs.once j k b c (getElem?_setPhase hp hj hb).2 (getElem?_setPhase hp hk hc).2 hb hc hcl

/-! ### Every action -/

/- The accounts and the handles are the same, up to new empty entries in the maps. -/
structure SameAccounts (s t : ThriftConnectionPool) : Prop where
  keys : s.activeKeys ⊆ t.activeKeys ∧ s.idleKeys ⊆ t.idleKeys
  idle : t.idle = s.idle
  active : t.active = s.active
  totalConn : t.totalConn = s.totalConn
  handles : t.handles = s.handles
  live : t.live = s.live

def GaveOut (s t : ThriftConnectionPool) : Prop :=
  ∃ c host, t.handles = s.handles ++ [⟨c, host, .held⟩]

theorem getLoop_cases {limits : PoolLimits} {s : ThriftConnectionPool} {host : Host}
    {newClient : Option Nat} {x : Except ThriftFault ThriftConnectionPool}
    (hkeys : host ∈ s.idleKeys ∧ host ∈ s.activeKeys)
    (h : s.getLoop limits host newClient = some x) :
    (∃ c rest, s.idle host = c :: rest ∧ x = .ok (s.reuse host c rest)) ∨
    (s.idle host = [] ∧ UInt32.ofNat (s.count host) < limits.maxConnPerHost ∧
      s.totalConn < limits.maxConn ∧
      (newClient = none ∧ x = .ok s ∨ ∃ c, c ∉ s.live ∧ x = .ok (s.create host c))) ∨
    (s.idle host = [] ∧
      ¬ (UInt32.ofNat (s.count host) < limits.maxConnPerHost ∧ s.totalConn < limits.maxConn) ∧
      x = .ok { s with cond := s.cond.wait host }) := by
  unfold getLoop at h
  rw [if_pos hkeys] at h
  split at h
  next c rest hidle => cases h; exact .inl ⟨c, rest, hidle, rfl⟩
  next hidle =>
    split at h
    next hroom =>
      refine .inr (.inl ⟨hidle, hroom.1, hroom.2, ?_⟩)
      split at h
      · cases h
        exact .inl ⟨rfl, rfl⟩
      next c =>
        split at h
        · cases h
        next hnew => cases h; exact .inr ⟨c, hnew, rfl⟩
    next hroom => cases h; exact .inr (.inr ⟨hidle, hroom, rfl⟩)

/-- The accounts, the handles, and the entries of all hosts that somebody waits for. -/
structure Inv (limits : PoolLimits) (s : ThriftConnectionPool) : Prop where
  accounts : s.Accounts limits
  holders : s.Holders
  waiters : ∀ host ∈ s.cond.threads, host ∈ s.activeKeys

theorem Inv.init (limits : PoolLimits) : init.Inv limits where
  accounts := .init limits
  holders := .init
  waiters := fun _ h => by cases h

theorem Inv.initConnectionMap {limits : PoolLimits} {s : ThriftConnectionPool} (hs : s.Inv limits)
    (host : Host) : (s.initConnectionMap host).Inv limits := by
  have hinit := initConnectionMap_eq hs.accounts host
  refine ⟨hs.accounts.initConnectionMap host, ?_, ?_⟩
  · rw [hinit]
    exact ⟨hs.holders.held, hs.holders.once⟩
  · rw [hinit]
    intro h hh
    exact Finset.mem_insert_of_mem (hs.waiters h hh)

theorem Inv.getLoop {limits : PoolLimits} {s : ThriftConnectionPool} {host : Host}
    {newClient : Option Nat} {x : Except ThriftFault ThriftConnectionPool} (hs : s.Inv limits)
    (hmem : host ∈ s.activeKeys) (h : s.getLoop limits host newClient = some x) :
    ∃ t, x = .ok t ∧ t.Inv limits ∧ (GaveOut s t ∨ SameAccounts s t) := by
  have hkeys : host ∈ s.idleKeys ∧ host ∈ s.activeKeys := by
    rw [hs.accounts.keys]
    exact ⟨hmem, hmem⟩
  have hsame : SameAccounts s s := ⟨⟨subset_rfl, subset_rfl⟩, rfl, rfl, rfl, rfl, rfl⟩
  obtain ⟨c, rest, hidle, rfl⟩ | ⟨hidle, hhost, htotal, hx⟩ | ⟨-, -, rfl⟩ := getLoop_cases hkeys h
  · refine ⟨_, rfl, ⟨hs.accounts.reuse hmem hidle, ?_, hs.waiters⟩, .inl ⟨c, host, rfl⟩⟩
    refine hs.holders.give ?_ rfl rfl
    intro h hc
    have hfront : c ∈ s.idle host := by
      rw [hidle]
      exact List.mem_cons_self
    have he := hs.accounts.one_host h host c (.inr hc) (.inl hfront)
    exact hs.accounts.apart host c hfront (he ▸ hc)
  · rcases hx with ⟨-, rfl⟩ | ⟨c, hnew, rfl⟩
    · exact ⟨s, rfl, hs, .inr hsame⟩
    · refine ⟨_, rfl, ⟨hs.accounts.create hmem hnew hhost htotal, ?_, hs.waiters⟩,
        .inl ⟨c, host, rfl⟩⟩
      refine hs.holders.give ?_ rfl rfl
      intro h hc
      exact hnew ((hs.accounts.live c).mpr ⟨h, .inr hc⟩)
  · refine ⟨_, rfl, ⟨?_, ⟨hs.holders.held, hs.holders.once⟩, ?_⟩, .inr { hsame with }⟩
    · exact { hs.accounts with }
    · intro h hh
      rcases Condition.mem_threads_wait hh with hh | rfl
      · exact hs.waiters h hh
      · exact hmem

theorem Inv.cond {limits : PoolLimits} {s : ThriftConnectionPool} (hs : s.Inv limits)
    {cond : Condition Host} (h : ∀ host ∈ cond.threads, host ∈ s.cond.threads) :
    { s with cond := cond }.Inv limits where
  accounts := { hs.accounts with }
  holders := ⟨hs.holders.held, hs.holders.once⟩
  waiters := fun host hh => hs.waiters host (h host hh)

theorem SameAccounts.cond (s : ThriftConnectionPool) (cond : Condition Host) :
    SameAccounts s { s with cond := cond } :=
  ⟨⟨subset_rfl, subset_rfl⟩, rfl, rfl, rfl, rfl, rfl⟩

/- The actions of calls of `get_connection`. -/
def ThriftAction.isGet : ThriftAction → Bool
  | .get _ _ => true
  | .wake _ => true
  | .resume _ _ _ => true
  | .timeout _ => true
  | .expire _ _ => true
  | _ => false

theorem Inv.destroy {limits : PoolLimits} {s : ThriftConnectionPool} {i : Nat}
    {a : ThriftConnection} {x : Except ThriftFault ThriftConnectionPool} (hs : s.Inv limits)
    (hi : s.handles[i]? = some a) (h : s.destroy i a = some x) : ∃ t, x = .ok t ∧ t.Inv limits := by
  unfold ThriftConnectionPool.destroy at h
  split at h
  next hp =>
    cases h
    obtain ⟨t, ht, hacc, heq⟩ := hs.accounts.destroyConnection (hs.holders.held i a hi hp)
    refine ⟨t.setPhase i a .destroying, by rw [ht]; rfl, { hacc with }, ?_, ?_⟩
    · exact hs.holders.drop hi hp (by decide) (by rw [heq]) (by rw [heq])
    · rw [heq]
      exact hs.waiters
  · cases h
    exact ⟨s, rfl, hs⟩
  · cases h

theorem Inv.destruct {limits : PoolLimits} {s : ThriftConnectionPool} {i : Nat}
    {a : ThriftConnection} {x : Except ThriftFault ThriftConnectionPool} (hs : s.Inv limits)
    (hi : s.handles[i]? = some a) (h : s.destruct i a = some x) :
    ∃ t, x = .ok t ∧ t.Inv limits := by
  unfold ThriftConnectionPool.destruct at h
  split at h
  next hp =>
    cases h
    obtain ⟨t, ht, hacc, heq⟩ := hs.accounts.returnConnection (hs.holders.held i a hi hp)
    refine ⟨t.setPhase i a .destructed, by rw [ht]; rfl, { hacc with }, ?_, ?_⟩
    · exact hs.holders.drop hi hp (by decide) (by rw [heq]) (by rw [heq])
    · rw [heq]
      intro host hh
      exact hs.waiters host (Condition.mem_threads_notifyAll hh)
  · cases h
    exact ⟨_, rfl, { hs.accounts with }, hs.holders.phase a (by decide), hs.waiters⟩
  · cases h

/-- Every action keeps the invariant; one of `get_connection` that hands out nothing changes
no account. -/
theorem Inv.step {limits : PoolLimits} {s : ThriftConnectionPool} {a : ThriftAction}
    {x : Except ThriftFault ThriftConnectionPool} (hs : s.Inv limits)
    (h : s.step limits a = some x) :
    ∃ t, x = .ok t ∧ t.Inv limits ∧ (a.isGet = true → GaveOut s t ∨ SameAccounts s t) := by
  cases a with
  | get host newClient =>
    obtain ⟨t, ht, hinv, hres⟩ :=
      (hs.initConnectionMap host).getLoop (Finset.mem_insert_self _ _) h
    refine ⟨t, ht, hinv, fun _ => ?_⟩
    rw [initConnectionMap_eq hs.accounts host] at hres
    rcases hres with hgave | hsame
    · exact .inl hgave
    · refine .inr { hsame with keys := ⟨?_, ?_⟩ }
      · exact (Finset.subset_insert _ _).trans hsame.keys.1
      · rw [hs.accounts.keys]
        exact (Finset.subset_insert _ _).trans hsame.keys.2
  | wake k =>
    simp only [ThriftConnectionPool.step] at h
    split at h
    · cases h
    next cond hc =>
      cases h
      exact ⟨_, rfl, hs.cond fun _ hh => Condition.mem_threads_wakeSpuriously hc hh,
        fun _ => .inr (SameAccounts.cond s cond)⟩
  | resume w k newClient =>
    simp only [ThriftConnectionPool.step] at h
    split at h
    · cases h
    next host cond hc =>
      obtain ⟨hmem, hsub⟩ := Condition.mem_threads_resume hc
      obtain ⟨t, ht, hinv, hres⟩ := (hs.cond hsub).getLoop (hs.waiters host hmem) h
      refine ⟨t, ht, hinv, fun _ => ?_⟩
      rcases hres with hgave | hsame
      · exact .inl hgave
      · exact .inr { hsame with }
  | timeout k =>
    simp only [ThriftConnectionPool.step] at h
    split at h
    · cases h
    next host hk =>
      cases h
      refine ⟨_, rfl, hs.cond ?_, fun _ => .inr (SameAccounts.cond s _)⟩
      intro j hj
      simp only [Condition.threads, List.mem_append] at hj ⊢
      rcases hj with (hj | hj) | hj
      · exact .inl (.inl (List.mem_of_mem_eraseIdx hj))
      · exact .inl (.inr hj)
      · exact .inr hj
  | expire w k =>
    simp only [ThriftConnectionPool.step] at h
    split at h
    · cases h
    next host cond hc =>
      cases h
      exact ⟨_, rfl, hs.cond (Condition.mem_threads_resume hc).2,
        fun _ => .inr (SameAccounts.cond s cond)⟩
  | destroy i =>
    simp only [ThriftConnectionPool.step] at h
    split at h
    · cases h
    next a hi =>
      obtain ⟨t, ht, hinv⟩ := hs.destroy hi h
      exact ⟨t, ht, hinv, fun hget => by cases hget⟩
  | clear i =>
    simp only [ThriftConnectionPool.step] at h
    split at h
    · cases h
    next a hi =>
      split at h
      · cases h
        exact ⟨_, rfl, ⟨{ hs.accounts with }, hs.holders.phase a (by decide), hs.waiters⟩,
          fun hget => by cases hget⟩
      · cases h
  | destruct i =>
    simp only [ThriftConnectionPool.step] at h
    split at h
    · cases h
    next a hi =>
      obtain ⟨t, ht, hinv⟩ := hs.destruct hi h
      exact ⟨t, ht, hinv, fun hget => by cases hget⟩

end ThriftConnectionPool

def thriftConnectionPool (limits : PoolLimits) :
    Machine ThriftConnectionPool ThriftConnectionPool.ThriftAction ThriftFault where
  init := .init
  step := ThriftConnectionPool.step limits

namespace ThriftConnectionPool

/-- In every interleaving each allocated client is idle or active, for one host, and has at
most one holder; the counter is the number of clients and stays within the limits; and a
round of `get_connection` that hands out nothing changes no account. -/
theorem pool_accounting (limits : PoolLimits) (as : List ThriftAction)
    (x : Except ThriftFault ThriftConnectionPool)
    (h : (thriftConnectionPool limits).run .init as = some x) :
    ∃ t, x = .ok t ∧ (∀ c, c ∈ t.live ↔ ∃ host, t.Has host c) ∧
      (∀ host₁ host₂ c, t.Has host₁ c → t.Has host₂ c → host₁ = host₂) ∧
      (∀ host c, c ∈ t.idle host → c ∉ t.active host) ∧ (∀ host, (t.idle host).Nodup) ∧
      t.Holders ∧ t.totalConn.toNat = t.total ∧
      (∀ host, host ∉ t.activeKeys → t.idle host = [] ∧ t.active host = ∅) ∧
      t.totalConn ≤ limits.maxConn ∧
      (∀ host, t.count host ≤ limits.maxConnPerHost.toNat) ∧
      ∀ a u, t.step limits a = some (.ok u) → a.isGet = true → GaveOut t u ∨ SameAccounts t u := by
  have hstep : ∀ s a x, Inv limits s → (thriftConnectionPool limits).step s a = some x →
      ∃ t, x = .ok t ∧ Inv limits t := by
    intro s a x hs hx
    obtain ⟨t, ht, hinv, -⟩ := Inv.step hs hx
    exact ⟨t, ht, hinv⟩
  obtain ⟨t, ht, hinv⟩ := Machine.run_ok_all hstep (Inv.init limits) h
  have hacc := hinv.accounts
  refine ⟨t, ht, hacc.live, hacc.one_host, hacc.apart, hacc.nodup, hinv.holders, hacc.counted,
    hacc.absent, hacc.total_le, hacc.host_le, ?_⟩
  intro a u hu hget
  obtain ⟨v, hv, -, hres⟩ := hinv.step hu
  cases hv
  exact hres hget

/- Two hosts, at most one client each: the second call for the first host waits, its time is
up; the first client is destroyed and its handle goes, the second one is returned. -/
def twoHosts : List ThriftAction :=
  [.get (1, 80) (some 10), .get (1, 80) none, .get (2, 80) (some 11), .timeout 0, .destroy 0,
    .clear 0, .destruct 0, .get (3, 80) none, .destruct 1]

theorem pool_accounting_two_hosts :
    ∃ t, (thriftConnectionPool ⟨2, 1⟩).run .init twoHosts = some (.ok t) ∧
      t.live = {11} ∧ t.Has (2, 80) 11 ∧ t.totalConn = 1 ∧ t.totalConn.toNat = t.total ∧
      t.Holders := by
  have hrun : (thriftConnectionPool ⟨2, 1⟩).runsTo .init twoHosts
      (fun t => t.live == {11} && t.idle (2, 80) == [11] && t.totalConn == 1) = true := by
    decide +kernel
  obtain ⟨t, ht, htest⟩ := Machine.exists_of_runsTo hrun
  simp only [Bool.and_eq_true, beq_iff_eq] at htest
  obtain ⟨u, hu, -, -, -, -, hholders, hcount, -⟩ := pool_accounting ⟨2, 1⟩ twoHosts _ ht
  cases hu
  refine ⟨t, ht, htest.1.1, .inl ?_, htest.2, hcount, hholders⟩
  rw [htest.1.2]
  exact List.mem_singleton_self 11

end ThriftConnectionPool

end TstMuduo.Base
