import Mathlib.Data.List.Nodup
import TstMuduo.Lib.ListUpdate
import TstMuduo.Net.TcpClient

/-!
# One connection at a time

Whatever the threads of a client do, the connections come one after the other: each has a name
and a socket of its own, goes up and down once, and is removed before the connector starts on
the next one. The order of the functors in the loop matters: a connection is closed only after
the connector has reset the channel that found it.
-/

namespace TstMuduo.Net
open TstMuduo.Lib

namespace TcpClient

/-! ### The invariant -/

def queue (s : TcpClient) : List ClientFunctor := s.batch ++ s.pending

def connectors (q : List ClientFunctor) : List ConnectorFunctor := q.filterMap (·.connector?)

/-- A connection that the client has given up: it went down, and its `connectDestroyed` is
queued exactly as long as its channel is in the poller. -/
structure Past (queue : List ClientFunctor) (n : Nat) (c : ClientConn) : Prop where
  state : c.state = .kDisconnected
  enabled : c.enabled = false
  log : c.log = [true, false]
  destroyer : queue.count (.connectDestroyed n) = if c.registered then 1 else 0

/-- The connection that the client holds: it is up, or inside `handleClose`, and it was not
reported before its connector had reset the channel. -/
structure Current (queue : List ClientFunctor) (closing : Option Nat) (fresh up : Nat) (n : Nat)
    (c : ClientConn) : Prop where
  registered : c.registered = true
  destroyer : queue.count (.connectDestroyed n) = 0
  one : fresh + up = 1
  phase : (closing = none ∧ c.Up ∧ c.log = [true]) ∨
    (closing = some n ∧ c.state = .kDisconnected ∧ c.log = [true, false] ∧ 0 < up)
  enabled : c.enabled = true → c.Up
  polled : c.polled = true → 0 < up
  order : queue.Pairwise fun f g => f = .forceCloseInLoop n → g ≠ .connector .resetChannel

/-- How the client and the loop are tied to the connector. -/
structure Tied (s : TcpClient) : Prop where
  batch : connectors s.batch = s.connector.batch
  pending : connectors s.pending = s.connector.pending
  calm : s.connector.running = false → s.batch = []
  reset : 0 < s.connector.fresh →
    .resetChannel ∈ if s.connector.running then s.connector.batch else s.connector.pending
  nextConnId : s.nextConnId = s.conns.length + 1
  ids : s.conns.map (·.id) = (List.range s.conns.length).map (· + 1)
  sockets : ∀ k, (s.conns.map (·.sockfd)).count k = s.connector.passed k
  bound : ∀ n, .connectDestroyed n ∈ s.queue ∨ .forceCloseInLoop n ∈ s.queue → n < s.conns.length
  past : ∀ n c, s.conns[n]? = some c → s.connection ≠ some n → Past s.queue n c
  current : ∀ n, s.connection = some n → ∃ c, s.conns[n]? = some c ∧
    Current s.queue s.closing s.connector.fresh s.connector.up n c
  vacant : s.connection = none → s.connector.fresh + s.connector.up = 0 ∧ s.closing = none

structure Inv (s : TcpClient) : Prop where
  base : s.connector.Base
  single : s.connector.Single
  tied : s.Tied
  locked : ∀ n, s.shutting = some n → s.connection = some n
  once : s.again = none

theorem new_inv : new.Inv where
  base := Connector.new_base
  single := Connector.new_single
  tied :=
    { batch := rfl
      pending := rfl
      calm := fun _ => rfl
      reset := fun h => absurd h (Nat.lt_irrefl 0)
      nextConnId := rfl
      ids := rfl
      sockets := fun k => rfl
      bound := fun n h => by
        rcases h with h | h
        · cases h
        · cases h
      past := fun n c h => by cases h
      current := fun n h => by cases h
      vacant := fun _ => ⟨rfl, rfl⟩ }
  locked := fun n h => by cases h
  once := rfl

variable {s t : TcpClient} {c : Connector} {n : Nat} {conn : ClientConn}

/-! ### The connector's part of the queue -/

theorem connectors_append (q r : List ClientFunctor) :
    connectors (q ++ r) = connectors q ++ connectors r := List.filterMap_append

theorem connectors_map (news : List ConnectorFunctor) :
    connectors (news.map .connector) = news := by
  rw [connectors, List.filterMap_map]
  exact List.filterMap_some

theorem mem_connectors {q : List ClientFunctor} {f : ConnectorFunctor} :
    f ∈ connectors q ↔ .connector f ∈ q := by
  rw [connectors, List.mem_filterMap]
  constructor
  · rintro ⟨g, hg, hf⟩
    cases g with
    | connector f' =>
      cases hf
      exact hg
    | forceCloseInLoop _ | connectDestroyed _ => cases hf
  · intro h
    exact ⟨_, h, rfl⟩

theorem count_connectors (news : List ConnectorFunctor) (n : Nat) :
    (news.map ClientFunctor.connector).count (.connectDestroyed n) = 0 := by
  rw [List.count_eq_zero]
  intro hm
  obtain ⟨f, _, hf⟩ := List.mem_map.mp hm
  cases hf

theorem withConnector_eq {news : List ConnectorFunctor}
    (h : c.pending = s.connector.pending ++ news) :
    s.withConnector c =
      { s with connector := c, pending := s.pending ++ news.map .connector } := by
  rw [withConnector, h, List.drop_left]

/-! ### Past and current connections -/

section

variable {q r : List ClientFunctor} {closing : Option Nat} {fresh up : Nat}

theorem Past.append (h : Past q n conn) (hr : r.count (.connectDestroyed n) = 0) :
    Past (q ++ r) n conn :=
  ⟨h.state, h.enabled, h.log, by rw [List.count_append, hr]; exact h.destroyer⟩

theorem Current.append (h : Current q closing fresh up n conn)
    (hr : r.count (.connectDestroyed n) = 0) (hreset : .connector .resetChannel ∉ r) :
    Current (q ++ r) closing fresh up n conn where
  registered := h.registered
  destroyer := by rw [List.count_append, hr, h.destroyer]
  one := h.one
  phase := h.phase
  enabled := h.enabled
  polled := h.polled
  order := by
    have hnone : ∀ f : ClientFunctor, ∀ g ∈ r, f = .forceCloseInLoop n →
        g ≠ .connector .resetChannel := by
      intro f g hg _ he
      exact hreset (he ▸ hg)
    refine List.pairwise_append.mpr ⟨h.order, ?_, fun f _ g hg => hnone f g hg⟩
    exact List.pairwise_of_forall_mem_list fun f _ g hg => hnone f g hg

theorem Past.tail {f : ClientFunctor} (h : Past (f :: q) n conn) (hf : f ≠ .connectDestroyed n) :
    Past q n conn := by
  have hd := h.destroyer
  rw [List.count_cons_of_ne hf] at hd
  exact ⟨h.state, h.enabled, h.log, hd⟩

theorem Current.tail {f : ClientFunctor} (h : Current (f :: q) closing fresh up n conn) :
    Current q closing fresh up n conn where
  registered := h.registered
  destroyer := by
    have hd := h.destroyer
    rw [List.count_cons] at hd
    omega
  one := h.one
  phase := h.phase
  enabled := h.enabled
  polled := h.polled
  order := (List.pairwise_cons.mp h.order).2

end

theorem Tied.current_of_up (h : s.Tied) (hc : s.conns[n]? = some conn) (hup : conn.Up) :
    s.connection = some n ∧
      Current s.queue s.closing s.connector.fresh s.connector.up n conn := by
  have hcur : s.connection = some n := by
    by_contra hne
    have hst := (h.past n conn hc hne).state
    rcases hup with hu | hu
    · cases hst.symm.trans hu
    · cases hst.symm.trans hu
  obtain ⟨d, hd, hcurrent⟩ := h.current n hcur
  cases hc.symm.trans hd
  exact ⟨hcur, hcurrent⟩

/-! ### Steps of the connector -/

/-- A step of the connector that has to do with no connection. -/
theorem Tied.extends (h : s.Tied) {news : List ConnectorFunctor}
    (hext : Connector.Extends s.connector c news)
    (hwired : 0 < s.connector.fresh + s.connector.up → s.connector.state = .kConnected) :
    (s.withConnector c).Tied := by
  rw [withConnector_eq hext.pending]
  have hqueue : s.batch ++ (s.pending ++ news.map ClientFunctor.connector) =
      s.queue ++ news.map ClientFunctor.connector := (List.append_assoc _ _ _).symm
  refine ⟨h.batch.trans hext.batch.symm, ?_, ?_, ?_, h.nextConnId, h.ids, ?_, ?_, ?_, ?_, ?_⟩
  · show connectors (s.pending ++ news.map ClientFunctor.connector) = c.pending
    rw [connectors_append, connectors_map, h.pending, hext.pending]
  · intro hrun
    exact h.calm (hext.running.symm.trans hrun)
  · intro hfresh
    show _ ∈ if c.running then c.batch else c.pending
    have hreset := h.reset (by rw [← hext.fresh]; exact hfresh)
    rw [hext.running, hext.batch, hext.pending]
    split
    next hrun =>
      rw [if_pos hrun] at hreset
      exact hreset
    next hrun =>
      rw [if_neg hrun] at hreset
      exact List.mem_append_left _ hreset
  · intro k
    exact (h.sockets k).trans (by rw [hext.passed])
  · intro n hn
    refine h.bound n ?_
    change _ ∈ s.batch ++ (s.pending ++ news.map ClientFunctor.connector) ∨
      _ ∈ s.batch ++ (s.pending ++ news.map ClientFunctor.connector) at hn
    simpa [hqueue] using hn
  · intro n conn hconn hne
    have hp := (h.past n conn hconn hne).append (count_connectors news n)
    rw [← hqueue] at hp
    exact hp
  · intro n hn
    obtain ⟨conn, hconn, hc⟩ := h.current n hn
    have hreset : .connector .resetChannel ∉ news.map ClientFunctor.connector := by
      intro hm
      obtain ⟨f, hf, he⟩ := List.mem_map.mp hm
      cases he
      -- where there is a connection, the connector is not connecting
      cases (hwired (by rw [hc.one]; exact Nat.one_pos)).symm.trans (hext.reset hf)
    have hcur := hc.append (count_connectors news n) hreset
    rw [← hqueue, ← hext.fresh, ← hext.up] at hcur
    exact ⟨conn, hconn, hcur⟩
  · intro hn
    show c.fresh + c.up = 0 ∧ _
    rw [hext.fresh, hext.up]
    exact h.vacant hn

theorem Tied.connector_batch (h : s.Tied) {f : ConnectorFunctor} {batch : List ClientFunctor}
    (hb : s.batch = .connector f :: batch) : s.connector.batch = f :: connectors batch := by
  rw [← h.batch, hb]
  rfl

theorem Tied.pop (h : s.Tied) {f : ClientFunctor} {batch : List ClientFunctor}
    (hb : s.batch = f :: batch) {c : Connector} (hcb : c.batch = connectors batch)
    (hcp : c.pending = s.connector.pending) (hrun : c.running = s.connector.running)
    (hpass : c.passed = s.connector.passed)
    (hreset : 0 < c.fresh → c.running = true → .resetChannel ∈ c.batch)
    (hd : ∀ n, f ≠ .connectDestroyed n)
    (hone : c.fresh + c.up = s.connector.fresh + s.connector.up)
    (hup : s.connector.up ≤ c.up) :
    Tied { s with batch := batch, connector := c } := by
  have hqueue : s.queue = f :: (batch ++ s.pending) := by
    unfold queue
    rw [hb]
    rfl
  have hcalm := h.calm
  have hrunning : s.connector.running = true := by
    by_contra hn
    rw [hcalm (Bool.eq_false_iff.mpr hn)] at hb
    cases hb
  refine ⟨hcb.symm, h.pending.trans hcp.symm, ?_, ?_, h.nextConnId, h.ids, ?_, ?_, ?_, ?_, ?_⟩
  · intro hn
    cases (hrun.trans hrunning).symm.trans hn
  · intro hpos
    show _ ∈ if c.running then c.batch else c.pending
    rw [if_pos (hrun.trans hrunning)]
    exact hreset hpos (hrun.trans hrunning)
  · intro k
    exact (h.sockets k).trans (by rw [hpass])
  · intro n hn
    refine h.bound n ?_
    rw [hqueue]
    rcases hn with hn | hn
    · exact .inl (List.mem_cons_of_mem _ hn)
    · exact .inr (List.mem_cons_of_mem _ hn)
  · intro n conn hconn hne
    have hp := h.past n conn hconn hne
    rw [hqueue] at hp
    exact hp.tail (hd n)
  · intro n hn
    obtain ⟨conn, hconn, hc⟩ := h.current n hn
    rw [hqueue] at hc
    have ht := hc.tail
    refine ⟨conn, hconn, ht.registered, ht.destroyer, hone.trans ht.one, ?_, ht.enabled, ?_,
      ht.order⟩
    · rcases ht.phase with hp | ⟨h1, h2, h3, h4⟩
      · exact .inl hp
      · exact .inr ⟨h1, h2, h3, Nat.lt_of_lt_of_le h4 hup⟩
    · intro hp
      exact Nat.lt_of_lt_of_le (ht.polled hp) hup
  · intro hn
    have hv := h.vacant hn
    exact ⟨hone.trans hv.1, hv.2⟩

/-- `start` comes when no attempt is under way, what does not pass through the queue finds the
channel reset, and `nextConnId_` has a successor. `disconnect()` in another thread does not store
`kDisconnecting` over the `kDisconnected` of a `handleClose`, and no event of a connection is
both a hang-up without input and an end of file. -/
def Orderly (s : TcpClient) : ClientAct → Prop
  | .startPush => s.connector.Idle
  | .connect => s.connector.Idle ∧ s.connector.channel = none
  | .timer => s.connector.channel = none
  | .event _ _ => s.nextConnId + 1 ≤ intMax
  | .shutdownStore => s.closing = none
  | .close _ both => both = false
  | _ => True

instance (s : TcpClient) (a : ClientAct) : Decidable (s.Orderly a) :=
  match a with
  | .startPush => inferInstanceAs (Decidable s.connector.Idle)
  | .connect => inferInstanceAs (Decidable (_ ∧ _))
  | .timer => inferInstanceAs (Decidable (_ = _))
  | .event _ _ => inferInstanceAs (Decidable (_ ≤ _))
  | .shutdownStore => inferInstanceAs (Decidable (_ = _))
  | .close _ _ => inferInstanceAs (Decidable (_ = _))
  | .enableRetry | .connectStore | .connectorStart | .stopStore | .connectorStop | .stopPush
  | .disconnectStore | .shutdown | .stop | .disconnect | .forceClose _ | .readConnect
  | .connectTo _ | .closeCallback | .closeAgain | .beginFunctors | .runFunctor
  | .endFunctors => isTrue trivial

theorem connector_step (hbase : s.connector.Base) (hsingle : s.connector.Single)
    {a : Connector.ConnectorAct} (hg : s.connector.Orderly a)
    {x : Except Assertion Connector} (hx : s.connector.step true a = some x) :
    ∃ c, x = .ok c ∧ Connector.Step true s.connector a (.ok c) ∧ c.Base ∧ c.Single := by
  have hstep := Connector.step_sound hx
  obtain ⟨c, rfl, hc⟩ := hsingle.step hbase hg hstep
  exact ⟨c, rfl, hstep, hbase.step (hsingle.careful hstep) hstep rfl, hc⟩

theorem Inv.lift (h : s.Inv) {a : Connector.ConnectorAct} {x : Except ClientFault TcpClient}
    (hx : s.lift a = some x) (ha : a.isCall = true) (hg : s.connector.Orderly a) :
    ∃ t, x = .ok t ∧ t.Inv := by
  obtain ⟨y, hy, hxy⟩ := Option.map_eq_some_iff.mp hx
  obtain ⟨c, rfl, hstep, hbase, hsingle⟩ := connector_step h.base h.single hg hy
  obtain ⟨news, hext⟩ := hstep.extends ha
  exact ⟨_, hxy.symm, hbase, hsingle, h.tied.extends hext h.single.wired, h.locked, h.once⟩

/-! ### Connections -/

/-- `newConnectionCallback_`, at the end of an attempt. -/
theorem Inv.newConnection (h : s.Inv) (hid : s.nextConnId + 1 ≤ intMax) {sockfd : Nat}
    (hpass : Connector.Passes s.connector c sockfd) (hrun : s.connector.running = false)
    (hbase : c.Base) (hsingle : c.Single) :
    ∃ t, (s.withConnector c).newConnection sockfd = .ok t ∧ t.Inv := by
  have hne : s.connector.state ≠ .kConnected := by
    rw [hpass.connecting]
    decide
  obtain ⟨hfresh, hup⟩ := h.single.no_connection hne
  have hnone : s.connection = none := by
    by_contra hsome
    obtain ⟨n, hn⟩ := Option.ne_none_iff_exists'.mp hsome
    obtain ⟨_, _, hc⟩ := h.tied.current n hn
    have := hc.one
    omega
  have hqueue : s.batch ++ (s.pending ++ [ClientFunctor.connector .resetChannel]) =
      s.queue ++ [.connector .resetChannel] := (List.append_assoc _ _ _).symm
  rw [withConnector_eq hpass.pending]
  unfold TcpClient.newConnection
  rw [check_ok hid]
  refine ⟨_, rfl, hbase, hsingle, ?_, ?_, h.once⟩
  swap
  · intro n hn
    cases hnone.symm.trans (h.locked n hn)
  have hlt : ∀ n, .connectDestroyed n ∈ s.queue ∨ .forceCloseInLoop n ∈ s.queue →
      n ≠ s.conns.length := fun n hn => Nat.ne_of_lt (h.tied.bound n hn)
  refine ⟨h.tied.batch.trans hpass.batch.symm, ?_, ?_, ?_, ?_, ?_, ?_, ?_, ?_, ?_, ?_⟩
  · show connectors (s.pending ++ [_]) = c.pending
    rw [connectors_append, h.tied.pending, hpass.pending]
    rfl
  · intro hcrun
    exact h.tied.calm hrun
  · intro _
    show _ ∈ if c.running then c.batch else c.pending
    rw [hpass.running, hrun, hpass.pending]
    exact List.mem_append_right _ (List.mem_singleton_self _)
  · show s.nextConnId + 1 = (s.conns ++ [_]).length + 1
    rw [h.tied.nextConnId, List.length_append, List.length_singleton]
  · show (s.conns ++ [_]).map _ = (List.range (s.conns ++ [_]).length).map _
    rw [List.map_append, h.tied.ids, List.length_append, List.length_singleton, List.range_succ,
      List.map_append, List.map_singleton, List.map_singleton, h.tied.nextConnId]
    rfl
  · intro k
    show ((s.conns ++ [_]).map _).count k = c.passed k
    rw [List.map_append, List.count_append, h.tied.sockets, hpass.passed, List.map_singleton,
      List.count_singleton]
    by_cases hk : k = sockfd
    · rw [hk, Function.update_self]
      simp
    · rw [Function.update_of_ne hk]
      simp [Ne.symm hk]
  · intro n hn
    change _ ∈ s.batch ++ (s.pending ++ [_]) ∨ _ ∈ s.batch ++ (s.pending ++ [_]) at hn
    show n < (s.conns ++ [_]).length
    rw [List.length_append]
    refine Nat.lt_of_lt_of_le (h.tied.bound n ?_) (Nat.le_add_right _ _)
    simpa [hqueue] using hn
  · intro n conn hconn hne
    change (s.conns ++ [_])[n]? = some conn at hconn
    have hold : n < s.conns.length := by
      rw [List.getElem?_append] at hconn
      split at hconn
      · assumption
      · rw [List.getElem?_singleton] at hconn
        split at hconn
        · exact absurd (congrArg some (show s.conns.length = n by omega)) hne
        · cases hconn
    rw [List.getElem?_append_left hold] at hconn
    have hp := (h.tied.past n conn hconn (by rw [hnone]; simp)).append
      (r := [.connector .resetChannel]) rfl
    rw [← hqueue] at hp
    exact hp
  · intro n hn
    cases hn
    refine ⟨_, List.getElem?_concat_length, rfl, ?_, ?_, ?_, fun _ => .inl rfl, ?_, ?_⟩
    · show (s.batch ++ (s.pending ++ [_])).count _ = 0
      rw [hqueue, List.count_append, List.count_eq_zero.mpr fun hm => hlt _ (.inl hm) rfl]
      rfl
    · show c.fresh + c.up = 1
      rw [hpass.fresh, hpass.up]
      omega
    · exact .inl ⟨(h.tied.vacant hnone).2, .inl rfl, rfl⟩
    · intro hp
      cases hp
    · show (s.batch ++ (s.pending ++ [_])).Pairwise _
      rw [hqueue]
      refine List.pairwise_append.mpr ⟨?_, List.pairwise_singleton _ _, ?_⟩
      · refine List.pairwise_of_forall_mem_list fun f hf g _ he => ?_
        exact absurd rfl (hlt _ (.inr (he ▸ hf)))
      · intro f hf g _ he
        exact absurd rfl (hlt _ (.inr (he ▸ hf)))
  · intro hn
    cases hn

/-- The connection that the client holds takes a step, and may queue its own functors. -/
theorem Tied.setCurrent (h : s.Tied) (hn : s.connection = some n) (hc : s.conns[n]? = some conn)
    {d : ClientConn} (hid : d.id = conn.id) (hsockfd : d.sockfd = conn.sockfd)
    {closing : Option Nat} {news : List ClientFunctor}
    (hnews : ∀ f ∈ news, f = .forceCloseInLoop n)
    (hcur : Current (s.queue ++ news) closing s.connector.fresh s.connector.up n d) :
    Tied { s with
      conns := s.conns.set n d
      closing := closing
      pending := s.pending ++ news } := by
  have hqueue : s.batch ++ (s.pending ++ news) = s.queue ++ news := (List.append_assoc _ _ _).symm
  have hlt := (List.getElem?_eq_some_iff.mp hc).1
  refine ⟨h.batch, ?_, h.calm, h.reset, ?_, ?_, ?_, ?_, ?_, ?_, ?_⟩
  · show connectors (s.pending ++ news) = s.connector.pending
    have hnil : connectors news = [] := by
      refine List.filterMap_eq_nil_iff.mpr fun f hf => ?_
      rw [hnews f hf]
      rfl
    rw [connectors_append, h.pending, hnil, List.append_nil]
  · rw [List.length_set]
    exact h.nextConnId
  · rw [map_set_same hc hid, List.length_set]
    exact h.ids
  · rw [map_set_same hc hsockfd]
    exact h.sockets
  · intro m hm
    rw [List.length_set]
    change _ ∈ s.batch ++ (s.pending ++ news) ∨ _ ∈ s.batch ++ (s.pending ++ news) at hm
    rw [hqueue, List.mem_append, List.mem_append] at hm
    rcases hm with (hm | hm) | (hm | hm)
    · exact h.bound m (.inl hm)
    · cases hnews _ hm
    · exact h.bound m (.inr hm)
    · cases hnews _ hm
      exact hlt
  · intro m e he hne
    have hmn : n ≠ m := fun heq => hne (heq ▸ hn)
    change (s.conns.set n d)[m]? = some e at he
    rw [List.getElem?_set_ne hmn] at he
    have hzero : news.count (.connectDestroyed m) = 0 := by
      rw [List.count_eq_zero]
      intro hm
      cases hnews _ hm
    have hp := (h.past m e he hne).append hzero
    rw [← hqueue] at hp
    exact hp
  · intro m hm
    cases hn.symm.trans hm
    rw [← hqueue] at hcur
    exact ⟨d, List.getElem?_set_self hlt, hcur⟩
  · intro hnone
    cases hn.symm.trans hnone

theorem Inv.shutdown (h : s.Inv) : s.shutdown.Inv := by
  unfold TcpClient.shutdown
  split
  · exact h
  next n hn =>
    obtain ⟨conn, hconn, hc⟩ := h.tied.current n hn
    have hmod : s.conns.modify n ClientConn.shutdown = s.conns.set n conn.shutdown := by
      rw [List.modify_eq_set_getElem?, hconn]
      rfl
    have hsame : conn.shutdown.id = conn.id ∧ conn.shutdown.sockfd = conn.sockfd ∧
        conn.shutdown.registered = conn.registered ∧ conn.shutdown.polled = conn.polled ∧
        conn.shutdown.log = conn.log ∧ (conn.Up → conn.shutdown.Up) ∧
        (conn.state = .kDisconnected → conn.shutdown.state = .kDisconnected) ∧
        conn.shutdown.enabled = conn.enabled := by
      unfold ClientConn.shutdown
      split
      next hst =>
        refine ⟨rfl, rfl, rfl, rfl, rfl, fun _ => .inr rfl, ?_, rfl⟩
        intro hd
        cases hst.symm.trans hd
      · exact ⟨rfl, rfl, rfl, rfl, rfl, id, id, rfl⟩
    obtain ⟨hid, hsockfd, hreg, hpolled, hlog, hup, hdown, hen⟩ := hsame
    have hcur : Current (s.queue ++ []) s.closing s.connector.fresh s.connector.up n
        conn.shutdown := by
      rw [List.append_nil]
      refine ⟨hreg.trans hc.registered, hc.destroyer, hc.one, ?_,
        fun he => hup (hc.enabled (hen.symm.trans he)), ?_, hc.order⟩
      · rcases hc.phase with ⟨h1, h2, h3⟩ | ⟨h1, h2, h3, h4⟩
        · exact .inl ⟨h1, hup h2, hlog.trans h3⟩
        · exact .inr ⟨h1, hdown h2, hlog.trans h3, h4⟩
      · rw [hpolled]
        exact hc.polled
    have ht := h.tied.setCurrent hn hconn hid hsockfd (List.forall_mem_nil _) hcur
    rw [List.append_nil, ← hmod] at ht
    exact ⟨h.base, h.single, ht, h.locked, h.once⟩

theorem Tied.flags (h : s.Tied) (retry connect : Bool) (connecting stopping disconnecting : Nat)
    (shutting again : Option Nat) :
    Tied { s with
      retry := retry
      connect := connect
      connecting := connecting
      stopping := stopping
      disconnecting := disconnecting
      shutting := shutting
      again := again } :=
  ⟨h.batch, h.pending, h.calm, h.reset, h.nextConnId, h.ids, h.sockets, h.bound, h.past, h.current,
    h.vacant⟩

theorem Inv.shutdownTest (h : s.Inv) : Inv { s with shutting := s.shutdownTest } where
  base := h.base
  single := h.single
  tied := h.tied.flags _ _ _ _ _ _ _
  locked _ hn := (Option.filter_eq_some_iff.mp hn).1
  once := h.once

theorem Inv.shutdownStore (h : s.Inv) (hs : s.shutting = some n) (hclosing : s.closing = none) :
    (s.shutdownStore n).Inv := by
  have hn := h.locked n hs
  obtain ⟨conn, hconn, hc⟩ := h.tied.current n hn
  have hlog : conn.log = [true] := by
    rcases hc.phase with ⟨_, _, hl⟩ | ⟨hsome, _⟩
    · exact hl
    · cases hclosing.symm.trans hsome
  have hcur : Current (s.queue ++ []) s.closing s.connector.fresh s.connector.up n
      { conn with state := .kDisconnecting } := by
    rw [List.append_nil]
    exact ⟨hc.registered, hc.destroyer, hc.one, .inl ⟨hclosing, .inr rfl, hlog⟩,
      fun _ => .inr rfl, hc.polled, hc.order⟩
  have ht := h.tied.setCurrent (d := { conn with state := .kDisconnecting }) hn hconn rfl rfl
    (List.forall_mem_nil _) hcur
  have hmod : s.conns.modify n (fun c => { c with state := .kDisconnecting }) =
      s.conns.set n { conn with state := .kDisconnecting } := by
    rw [List.modify_eq_set_getElem?, hconn]
    rfl
  rw [List.append_nil, ← hmod] at ht
  exact ⟨h.base, h.single, ht.flags _ _ _ _ _ _ _, fun m hm => (by cases hm), h.once⟩

theorem Inv.forceClose (h : s.Inv) (n : Nat) : (s.forceClose n).Inv := by
  unfold TcpClient.forceClose
  split
  · exact h
  next conn hconn =>
    split
    next hup =>
      obtain ⟨hn, hc⟩ := h.tied.current_of_up hconn hup
      have hold := hc.append (r := [.forceCloseInLoop n]) rfl (by simp)
      have hcur : Current (s.queue ++ [.forceCloseInLoop n]) s.closing s.connector.fresh
          s.connector.up n { conn with state := .kDisconnecting } := by
        refine ⟨hold.registered, hold.destroyer, hold.one, ?_, fun _ => .inr rfl, hold.polled,
          hold.order⟩
        rcases hold.phase with ⟨h1, _, h3⟩ | ⟨_, hst, _⟩
        · exact .inl ⟨h1, .inr rfl, h3⟩
        · rcases hup with hu | hu
          · cases hst.symm.trans hu
          · cases hst.symm.trans hu
      have ht := h.tied.setCurrent (d := { conn with state := .kDisconnecting }) hn hconn rfl rfl
        (fun f hf => List.mem_singleton.mp hf) hcur
      exact ⟨h.base, h.single, ht, h.locked, h.once⟩
    · exact h

theorem Inv.handleClose (h : s.Inv) (hconn : s.conns[n]? = some conn) (hup : conn.Up)
    (hpos : 0 < s.connector.up) : ∃ t, s.handleClose n conn = .ok t ∧ t.Inv := by
  obtain ⟨hn, hc⟩ := h.tied.current_of_up hconn hup
  have hlog : conn.log = [true] := by
    rcases hc.phase with ⟨_, _, hl⟩ | ⟨_, hst, _⟩
    · exact hl
    · rcases hup with hu | hu
      · cases hst.symm.trans hu
      · cases hst.symm.trans hu
  have hcur : Current (s.queue ++ []) (some n) s.connector.fresh s.connector.up n
      { conn with state := .kDisconnected, enabled := false, log := conn.log ++ [false] } := by
    rw [List.append_nil]
    exact ⟨hc.registered, hc.destroyer, hc.one, .inr ⟨rfl, rfl, by rw [hlog]; rfl, hpos⟩,
      fun he => (by cases he), hc.polled, hc.order⟩
  have ht := h.tied.setCurrent
    (d := { conn with state := .kDisconnected, enabled := false, log := conn.log ++ [false] })
    hn hconn rfl rfl (List.forall_mem_nil _) hcur
  rw [List.append_nil] at ht
  unfold TcpClient.handleClose ClientConn.handleClose
  rw [check_ok hup]
  exact ⟨_, rfl, h.base, h.single, ht, h.locked, h.once⟩

theorem Inv.pop (h : s.Inv) {f : ClientFunctor} {batch : List ClientFunctor}
    (hb : s.batch = f :: batch) (hf : f.connector? = none) (hd : ∀ n, f ≠ .connectDestroyed n) :
    Inv { s with batch := batch } := by
  have hcb : s.connector.batch = connectors batch := by
    rw [← h.tied.batch, hb, connectors, List.filterMap_cons_none hf]
    rfl
  have hreset : 0 < s.connector.fresh → s.connector.running = true →
      .resetChannel ∈ s.connector.batch := by
    intro hfresh hrun
    have hr := h.tied.reset hfresh
    rwa [if_pos hrun] at hr
  exact ⟨h.base, h.single,
    h.tied.pop hb hcb rfl rfl rfl hreset hd rfl (Nat.le_refl _), h.locked, h.once⟩

theorem Inv.runConnector (h : s.Inv) {f : ConnectorFunctor} {batch : List ClientFunctor}
    (hb : s.batch = .connector f :: batch) {x : Except ClientFault TcpClient}
    (hx : TcpClient.lift { s with batch := batch } .runFunctor = some x) :
    ∃ t, x = .ok t ∧ t.Inv := by
  obtain ⟨y, hy, hxy⟩ := Option.map_eq_some_iff.mp hx
  obtain ⟨c, rfl, hstep, hbase, hsingle⟩ :=
    connector_step (a := .runFunctor) h.base h.single trivial hy
  obtain ⟨f', cbatch, hcb, hcases⟩ := hstep.runFunctor_cases
  have hbatch := h.tied.connector_batch hb
  obtain ⟨rfl, rfl⟩ := List.cons.inj (hcb.symm.trans hbatch)
  have hd : ∀ n, ClientFunctor.connector f' ≠ .connectDestroyed n := fun n he => by cases he
  refine ⟨_, hxy.symm, hbase, hsingle, ?_, h.locked, h.once⟩
  rcases hcases with ⟨hne, news, hext⟩ | ⟨rfl, rfl⟩
  · have hreset : 0 < s.connector.fresh → s.connector.running = true →
        .resetChannel ∈ connectors batch := by
      intro hfresh hrun
      have hr := h.tied.reset hfresh
      rw [if_pos hrun, hcb] at hr
      rcases List.mem_cons.mp hr with he | hr
      · exact absurd he.symm hne
      · exact hr
    have hpop := h.tied.pop (c := { s.connector with batch := connectors batch }) hb rfl rfl rfl
      rfl hreset hd rfl (Nat.le_refl _)
    exact hpop.extends hext h.single.wired
  · have hpop := h.tied.pop
      (c := { s.connector with batch := connectors batch }.resetChannel) hb rfl rfl rfl rfl
      (fun hfresh => absurd hfresh (Nat.lt_irrefl 0)) hd
      (by show 0 + (s.connector.up + s.connector.fresh) = _; omega) (Nat.le_add_right _ _)
    have heq := withConnector_eq (s := { s with batch := batch })
      (c := { s.connector with batch := connectors batch }.resetChannel)
      (List.append_nil s.connector.pending).symm
    rw [List.map_nil, List.append_nil] at heq
    rw [heq]
    exact hpop

/-- `connectDestroyed` comes once, to a connection that is down. -/
theorem Inv.connectDestroyed (h : s.Inv) {batch : List ClientFunctor}
    (hb : s.batch = .connectDestroyed n :: batch) (hconn : s.conns[n]? = some conn) :
    ∃ d, conn.connectDestroyed = .ok d ∧ Inv ({ s with batch := batch }.setConn n d) := by
  have hqueue : s.queue = .connectDestroyed n :: (batch ++ s.pending) := by
    unfold queue
    rw [hb]
    rfl
  have hne : s.connection ≠ some n := by
    intro hn
    obtain ⟨_, _, hc⟩ := h.tied.current n hn
    have hzero := hc.destroyer
    rw [hqueue, List.count_cons_self] at hzero
    cases hzero
  have hp := h.tied.past n conn hconn hne
  have hcount := hp.destroyer
  rw [hqueue, List.count_cons_self] at hcount
  have hreg : (batch ++ s.pending).count (.connectDestroyed n) = 0 := by
    split at hcount
    · omega
    · omega
  have hlt := (List.getElem?_eq_some_iff.mp hconn).1
  have hsame : (s.conns.set n { conn with registered := false }).map (·.id) =
      s.conns.map (·.id) := map_set_same hconn rfl
  have hsame' : (s.conns.set n { conn with registered := false }).map (·.sockfd) =
      s.conns.map (·.sockfd) := map_set_same hconn rfl
  have hnot : ¬ conn.state = .kConnected := by
    rw [hp.state]
    decide
  refine ⟨{ conn with registered := false }, ?_, h.base, h.single, ?_, h.locked, h.once⟩
  · unfold ClientConn.connectDestroyed
    rw [if_neg hnot]
    simp only [check_ok hp.enabled, ok_bind]
    rfl
  refine ⟨?_, h.tied.pending, ?_, h.tied.reset, ?_, ?_, ?_, ?_, ?_, ?_, h.tied.vacant⟩
  · have hbatch := h.tied.batch
    rw [hb] at hbatch
    exact hbatch
  · intro hrun
    have hnil := h.tied.calm hrun
    rw [hb] at hnil
    cases hnil
  · show s.nextConnId = (s.conns.set n _).length + 1
    rw [List.length_set]
    exact h.tied.nextConnId
  · show (s.conns.set n _).map _ = (List.range (s.conns.set n _).length).map _
    rw [hsame, List.length_set]
    exact h.tied.ids
  · show ∀ k, ((s.conns.set n _).map _).count k = s.connector.passed k
    rw [hsame']
    exact h.tied.sockets
  · intro m hm
    show m < (s.conns.set n _).length
    rw [List.length_set]
    refine h.tied.bound m ?_
    rw [hqueue]
    rcases hm with hm | hm
    · exact .inl (List.mem_cons_of_mem _ hm)
    · exact .inr (List.mem_cons_of_mem _ hm)
  · intro m e he hm
    change (s.conns.set n _)[m]? = some e at he
    by_cases hmn : n = m
    · rw [← hmn, List.getElem?_set_self hlt] at he
      cases he
      exact ⟨hp.state, hp.enabled, hp.log, by rw [← hmn]; exact hreg⟩
    · rw [List.getElem?_set_ne hmn] at he
      have hpast := h.tied.past m e he hm
      rw [hqueue] at hpast
      exact hpast.tail fun heq => hmn (ClientFunctor.connectDestroyed.inj heq)
  · intro m hm
    obtain ⟨e, he, hc⟩ := h.tied.current m hm
    have hmn : n ≠ m := fun heq => hne (heq ▸ hm)
    rw [hqueue] at hc
    exact ⟨e, (List.getElem?_set_ne hmn).trans he, hc.tail⟩

/-- The connection that is inside `handleClose` is the one that the client holds. -/
theorem Inv.removeConnection (h : s.Inv) (hpc : s.connector.pc = .idle)
    (hfree : s.shutting = none) (hclosing : s.closing = some n) :
    ∃ t, s.removeConnection n = .ok t ∧ t.Inv := by
  have hlocked : ∀ m, s.shutting = some m → none = some m := fun m hm => by
    cases hfree.symm.trans hm
  have hcur : ∃ conn, s.connection = some n ∧ s.conns[n]? = some conn ∧
      Current s.queue s.closing s.connector.fresh s.connector.up n conn := by
    cases hm : s.connection with
    | none => cases hclosing.symm.trans (h.tied.vacant hm).2
    | some m =>
      obtain ⟨conn, hconn, hc⟩ := h.tied.current m hm
      have hmn : m = n := by
        rcases hc.phase with ⟨hnone, _⟩ | ⟨hsome, _⟩
        · cases hclosing.symm.trans hnone
        · exact Option.some.inj (hsome.symm.trans hclosing)
      subst hmn
      exact ⟨conn, rfl, hconn, hc⟩
  obtain ⟨conn, hn, hconn, hc⟩ := hcur
  obtain ⟨hst, hlog, hpos⟩ : conn.state = .kDisconnected ∧ conn.log = [true, false] ∧
      0 < s.connector.up := by
    rcases hc.phase with ⟨hnone, _⟩ | ⟨_, hrest⟩
    · cases hclosing.symm.trans hnone
    · exact hrest
  have hdisabled : conn.enabled = false := by
    by_contra hne
    rcases hc.enabled (Bool.eq_true_of_not_eq_false hne) with hu | hu
    · cases hst.symm.trans hu
    · cases hst.symm.trans hu
  have hone := hc.one
  have hqueue : s.batch ++ (s.pending ++ [.connectDestroyed n]) =
      s.queue ++ [.connectDestroyed n] := (List.append_assoc _ _ _).symm
  -- the client without the connection, whatever the connector does next
  have htied : ∀ c : Connector, c.batch = s.connector.batch → c.pending = s.connector.pending →
      c.running = s.connector.running → c.fresh = s.connector.fresh →
      c.up = s.connector.up - 1 → c.passed = s.connector.passed →
      Tied { s with
        connection := none
        closing := none
        pending := s.pending ++ [.connectDestroyed n]
        connector := c } := by
    intro c hcb hcp hcr hcf hcu hcpass
    refine ⟨h.tied.batch.trans hcb.symm, ?_, ?_, ?_, h.tied.nextConnId, h.tied.ids, ?_, ?_, ?_,
      fun m hm => (by cases hm), ?_⟩
    · show connectors (s.pending ++ [_]) = c.pending
      rw [connectors_append, h.tied.pending, hcp]
      exact List.append_nil _
    · intro hrun
      exact h.tied.calm (hcr.symm.trans hrun)
    · intro hfresh
      change 0 < c.fresh at hfresh
      omega
    · intro k
      exact (h.tied.sockets k).trans (by rw [hcpass])
    · intro m hm
      change _ ∈ s.batch ++ (s.pending ++ [_]) ∨ _ ∈ s.batch ++ (s.pending ++ [_]) at hm
      rw [hqueue, List.mem_append, List.mem_append] at hm
      rcases hm with (hm | hm) | (hm | hm)
      · exact h.tied.bound m (.inl hm)
      · cases List.mem_singleton.mp hm
        exact (List.getElem?_eq_some_iff.mp hconn).1
      · exact h.tied.bound m (.inr hm)
      · cases List.mem_singleton.mp hm
    · intro m e he _
      show Past (s.batch ++ (s.pending ++ [_])) m e
      rw [hqueue]
      by_cases hmn : m = n
      · subst hmn
        cases hconn.symm.trans he
        refine ⟨hst, hdisabled, hlog, ?_⟩
        rw [List.count_append, hc.destroyer, List.count_singleton_self, hc.registered]
        rfl
      · have hp := h.tied.past m e he fun heq => hmn (Option.some.inj (heq.symm.trans hn))
        refine hp.append ?_
        rw [List.count_singleton]
        simp [Ne.symm hmn]
    · intro _
      refine ⟨?_, rfl⟩
      show c.fresh + c.up = 0
      omega
  unfold TcpClient.removeConnection
  rw [check_ok hn]
  simp only [ok_bind]
  split
  · have hx : s.connector.step true .restart =
        some { s.connector with up := s.connector.up - 1 }.restart := if_pos ⟨hpc, fun _ => hpos⟩
    obtain ⟨c, hcx, _, hbase, hsingle⟩ :=
      connector_step (a := .restart) h.base h.single trivial hx
    rw [hcx]
    have hext := Connector.startInLoop_extends hcx
    have heq := withConnector_eq (c := c) (s := { s with
      connection := none
      closing := none
      pending := s.pending ++ [.connectDestroyed n]
      connector := { s.connector with up := s.connector.up - 1 } }) hext.pending
    rw [List.map_nil, List.append_nil] at heq
    refine ⟨_, rfl, ?_⟩
    rw [heq]
    exact ⟨hbase, hsingle, htied c hext.batch (hext.pending.trans (List.append_nil _)) hext.running
      hext.fresh hext.up hext.passed, hlocked, h.once⟩
  · have hx : s.connector.step true .down =
        some (.ok { s.connector with up := s.connector.up - 1 }) := if_pos ⟨hpc, hpos⟩
    obtain ⟨c, hcx, _, hbase, hsingle⟩ := connector_step (a := .down) h.base h.single trivial hx
    cases hcx
    exact ⟨_, rfl, hbase, hsingle, htied _ rfl rfl rfl rfl rfl rfl, hlocked, h.once⟩

/-! ### One step -/

theorem Inv.store (h : s.Inv) (retry connect : Bool) (connecting stopping disconnecting : Nat) :
    Inv { s with
      retry := retry
      connect := connect
      connecting := connecting
      stopping := stopping
      disconnecting := disconnecting } :=
  ⟨h.base, h.single, h.tied.flags _ _ _ _ _ _ _, h.locked, h.once⟩

theorem Inv.event (h : s.Inv) (hid : s.nextConnId + 1 ≤ intMax) {error : Bool}
    {write : Option WriteOutcome} {x : Except ClientFault TcpClient} (hx : s.step (.event error write) = some x) :
    ∃ t, x = .ok t ∧ t.Inv := by
  simp only [TcpClient.step] at hx
  split at hx
  next hfree =>
    obtain ⟨y, hy, hxy⟩ := Option.map_eq_some_iff.mp hx
    obtain ⟨c, rfl, hstep, hbase, hsingle⟩ :=
      connector_step (a := .event error write) h.base h.single trivial hy
    obtain ⟨hrun, hev⟩ := hstep.event_eq
    rcases Connector.handleEvent_cases hev.symm with ⟨news, hext⟩ | ⟨sockfd, hpass⟩
    · have hsame : ¬ s.connector.fresh < c.fresh := by
        rw [hext.fresh]
        exact Nat.lt_irrefl _
      simp only [if_neg hsame] at hxy
      exact ⟨_, hxy.symm, hbase, hsingle, h.tied.extends hext h.single.wired, h.locked, h.once⟩
    · have hmore : s.connector.fresh < c.fresh := by
        rw [hpass.fresh]
        exact Nat.lt_succ_self _
      simp only [if_pos hmore, hpass.channel] at hxy
      obtain ⟨t, ht, hinv⟩ := h.newConnection hid hpass hrun hbase hsingle
      exact ⟨t, hxy.symm.trans ht, hinv⟩
  · cases hx

theorem Tied.up_of_enabled (h : s.Tied) (hc : s.conns[n]? = some conn)
    (hen : conn.enabled = true) : conn.Up := by
  by_cases hn : s.connection = some n
  · obtain ⟨d, hd, hcur⟩ := h.current n hn
    cases hc.symm.trans hd
    exact hcur.enabled hen
  · cases (h.past n conn hc hn).enabled.symm.trans hen

theorem Inv.close (h : s.Inv) (n : Nat) {x : Except ClientFault TcpClient}
    (hx : s.step (.close n false) = some x) : ∃ t, x = .ok t ∧ t.Inv := by
  simp only [TcpClient.step] at hx
  split at hx
  · obtain ⟨conn, hconn, hxc⟩ := Option.map_eq_some_iff.mp hx
    obtain ⟨hget, hrep⟩ := Option.filter_eq_some_iff.mp hconn
    rw [Bool.and_eq_true] at hrep
    have hup := h.tied.up_of_enabled hget hrep.2
    obtain ⟨_, hc⟩ := h.tied.current_of_up hget hup
    have hs : Inv { s with again := none } :=
      ⟨h.base, h.single, h.tied.flags _ _ _ _ _ _ _, h.locked, rfl⟩
    obtain ⟨t, ht, hinv⟩ := hs.handleClose hget hup (hc.polled hrep.1)
    exact ⟨t, hxc.symm.trans ht, hinv⟩
  · cases hx

theorem Inv.runHead (h : s.Inv) (hrun : s.connector.running = true)
    {x : Except ClientFault TcpClient} (hx : s.runHead = some x) : ∃ t, x = .ok t ∧ t.Inv := by
  unfold TcpClient.runHead at hx
  split at hx
  · cases hx
  next f batch hb => exact h.runConnector hb hx
  next n batch hb =>
    split at hx
    · cases hx
    next conn hconn =>
      have hpop := h.pop hb rfl fun m hm => by cases hm
      split at hx
      next hup =>
        obtain ⟨_, hc⟩ := h.tied.current_of_up hconn hup
        -- no `resetChannel` is left behind the functor, so it has been run
        have hpos : 0 < s.connector.up := by
          have hone := hc.one
          by_contra hzero
          have hr := h.tied.reset (by omega)
          rw [if_pos hrun, ← h.tied.batch, mem_connectors, hb] at hr
          have hord := hc.order
          unfold queue at hord
          rw [hb, List.cons_append, List.pairwise_cons] at hord
          rcases List.mem_cons.mp hr with he | hr
          · cases he
          · exact hord.1 _ (List.mem_append_left _ hr) rfl rfl
        obtain ⟨t, ht, hinv⟩ := hpop.handleClose hconn hup hpos
        cases hx
        exact ⟨t, ht, hinv⟩
      · cases hx
        exact ⟨_, rfl, hpop⟩
  next n batch hb =>
    split at hx
    · cases hx
    next conn hconn =>
      obtain ⟨d, hd, hinv⟩ := h.connectDestroyed hb hconn
      rw [hd] at hx
      cases hx
      exact ⟨_, rfl, hinv⟩

theorem Inv.beginFunctors (h : s.Inv) {x : Except ClientFault TcpClient}
    (hx : s.step .beginFunctors = some x) : ∃ t, x = .ok t ∧ t.Inv := by
  simp only [TcpClient.step] at hx
  split at hx
  · obtain ⟨y, hy, hxy⟩ := Option.map_eq_some_iff.mp hx
    obtain ⟨c, rfl, hstep, hbase, hsingle⟩ :=
      connector_step (a := .beginFunctors) h.base h.single trivial hy
    generalize hok : Except.ok c = y at hstep
    cases hstep with
    | beginFunctors _ hrun =>
      cases hok
      have hnil := h.tied.calm hrun
      have hqueue : s.queue = s.pending ++ [] := by
        unfold queue
        rw [hnil, List.append_nil]
        rfl
      refine ⟨_, hxy.symm, hbase, hsingle, ⟨h.tied.pending, rfl, fun hr => (by cases hr), ?_,
        h.tied.nextConnId, h.tied.ids, h.tied.sockets, ?_, ?_, ?_, h.tied.vacant⟩, h.locked,
        h.once⟩
      · intro hfresh
        have hr := h.tied.reset hfresh
        rw [if_neg (by rw [hrun]; decide)] at hr
        exact hr
      · have hbound := h.tied.bound
        rw [hqueue] at hbound
        exact hbound
      · have hpast := h.tied.past
        rw [hqueue] at hpast
        exact hpast
      · have hcur := h.tied.current
        rw [hqueue] at hcur
        exact hcur
  · cases hx

theorem Inv.endFunctors (h : s.Inv) {x : Except ClientFault TcpClient}
    (hx : s.step .endFunctors = some x) : ∃ t, x = .ok t ∧ t.Inv := by
  simp only [TcpClient.step] at hx
  split at hx
  next hen =>
    obtain ⟨y, hy, hxy⟩ := Option.map_eq_some_iff.mp hx
    obtain ⟨c, rfl, hstep, hbase, hsingle⟩ :=
      connector_step (a := .endFunctors) h.base h.single trivial hy
    generalize hok : Except.ok c = y at hstep
    cases hstep with
    | endFunctors _ hrun hcb =>
      cases hok
      have hnone : ¬ 0 < s.connector.fresh := by
        intro hfresh
        have hr := h.tied.reset hfresh
        rw [if_pos hrun, hcb] at hr
        cases hr
      have hmap : ∀ {α : Type} (f : ClientConn → α), (∀ c, f { c with polled := true } = f c) →
          (s.conns.map fun conn => { conn with polled := true }).map f = s.conns.map f := by
        intro α f hf
        rw [List.map_map]
        exact List.map_congr_left fun c _ => hf c
      refine ⟨_, hxy.symm, hbase, hsingle, ⟨h.tied.batch, h.tied.pending, fun _ => hen.2,
        fun hfresh => absurd hfresh hnone, ?_, ?_, ?_, ?_, ?_, ?_, h.tied.vacant⟩, h.locked,
        h.once⟩
      · show s.nextConnId = (s.conns.map _).length + 1
        rw [List.length_map]
        exact h.tied.nextConnId
      · show (s.conns.map _).map _ = (List.range (s.conns.map _).length).map _
        rw [hmap (·.id) fun _ => rfl, List.length_map]
        exact h.tied.ids
      · show ∀ k, ((s.conns.map _).map _).count k = s.connector.passed k
        rw [hmap (·.sockfd) fun _ => rfl]
        exact h.tied.sockets
      · intro n hn
        show n < (s.conns.map _).length
        rw [List.length_map]
        exact h.tied.bound n hn
      · intro n e he hne
        change (s.conns.map _)[n]? = some e at he
        rw [List.getElem?_map] at he
        obtain ⟨conn, hconn, rfl⟩ := Option.map_eq_some_iff.mp he
        have hp := h.tied.past n conn hconn hne
        exact ⟨hp.state, hp.enabled, hp.log, hp.destroyer⟩
      · intro n hn
        obtain ⟨conn, hconn, hc⟩ := h.tied.current n hn
        have hone := hc.one
        refine ⟨{ conn with polled := true }, ?_, hc.registered, hc.destroyer, hone, hc.phase,
          hc.enabled, ?_, hc.order⟩
        · show (s.conns.map _)[n]? = _
          rw [List.getElem?_map, hconn]
          rfl
        · intro _
          show 0 < s.connector.up
          omega
  · cases hx

/-- One step of an orderly run. -/
theorem Inv.step (h : s.Inv) {a : ClientAct} (hg : s.Orderly a)
    {x : Except ClientFault TcpClient} (hx : s.step a = some x) : ∃ t, x = .ok t ∧ t.Inv := by
  cases a with
  | enableRetry | connectStore | stopStore | disconnectStore =>
    cases hx
    exact ⟨_, rfl, h.store _ _ _ _ _⟩
  | connectorStart | connectorStop =>
    simp only [TcpClient.step] at hx
    split at hx
    · exact (h.store _ _ _ _ _).lift hx rfl trivial
    · cases hx
  | startPush => exact h.lift hx rfl hg
  | stopPush | readConnect => exact h.lift hx rfl trivial
  | connectTo savedErrno => exact h.lift hx rfl trivial
  | shutdown =>
    simp only [TcpClient.step] at hx
    split at hx
    · cases hx
      exact ⟨_, rfl, h.shutdownTest.store _ _ _ _ _⟩
    · cases hx
  | shutdownStore =>
    obtain ⟨n, hn, rfl⟩ := Option.map_eq_some_iff.mp hx
    exact ⟨_, rfl, h.shutdownStore hn hg⟩
  | connect => exact (h.store _ _ _ _ _).lift hx rfl hg
  | stop => exact (h.store _ _ _ _ _).lift hx rfl trivial
  | disconnect =>
    simp only [TcpClient.step] at hx
    split at hx
    · cases hx
      exact ⟨_, rfl, (h.store _ _ _ _ _).shutdown⟩
    · cases hx
  | forceClose n =>
    cases hx
    exact ⟨_, rfl, h.forceClose n⟩
  | event error write => exact h.event hg hx
  | close n both =>
    cases (hg : both = false)
    exact h.close n hx
  | closeCallback =>
    simp only [TcpClient.step] at hx
    split at hx
    next hpc =>
      obtain ⟨n, hn, hxn⟩ := Option.map_eq_some_iff.mp hx
      obtain ⟨t, ht, hinv⟩ := h.removeConnection hpc.1 hpc.2 hn
      exact ⟨t, hxn.symm.trans ht, hinv⟩
    · cases hx
  | closeAgain =>
    simp only [TcpClient.step] at hx
    split at hx
    · rw [h.once] at hx
      cases hx
    · cases hx
  | timer =>
    simp only [TcpClient.step] at hx
    split at hx
    · exact h.lift hx rfl hg
    · cases hx
  | beginFunctors => exact h.beginFunctors hx
  | runFunctor =>
    simp only [TcpClient.step] at hx
    split at hx
    next hen => exact h.runHead hen.2 hx
    · cases hx
  | endFunctors => exact h.endFunctors hx

/-! ### Whole runs -/

/-- Every socket is the one of the attempt under way, or was closed once, or was passed on to one
connection, and there is at most one attempt. The connections have names and sockets of
their own, only the one that the client holds can be up, each goes up once and down once at
most, and is down, without events, before it is out of the poller; while the client holds one,
the connector tries to make no other. -/
structure Sound (s : TcpClient) : Prop where
  owned : Connector.Owned s.connector.created s.connector.closed s.connector.passed
    s.connector.holder
  passed : ∀ k, (s.conns.map (·.sockfd)).count k = s.connector.passed k
  one : s.connector.attempts ≤ 1
  names : (s.conns.map (·.id)).Nodup
  sockets : (s.conns.map (·.sockfd)).Nodup
  held : ∀ n c, s.conns[n]? = some c → c.state ≠ .kDisconnected → s.connection = some n
  log : ∀ c ∈ s.conns, c.log = if c.state = .kDisconnected then [true, false] else [true]
  removed : ∀ c ∈ s.conns, c.registered = false → c.state = .kDisconnected ∧ c.enabled = false
  alone : s.connection ≠ none →
    s.connector.timers = 0 ∧ .startInLoop ∉ s.connector.queue ∧ s.connector.pc = .idle

theorem passed_le (h : s.connector.Base) (k : Nat) : s.connector.passed k ≤ 1 := by
  by_cases hk : k < s.connector.created
  · by_cases hheld : s.connector.holder = some k
    · have := (h.owned.held k hheld).2.2
      omega
    · rcases h.owned.fate k hk hheld with hf | hf
      · omega
      · omega
  · have := (h.owned.later k (Nat.le_of_not_lt hk)).2
    omega

theorem Current.log_eq {queue : List ClientFunctor} {closing : Option Nat} {fresh up : Nat}
    (h : Current queue closing fresh up n conn) :
    conn.log = if conn.state = .kDisconnected then [true, false] else [true] := by
  rcases h.phase with ⟨_, hup, hl⟩ | ⟨_, hst, hl, _⟩
  · rw [if_neg (by rcases hup with hu | hu <;> rw [hu] <;> decide)]
    exact hl
  · rw [if_pos hst]
    exact hl

theorem Inv.sound (h : s.Inv) : s.Sound where
  owned := h.base.owned
  passed := h.tied.sockets
  one := h.single.one
  names := by
    rw [h.tied.ids]
    exact List.nodup_range.map Nat.succ_injective
  sockets := by
    rw [List.nodup_iff_count_le_one]
    intro k
    rw [h.tied.sockets]
    exact passed_le h.base k
  held n c hc hst := by
    by_contra hne
    exact hst (h.tied.past n c hc hne).state
  log c hc := by
    obtain ⟨n, hn⟩ := List.mem_iff_getElem?.mp hc
    by_cases hcur : s.connection = some n
    · obtain ⟨d, hd, hcurrent⟩ := h.tied.current n hcur
      cases hn.symm.trans hd
      exact hcurrent.log_eq
    · have hp := h.tied.past n c hn hcur
      rw [if_pos hp.state]
      exact hp.log
  removed c hc hreg := by
    obtain ⟨n, hn⟩ := List.mem_iff_getElem?.mp hc
    by_cases hcur : s.connection = some n
    · obtain ⟨d, hd, hcurrent⟩ := h.tied.current n hcur
      cases hn.symm.trans hd
      cases hreg.symm.trans hcurrent.registered
    · have hp := h.tied.past n c hn hcur
      exact ⟨hp.state, hp.enabled⟩
  alone hne := by
    obtain ⟨n, hn⟩ := Option.ne_none_iff_exists'.mp hne
    obtain ⟨_, _, hc⟩ := h.tied.current n hn
    refine h.single.alone ?_
    rw [h.single.wired (by rw [hc.one]; exact Nat.one_pos)]
    decide

/- Refused, connected, closed by the peer, connected again from inside `handleClose`, closed
by the user, and stopped from another thread. -/
def twoConnections : List ClientAct :=
  [.enableRetry, .connect, .readConnect, .connectTo .ECONNREFUSED, .timer, .readConnect,
    .connectTo .EINPROGRESS, .event false (some .connected), .beginFunctors, .runFunctor,
    .endFunctors, .disconnectStore, .shutdown, .shutdownStore, .connectStore, .close 0 false,
    .closeCallback, .readConnect, .connectTo .EINPROGRESS,
    .event false (some .connected), .forceClose 1, .beginFunctors, .runFunctor, .runFunctor,
    .runFunctor, .stopStore, .connectorStop, .stopPush, .closeCallback, .endFunctors]

end TcpClient

end TstMuduo.Net
