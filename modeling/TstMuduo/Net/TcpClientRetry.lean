import TstMuduo.Net.TcpClientRuns

/-!
# A client that is to stay connected

With `enableRetry` a client goes on after every loss of its connection. No attempt gets lost on
the way: a retry timer, a `startInLoop` under way, a socket that is connecting, or a connection.
-/

namespace TstMuduo.Net
open TstMuduo.Lib

def ConnectErrno.isFatal : ConnectErrno → Bool
  | .EACCES | .EPERM | .EAFNOSUPPORT | .EALREADY | .EBADF | .EFAULT | .ENOTSOCK | .other _ => true
  | _ => false

namespace Connector

variable {s t : Connector} {n : Nat}

/-- An attempt is under way or there is a connection, and nobody wants to stop. -/
structure Tries (s : Connector) : Prop where
  connect : s.connect = true
  busy : 0 < s.attempts
  wired : s.state = .kConnected → 0 < s.fresh + s.up
  quiet : .stopInLoop ∉ s.queue

/- The actions that neither stop the connector nor start it, nor end the attempts for good. -/
def ConnectorAct.persists : ConnectorAct → Bool
  | .readConnect | .event _ _ | .timer | .beginFunctors | .runFunctor | .endFunctors
  | .restart => true
  | .connect savedErrno => !savedErrno.isFatal
  | _ => false

theorem attempts_pos (h : s.state ≠ .kDisconnected ∨ s.pc ≠ .idle ∨ 0 < s.timers) :
    0 < s.attempts := by
  unfold attempts
  rcases h with h | h | h
  · rw [if_neg h]
    omega
  · rw [if_neg h]
    omega
  · omega

theorem tries_retry (s : Connector) (n : Nat) (hconnect : s.connect = true)
    (hquiet : .stopInLoop ∉ s.queue) : (s.retry n).Tries := by
  unfold retry
  rw [if_pos hconnect]
  exact ⟨hconnect, attempts_pos (.inr (.inr (Nat.succ_pos s.timers))), fun hc => (by cases hc),
    hquiet⟩

theorem quiet_left (h : .stopInLoop ∉ s.queue) (n : Nat) : .stopInLoop ∉ (s.left n).queue := by
  unfold left
  rw [queue_push, List.mem_append, List.mem_singleton]
  rintro (hm | hm)
  · exact h hm
  · cases hm

theorem tries_startInLoop (ht : s.startInLoop = .ok t) (hconnect : s.connect = true)
    (hquiet : .stopInLoop ∉ s.queue) : t.Tries := by
  unfold Connector.startInLoop check at ht
  split at ht
  next hst =>
    cases ht
    have hpc : ConnectorPc.startInLoop ≠ .idle := by decide
    exact ⟨hconnect, attempts_pos (.inr (.inl hpc)), fun hc => (by cases hst.symm.trans hc), hquiet⟩
  · cases ht

theorem Tries.handleError (h : s.Tries) (ht : s.handleError = .ok t) : t.Tries := by
  unfold Connector.handleError at ht
  split at ht
  · obtain ⟨x, hx, ht⟩ := bind_eq_ok ht
    cases ht
    unfold removeAndResetChannel at hx
    split at hx
    · cases hx
    next ch _ =>
      cases hx
      exact tries_retry (s.left ch.fd) ch.fd h.connect (quiet_left h.quiet ch.fd)
  · cases ht
    exact h

theorem Tries.handleWrite (h : s.Tries) {outcome : WriteOutcome}
    (ht : s.handleWrite outcome = .ok t) : t.Tries := by
  unfold Connector.handleWrite at ht
  split at ht
  · obtain ⟨x, hx, ht⟩ := bind_eq_ok ht
    unfold removeAndResetChannel at hx
    split at hx
    · cases hx
    next ch _ =>
      cases hx
      have hquiet := quiet_left h.quiet ch.fd
      cases outcome with
      | socketError | selfConnect =>
        cases ht
        exact tries_retry (s.left ch.fd) ch.fd h.connect hquiet
      | connected =>
        cases ht
        have hstate : ConnectorState.kConnected ≠ .kDisconnected := by decide
        split
        · refine ⟨h.connect, attempts_pos (.inl hstate), fun _ => ?_, hquiet⟩
          exact Nat.lt_of_lt_of_le (Nat.succ_pos s.fresh) (Nat.le_add_right _ _)
        next hn => exact absurd h.connect hn
  · obtain ⟨_, _, ht⟩ := bind_eq_ok ht
    cases ht
    exact h

theorem Tries.doConnect (h : s.Tries) {savedErrno : ConnectErrno}
    (hfatal : savedErrno.isFatal = false) (ht : s.doConnect savedErrno = .ok t) : t.Tries := by
  have hconnecting : ∀ {u}, s.opened.connecting s.created = .ok u → u.Tries := by
    intro u hu
    obtain ⟨_, _, hu⟩ := bind_eq_ok hu
    cases hu
    have hstate : ConnectorState.kConnecting ≠ .kDisconnected := by decide
    exact ⟨h.connect, attempts_pos (.inl hstate), fun hc => (by cases hc), h.quiet⟩
  have hretry : (s.opened.retry s.created).Tries :=
    tries_retry s.opened s.created h.connect h.quiet
  cases savedErrno with
  | none | EINPROGRESS | EINTR | EISCONN => exact hconnecting ht
  | EAGAIN | EADDRINUSE | EADDRNOTAVAIL | ECONNREFUSED | ENETUNREACH =>
    cases ht
    exact hretry
  | EACCES | EPERM | EAFNOSUPPORT | EALREADY | EBADF | EFAULT | ENOTSOCK | other _ => cases hfatal

theorem Tries.handleEvent (h : s.Tries) {error : Bool} {write : Option WriteOutcome}
    (ht : s.handleEvent error write = .ok t) : t.Tries := by
  obtain ⟨u, hu, hw⟩ := bind_eq_ok ht
  have hmid : u.Tries := by
    cases error with
    | true => exact h.handleError hu
    | false =>
      cases hu
      exact h
  cases write with
  | none =>
    cases hw
    exact hmid
  | some outcome => exact hmid.handleWrite hw

theorem Tries.of_queue (h : s.Tries) (hconnect : t.connect = s.connect)
    (htimers : t.timers = s.timers) (hqueue : t.queue = s.queue) (hpc : t.pc = s.pc)
    (hstate : t.state = s.state) (hconns : t.fresh + t.up = s.fresh + s.up) : t.Tries where
  connect := hconnect.trans h.connect
  busy := by
    have hbusy := h.busy
    unfold attempts at hbusy ⊢
    rw [htimers, hqueue, hpc, hstate]
    exact hbusy
  wired hc := by
    rw [hconns]
    exact h.wired (hstate.symm.trans hc)
  quiet := by
    rw [hqueue]
    exact h.quiet

theorem Tries.resetChannel (h : s.Tries) {batch : List ConnectorFunctor}
    (hq : s.queue = .resetChannel :: { s with batch := batch }.queue) :
    { s with batch := batch }.resetChannel.Tries where
  connect := h.connect
  busy := by
    have hbusy := h.busy
    unfold attempts at hbusy
    rw [hq, List.count_cons_of_ne (by decide)] at hbusy
    exact hbusy
  wired hc := by
    have hpos := h.wired hc
    show 0 < 0 + (s.up + s.fresh)
    omega
  quiet hm := h.quiet (hq ▸ List.mem_cons_of_mem _ hm)

theorem Tries.step (h : s.Tries) (hbase : s.Base) {a : ConnectorAct} (ha : a.persists = true)
    (hx : Step true s a (.ok t)) : t.Tries := by
  generalize hok : Except.ok t = x at hx
  cases hx with
  | readConnect hpc =>
    cases hok
    have hpc' : ConnectorPc.connect ≠ .idle := by decide
    refine ⟨h.connect, attempts_pos (.inr (.inl ?_)), h.wired, h.quiet⟩
    show (if s.connect then ConnectorPc.connect else .idle) ≠ .idle
    rw [if_pos h.connect]
    exact hpc'
  | connect savedErrno hpc =>
    refine h.doConnect ?_ hok.symm
    simpa [ConnectorAct.persists] using ha
  | event error write _ _ _ => exact h.handleEvent hok.symm
  | timer _ _ _ => exact tries_startInLoop hok.symm h.connect h.quiet
  | restart _ _ => exact tries_startInLoop hok.symm rfl h.quiet
  | beginFunctors _ hrun =>
    cases hok
    refine h.of_queue rfl rfl ?_ rfl rfl rfl
    unfold queue
    rw [hbase.calm hrun, List.append_nil]
    rfl
  | endFunctors _ _ _ =>
    cases hok
    exact h.of_queue rfl rfl rfl rfl rfl rfl
  | runFunctor f batch _ _ hb =>
    have hq : s.queue = f :: { s with batch := batch }.queue := by
      unfold queue
      rw [hb, List.cons_append]
    have hrest : .stopInLoop ∉ { s with batch := batch }.queue := fun hm =>
      h.quiet (hq ▸ List.mem_cons_of_mem _ hm)
    cases f with
    | startInLoop => exact tries_startInLoop hok.symm h.connect hrest
    | stopInLoop => exact absurd (hq ▸ List.mem_cons_self) h.quiet
    | resetChannel =>
      cases hok
      exact h.resetChannel hq
  | startStore | startPush _ | stopStore | stopPush _ | start _ | stop _ | down _ _ => cases ha

end Connector

namespace TcpClient

variable {s t : TcpClient} {n : Nat}

/- The actions that `ConnectorAct.persists` allows, and what happens to the connections. -/
def ClientAct.persists : ClientAct → Bool
  | .forceClose _ | .readConnect | .event _ _ | .close _ _ | .closeCallback | .closeAgain | .timer
  | .beginFunctors | .runFunctor | .endFunctors => true
  | .connectTo savedErrno => !savedErrno.isFatal
  | _ => false

structure Persists (s : TcpClient) : Prop where
  retry : s.retry = true
  connect : s.connect = true
  tries : s.connector.Tries

theorem Persists.lift (hp : s.Persists) (h : s.Inv) {a : Connector.ConnectorAct}
    (hx : s.lift a = some (.ok t)) (ha : a.persists = true) : t.Persists := by
  obtain ⟨y, hy, hxy⟩ := Option.map_eq_some_iff.mp hx
  cases y with
  | error e => cases hxy
  | ok c =>
    cases hxy
    exact ⟨hp.retry, hp.connect, hp.tries.step h.base ha (Connector.step_sound hy)⟩

theorem handleClose_ok {conn : ClientConn} (ht : s.handleClose n conn = .ok t) :
    t.retry = s.retry ∧ t.connect = s.connect ∧ t.connector = s.connector := by
  obtain ⟨d, _, ht⟩ := bind_eq_ok ht
  cases ht
  exact ⟨rfl, rfl, rfl⟩

theorem Persists.of_same (hp : s.Persists)
    (h : t.retry = s.retry ∧ t.connect = s.connect ∧ t.connector = s.connector) : t.Persists :=
  ⟨h.1.trans hp.retry, h.2.1.trans hp.connect, h.2.2 ▸ hp.tries⟩

theorem Persists.runHead (hp : s.Persists) (h : s.Inv) (hx : s.runHead = some (.ok t)) :
    t.Persists := by
  unfold TcpClient.runHead at hx
  split at hx
  · cases hx
  next batch _ =>
    obtain ⟨y, hy, hxy⟩ := Option.map_eq_some_iff.mp hx
    cases y with
    | error e => cases hxy
    | ok c =>
      cases hxy
      exact ⟨hp.retry, hp.connect, hp.tries.step h.base rfl (Connector.step_sound hy)⟩
  next n batch _ =>
    split at hx
    · cases hx
    next conn _ =>
      split at hx
      · have hsame := handleClose_ok (Option.some.inj hx)
        exact hp.of_same hsame
      · cases hx
        exact hp.of_same ⟨rfl, rfl, rfl⟩
  next n batch _ =>
    split at hx
    · cases hx
    next conn _ =>
      have hok := Option.some.inj hx
      cases hd : conn.connectDestroyed with
      | error e =>
        rw [hd] at hok
        cases hok
      | ok d =>
        rw [hd] at hok
        cases hok
        exact hp.of_same ⟨rfl, rfl, rfl⟩

theorem Persists.removeConnection (hp : s.Persists) (ht : s.removeConnection n = .ok t) :
    t.Persists := by
  unfold TcpClient.removeConnection at ht
  obtain ⟨_, _, ht⟩ := bind_eq_ok ht
  simp only [hp.retry, hp.connect, Bool.and_self, if_true] at ht
  split at ht
  next c hc =>
    cases ht
    exact ⟨rfl, rfl, Connector.tries_startInLoop hc rfl hp.tries.quiet⟩
  · cases ht

theorem Persists.step (hp : s.Persists) (h : s.Inv) {a : ClientAct} (ha : a.persists = true)
    (hx : s.step a = some (.ok t)) : t.Persists := by
  cases a with
  | readConnect => exact hp.lift h hx rfl
  | connectTo savedErrno => exact hp.lift h hx ha
  | forceClose n =>
    cases hx
    unfold TcpClient.forceClose
    split
    · exact hp
    · split
      · exact hp.of_same ⟨rfl, rfl, rfl⟩
      · exact hp
  | event error write =>
    simp only [TcpClient.step] at hx
    split at hx
    · obtain ⟨y, hy, hxy⟩ := Option.map_eq_some_iff.mp hx
      cases y with
      | error e => cases hxy
      | ok c =>
        have htries := hp.tries.step h.base rfl (Connector.step_sound hy)
        simp only at hxy
        split at hxy
        · obtain ⟨_, _, hxy⟩ := bind_eq_ok hxy
          obtain ⟨conn, _, hxy⟩ := bind_eq_ok hxy
          cases hxy
          exact ⟨hp.retry, hp.connect, htries⟩
        · cases hxy
          exact ⟨hp.retry, hp.connect, htries⟩
    · cases hx
  | close n both =>
    simp only [TcpClient.step] at hx
    split at hx
    · obtain ⟨conn, _, hxc⟩ := Option.map_eq_some_iff.mp hx
      have hsame := handleClose_ok hxc
      exact hp.of_same hsame
    · cases hx
  | closeAgain =>
    simp only [TcpClient.step] at hx
    split at hx
    · obtain ⟨n, _, hxn⟩ := Option.bind_eq_some_iff.mp hx
      obtain ⟨conn, _, hxc⟩ := Option.map_eq_some_iff.mp hxn
      have hsame := handleClose_ok hxc
      exact hp.of_same hsame
    · cases hx
  | closeCallback =>
    simp only [TcpClient.step] at hx
    split at hx
    · obtain ⟨n, _, hxn⟩ := Option.map_eq_some_iff.mp hx
      exact hp.removeConnection hxn
    · cases hx
  | timer =>
    simp only [TcpClient.step] at hx
    split at hx
    · exact hp.lift h hx rfl
    · cases hx
  | runFunctor =>
    simp only [TcpClient.step] at hx
    split at hx
    · exact hp.runHead h hx
    · cases hx
  | beginFunctors | endFunctors =>
    simp only [TcpClient.step] at hx
    split at hx
    · obtain ⟨y, hy, hxy⟩ := Option.map_eq_some_iff.mp hx
      cases y with
      | error e => cases hxy
      | ok c =>
        cases hxy
        exact ⟨hp.retry, hp.connect, hp.tries.step h.base rfl (Connector.step_sound hy)⟩
    · cases hx
  | enableRetry | connectStore | connectorStart | startPush | stopStore | connectorStop | stopPush
  | disconnectStore | shutdown | shutdownStore | connect | stop | disconnect => cases ha

/- Refused, connected, closed by the peer, and about to connect again. -/
def oneLoss : List ClientAct :=
  [.readConnect, .connectTo .ECONNREFUSED, .timer, .readConnect, .connectTo .EINPROGRESS,
    .event false (some .connected), .beginFunctors, .runFunctor, .endFunctors, .close 0 false,
    .closeCallback]

end TcpClient

end TstMuduo.Net
