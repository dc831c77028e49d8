import TstMuduo.Lib.CInt
import TstMuduo.Net.ConnectorRuns
import TstMuduo.Net.TcpConnection

/-!
# The client (muduo/net/TcpClient.cpp)

The client owns a connector and the connection that the connector made last. Both hand their
functors to one loop, which runs them in the order in which they came.
-/

namespace TstMuduo.Net
open TstMuduo.Lib

/- The asserts that a run of the client can come to, and the overflow of `nextConnId_`. -/
inductive ClientFault where
  | connector (e : Assertion)
  | connectEstablished
  | handleClose
  | removeConnection
  | channelRemove
  | overflow
  deriving DecidableEq, Repr

inductive ClientFunctor where
  | connector (f : ConnectorFunctor)
  | forceCloseInLoop (n : Nat)
  | connectDestroyed (n : Nat)
  deriving DecidableEq, Repr

def ClientFunctor.connector? : ClientFunctor → Option ConnectorFunctor
  | .connector f => some f
  | _ => none

/-- A connection of the client: the number in its name, its socket, its state, whether its
channel is in the poller and wants events, whether the loop has polled since, and what
`connected()` was at the calls of `connectionCallback_`. -/
structure ClientConn where
  id : Nat
  sockfd : Nat
  state : StateE
  registered : Bool
  enabled : Bool
  polled : Bool
  log : List Bool
  deriving DecidableEq, Repr

/- `connectEstablished` (`TcpConnection.cpp:397`). -/
def ClientConn.connectEstablished (c : ClientConn) : Except ClientFault ClientConn := do
  check (c.state = .kConnecting) .connectEstablished
  return { c with
    state := .kConnected
    registered := true
    enabled := true
    log := c.log ++ [true] }

def ClientConn.Up (c : ClientConn) : Prop := c.state = .kConnected ∨ c.state = .kDisconnecting

instance (c : ClientConn) : Decidable c.Up := inferInstanceAs (Decidable (_ ∨ _))

/- `handleClose` (`TcpConnection.cpp:545`) up to `closeCallback_`. -/
def ClientConn.handleClose (c : ClientConn) : Except ClientFault ClientConn := do
  check c.Up .handleClose
  return { c with state := .kDisconnected, enabled := false, log := c.log ++ [false] }

/- `connectDestroyed` (`TcpConnection.cpp:431`); `remove` wants a channel without events. -/
def ClientConn.connectDestroyed (c : ClientConn) : Except ClientFault ClientConn := do
  let d := if c.state = .kConnected then
      { c with state := .kDisconnected, enabled := false, log := c.log ++ [false] }
    else c
  check (d.enabled = false) .channelRemove
  return { d with registered := false }

def ClientConn.shutdown (c : ClientConn) : ClientConn :=
  if c.state = .kConnected then { c with state := .kDisconnecting } else c

/-- `conns` lists the connections as they were made; `closing` is the one whose `handleClose`
is between the two callbacks, and `again` the one whose event goes on to a second
`handleClose`. `connecting`, `stopping` and `disconnecting` count the calls of other threads
that have stored `connect_` of the client and no more, and `shutting` is the connection whose
`shutdown`, under the mutex, has tested the state and not stored it yet. -/
structure TcpClient where
  connector : Connector
  retry : Bool
  connect : Bool
  nextConnId : Nat
  connection : Option Nat
  conns : List ClientConn
  closing : Option Nat
  pending : List ClientFunctor
  batch : List ClientFunctor
  connecting : Nat
  stopping : Nat
  disconnecting : Nat
  shutting : Option Nat
  again : Option Nat

namespace TcpClient

/- `TcpClient(loop, serverAddr, nameArg)` (`TcpClient.cpp:46`). -/
def new : TcpClient where
  connector := .new
  retry := false
  connect := true
  nextConnId := 1
  connection := none
  conns := []
  closing := none
  pending := []
  batch := []
  connecting := 0
  stopping := 0
  disconnecting := 0
  shutting := none
  again := none

def withConnector (s : TcpClient) (c : Connector) : TcpClient :=
  { s with
    connector := c
    pending := s.pending ++ (c.pending.drop s.connector.pending.length).map .connector }

def setConn (s : TcpClient) (n : Nat) (c : ClientConn) : TcpClient :=
  { s with conns := s.conns.set n c }

/- `newConnection` (`TcpClient.cpp:124`). -/
def newConnection (s : TcpClient) (sockfd : Nat) : Except ClientFault TcpClient := do
  check (s.nextConnId + 1 ≤ intMax) .overflow
  let conn ← ClientConn.connectEstablished
    ⟨s.nextConnId, sockfd, .kConnecting, false, false, false, []⟩
  return { s with
    nextConnId := s.nextConnId + 1
    connection := some s.conns.length
    conns := s.conns ++ [conn] }

/- `disconnect` (`TcpClient.cpp:105`) behind its store, in the loop's thread. -/
def shutdown (s : TcpClient) : TcpClient :=
  match s.connection with
  | none => s
  | some n => { s with conns := s.conns.modify n ClientConn.shutdown }

/- The test of `shutdown`, in another thread. -/
def shutdownTest (s : TcpClient) : Option Nat :=
  s.connection.filter fun n => s.conns[n]?.any fun c => decide (c.state = .kConnected)

def shutdownStore (s : TcpClient) (n : Nat) : TcpClient :=
  { s with
    shutting := none
    conns := s.conns.modify n fun c => { c with state := .kDisconnecting } }

def forceClose (s : TcpClient) (n : Nat) : TcpClient :=
  match s.conns[n]? with
  | none => s
  | some c =>
    if c.Up then
      { s.setConn n { c with state := .kDisconnecting } with
        pending := s.pending ++ [.forceCloseInLoop n] }
    else s

def handleClose (s : TcpClient) (n : Nat) (c : ClientConn) : Except ClientFault TcpClient := do
  let d ← c.handleClose
  return { s.setConn n d with closing := some n }

/- `removeConnection` (`TcpClient.cpp:157`); the connection is a past one from here on. -/
def removeConnection (s : TcpClient) (n : Nat) : Except ClientFault TcpClient := do
  check (s.connection = some n) .removeConnection
  let t := { s with
    connection := none
    closing := none
    pending := s.pending ++ [.connectDestroyed n]
    connector := { s.connector with up := s.connector.up - 1 } }
  if s.retry && s.connect then
    match t.connector.restart with
    | .ok c => return t.withConnector c
    | .error e => .error (.connector e)
  else return t

def lift (s : TcpClient) (a : Connector.ConnectorAct) : Option (Except ClientFault TcpClient) :=
  (s.connector.step true a).map fun
    | .ok c => .ok (s.withConnector c)
    | .error e => .error (.connector e)

/-! ### Steps -/

inductive ClientAct where
  | enableRetry
  /- `connect()`, `stop()` and `disconnect()` in another thread -/
  | connectStore
  | connectorStart
  | startPush
  | stopStore
  | connectorStop
  | stopPush
  | disconnectStore
  | shutdown
  | shutdownStore
  /- calls in the loop's thread -/
  | connect
  | stop
  | disconnect
  | forceClose (n : Nat)
  /- inside `startInLoop` -/
  | readConnect
  | connectTo (savedErrno : ConnectErrno)
  /- the loop: the connector's channel, a hang-up or end of file of a connection (or both), the
  end of its `handleClose`, and the second one -/
  | event (error : Bool) (write : Option WriteOutcome)
  | close (n : Nat) (both : Bool)
  | closeCallback
  | closeAgain
  | timer
  | beginFunctors
  | runFunctor
  | endFunctors
  deriving DecidableEq, Repr

def Free (s : TcpClient) : Prop :=
  s.connector.pc = .idle ∧ s.closing = none ∧ s.again = none

instance (s : TcpClient) : Decidable s.Free := inferInstanceAs (Decidable (_ ∧ _))

/- A poll can report a connection from the first one on that follows its registration. -/
def reported (s : TcpClient) (n : Nat) : Option ClientConn :=
  s.conns[n]?.filter fun c => c.polled && c.enabled

/- The functor at the head of the batch. -/
def runHead (s : TcpClient) : Option (Except ClientFault TcpClient) :=
  match s.batch with
  | [] => none
  | .connector _ :: batch => { s with batch := batch }.lift .runFunctor
  | .forceCloseInLoop n :: batch =>
    match s.conns[n]? with
    | none => none
    | some c =>
      if c.Up then
        some ({ s with batch := batch }.handleClose n c)
      else some (.ok { s with batch := batch })
  | .connectDestroyed n :: batch =>
    match s.conns[n]? with
    | none => none
    | some c => some (c.connectDestroyed.map ({ s with batch := batch }.setConn n))

def step (s : TcpClient) : ClientAct → Option (Except ClientFault TcpClient)
  | .enableRetry => some (.ok { s with retry := true })
  | .connectStore => some (.ok { s with connect := true, connecting := s.connecting + 1 })
  | .connectorStart =>
    if 0 < s.connecting then { s with connecting := s.connecting - 1 }.lift .startStore else none
  | .startPush => s.lift .startPush
  | .stopStore => some (.ok { s with connect := false, stopping := s.stopping + 1 })
  | .connectorStop =>
    if 0 < s.stopping then { s with stopping := s.stopping - 1 }.lift .stopStore else none
  | .stopPush => s.lift .stopPush
  | .disconnectStore =>
    some (.ok { s with connect := false, disconnecting := s.disconnecting + 1 })
  | .shutdown =>
    if 0 < s.disconnecting ∧ s.shutting = none then
      some (.ok { s with disconnecting := s.disconnecting - 1, shutting := s.shutdownTest })
    else none
  | .shutdownStore => s.shutting.map fun n => .ok (s.shutdownStore n)
  | .connect => { s with connect := true }.lift .start
  | .stop => { s with connect := false }.lift .stop
  | .disconnect =>
    if s.connector.pc = .idle ∧ s.shutting = none then
      some (.ok { s with connect := false }.shutdown)
    else none
  | .forceClose n => some (.ok (s.forceClose n))
  | .readConnect => s.lift .readConnect
  | .connectTo savedErrno => s.lift (.connect savedErrno)
  | .event error write =>
    if s.Free then
      (s.connector.step true (.event error write)).map fun
        | .ok c =>
          if s.connector.fresh < c.fresh then
            (s.withConnector c).newConnection (s.connector.channel.elim 0 (·.fd))
          else .ok (s.withConnector c)
        | .error e => .error (.connector e)
    else none
  | .close n both =>
    if s.Free ∧ s.connector.running = false then
      (s.reported n).map ({ s with again := if both then some n else none }.handleClose n)
    else none
  | .closeCallback =>
    if s.connector.pc = .idle ∧ s.shutting = none then s.closing.map s.removeConnection else none
  | .closeAgain =>
    if s.connector.pc = .idle ∧ s.closing = none then
      s.again.bind fun n => s.conns[n]?.map ({ s with again := none }.handleClose n)
    else none
  | .timer => if s.Free then s.lift .timer else none
  | .beginFunctors =>
    if s.Free then
      (s.connector.step true .beginFunctors).map fun
        | .ok c => .ok { s with connector := c, batch := s.pending, pending := [] }
        | .error e => .error (.connector e)
    else none
  | .runFunctor => if s.Free ∧ s.connector.running = true then s.runHead else none
  | .endFunctors =>
    if s.Free ∧ s.batch = [] then
      (s.connector.step true .endFunctors).map fun
        | .ok c =>
          .ok { s with
            connector := c
            conns := s.conns.map fun conn => { conn with polled := true } }
        | .error e => .error (.connector e)
    else none

def machine : Machine TcpClient ClientAct ClientFault where
  init := new
  step := step

end TcpClient

/-! ### What a step of the connector does to its loop and its client -/

namespace Connector

variable {s t u : Connector} {n : Nat} {news : List ConnectorFunctor}

/-- The step queues functors, and a `resetChannel` only when it ends an attempt; it has to do
with no connection. -/
structure Extends (s t : Connector) (news : List ConnectorFunctor) : Prop where
  pending : t.pending = s.pending ++ news
  batch : t.batch = s.batch
  running : t.running = s.running
  fresh : t.fresh = s.fresh
  up : t.up = s.up
  passed : t.passed = s.passed
  reset : .resetChannel ∈ news → s.state = .kConnecting

/-- The attempt ends with a call of `newConnectionCallback_`. -/
structure Passes (s t : Connector) (n : Nat) : Prop where
  connecting : s.state = .kConnecting
  channel : s.channel.elim 0 (·.fd) = n
  pending : t.pending = s.pending ++ [.resetChannel]
  batch : t.batch = s.batch
  running : t.running = s.running
  fresh : t.fresh = s.fresh + 1
  up : t.up = s.up
  passed : t.passed = Function.update s.passed n (s.passed n + 1)

theorem Extends.same (hp : t.pending = s.pending) (hb : t.batch = s.batch)
    (hr : t.running = s.running) (hf : t.fresh = s.fresh) (hu : t.up = s.up)
    (hpass : t.passed = s.passed) : Extends s t [] :=
  ⟨by rw [hp, List.append_nil], hb, hr, hf, hu, hpass, fun hm => by cases hm⟩

theorem extends_retry (s : Connector) (n : Nat) : Extends s (s.retry n) [] := by
  unfold retry
  split
  · exact .same rfl rfl rfl rfl rfl rfl
  · exact .same rfl rfl rfl rfl rfl rfl

theorem extends_left {state : ConnectorState} {x : Nat × Connector}
    (hst : s.state = .kConnecting) (hx : { s with state := state }.removeAndResetChannel = .ok x) :
    Extends s (x.2.retry x.1) [.resetChannel] := by
  unfold removeAndResetChannel at hx
  split at hx
  · cases hx
  · cases hx
    have hretry := extends_retry ({ s with state := state }.left ‹ConnectorChannel›.fd)
      ‹ConnectorChannel›.fd
    exact ⟨hretry.pending.trans (List.append_nil _), hretry.batch, hretry.running, hretry.fresh,
      hretry.up, hretry.passed, fun _ => hst⟩

theorem handleError_extends (ht : s.handleError = .ok t) :
    (∃ news, Extends s t news) ∧ t.state ≠ .kConnecting := by
  unfold handleError at ht
  split at ht
  next hst =>
    obtain ⟨x, hx, ht⟩ := bind_eq_ok ht
    cases ht
    refine ⟨⟨_, extends_left hst hx⟩, ?_⟩
    unfold retry
    split
    · intro hc
      cases hc
    · intro hc
      cases hc
  next hst =>
    cases ht
    exact ⟨⟨_, .same rfl rfl rfl rfl rfl rfl⟩, hst⟩

theorem handleWrite_cases {outcome : WriteOutcome} (ht : s.handleWrite outcome = .ok t) :
    (∃ news, Extends s t news) ∨ ∃ n, Passes s t n := by
  unfold handleWrite at ht
  split at ht
  next hst =>
    obtain ⟨x, hx, ht⟩ := bind_eq_ok ht
    cases outcome with
    | socketError =>
      cases ht
      exact .inl ⟨_, extends_left hst hx⟩
    | selfConnect =>
      cases ht
      exact .inl ⟨_, extends_left hst hx⟩
    | connected =>
      unfold removeAndResetChannel at hx
      split at hx
      · cases hx
      next ch hch =>
        cases hx
        cases ht
        split
        · exact .inr ⟨ch.fd, hst, by rw [hch]; rfl, rfl, rfl, rfl, rfl, rfl, rfl⟩
        · exact .inl ⟨[.resetChannel], rfl, rfl, rfl, rfl, rfl, rfl, fun _ => hst⟩
  · obtain ⟨_, _, ht⟩ := bind_eq_ok ht
    cases ht
    exact .inl ⟨_, .same rfl rfl rfl rfl rfl rfl⟩

theorem handleEvent_cases {error : Bool} {write : Option WriteOutcome}
    (h : s.handleEvent error write = .ok t) :
    (∃ news, Extends s t news) ∨ ∃ n, Passes s t n := by
  obtain ⟨u, hu, ht⟩ := bind_eq_ok h
  cases error with
  | false =>
    cases hu
    cases write with
    | none =>
      cases ht
      exact .inl ⟨_, .same rfl rfl rfl rfl rfl rfl⟩
    | some outcome => exact handleWrite_cases ht
  | true =>
    obtain ⟨hext, hst⟩ := handleError_extends hu
    cases write with
    | none =>
      cases ht
      exact .inl hext
    | some outcome =>
      -- behind the error there is nothing left to write
      replace ht : u.handleWrite outcome = .ok t := ht
      unfold handleWrite at ht
      rw [if_neg hst] at ht
      obtain ⟨_, _, ht⟩ := bind_eq_ok ht
      cases ht
      exact .inl hext

theorem doConnect_extends {savedErrno : ConnectErrno} (ht : s.doConnect savedErrno = .ok t) :
    Extends s t [] := by
  rcases doConnect_cases s savedErrno with hc | hc | hc
  · rw [hc] at ht
    obtain ⟨_, _, ht⟩ := bind_eq_ok ht
    cases ht
    exact .same rfl rfl rfl rfl rfl rfl
  · cases hc.symm.trans ht
    have hretry := extends_retry s.opened s.created
    exact ⟨hretry.pending, hretry.batch, hretry.running, hretry.fresh, hretry.up, hretry.passed,
      fun hm => by cases hm⟩
  · cases hc.symm.trans ht
    exact .same rfl rfl rfl rfl rfl rfl

theorem startInLoop_extends (ht : s.startInLoop = .ok t) : Extends s t [] := by
  obtain ⟨_, _, ht⟩ := bind_eq_ok ht
  cases ht
  exact .same rfl rfl rfl rfl rfl rfl

theorem stopInLoop_extends (ht : s.stopInLoop = .ok t) : ∃ news, Extends s t news := by
  unfold stopInLoop at ht
  split at ht
  next hst =>
    obtain ⟨x, hx, ht⟩ := bind_eq_ok ht
    cases ht
    exact ⟨_, extends_left hst hx⟩
  · cases ht
    exact ⟨_, .same rfl rfl rfl rfl rfl rfl⟩

def ConnectorAct.isCall : ConnectorAct → Bool
  | .restart | .down | .event _ _ | .beginFunctors | .runFunctor | .endFunctors => false
  | _ => true

theorem Step.extends {client : Bool} {a : ConnectorAct} (hx : Step client s a (.ok t))
    (ha : a.isCall = true) : ∃ news, Extends s t news := by
  generalize hok : Except.ok t = x at hx
  cases hx with
  | startStore | stopStore | readConnect _ =>
    cases hok
    exact ⟨_, .same rfl rfl rfl rfl rfl rfl⟩
  | startPush _ =>
    cases hok
    exact ⟨[.startInLoop], rfl, rfl, rfl, rfl, rfl, rfl, by simp⟩
  | stopPush _ | stop _ =>
    cases hok
    exact ⟨[.stopInLoop], rfl, rfl, rfl, rfl, rfl, rfl, by simp⟩
  | start _ | timer _ _ _ =>
    have h := startInLoop_extends hok.symm
    exact ⟨[], h.pending, h.batch, h.running, h.fresh, h.up, h.passed, fun hm => by cases hm⟩
  | connect savedErrno _ => exact ⟨_, doConnect_extends hok.symm⟩
  | restart _ _ | down _ _ | event _ _ _ _ _ | beginFunctors _ _ | runFunctor _ _ _ _ _
  | endFunctors _ _ _ => cases ha

theorem Step.event_eq {client : Bool} {error : Bool} {write : Option WriteOutcome}
    {x : Except Assertion Connector} (hx : Step client s (.event error write) x) :
    s.running = false ∧ x = s.handleEvent error write := by
  cases hx with
  | event _ _ _ hrun _ => exact ⟨hrun, rfl⟩

theorem Step.runFunctor_cases {client : Bool} (hx : Step client s .runFunctor (.ok t)) :
    ∃ f batch, s.batch = f :: batch ∧
      (f ≠ .resetChannel ∧ (∃ news, Extends { s with batch := batch } t news) ∨
        f = .resetChannel ∧ t = { s with batch := batch }.resetChannel) := by
  generalize hok : Except.ok t = x at hx
  cases hx with
  | runFunctor f batch _ _ hb =>
    refine ⟨f, batch, hb, ?_⟩
    cases f with
    | startInLoop => exact .inl ⟨by decide, _, startInLoop_extends hok.symm⟩
    | stopInLoop => exact .inl ⟨by decide, stopInLoop_extends hok.symm⟩
    | resetChannel =>
      cases hok
      exact .inr ⟨rfl, rfl⟩

end Connector

end TstMuduo.Net
