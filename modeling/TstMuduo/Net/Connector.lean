import Mathlib.Logic.Function.Basic
import TstMuduo.Net.Basic

/-!
# The connector (muduo/net/Connector.cpp) and its loop

`start` and `stop` store `connect_` and then hand a functor to the loop, so a caller in
another thread takes two steps. In the loop's own thread `startInLoop` reads `connect_`
and then connects, which takes three. The rest of the loop is its two phases: events
and timers are handled, then the batch of functors that were queued is run, in order.
-/

namespace TstMuduo.Net
open TstMuduo.Lib

inductive ConnectorState where
  | kDisconnected
  | kConnecting
  | kConnected
  deriving DecidableEq, Repr

/- The functors that the connector hands to its loop. -/
inductive ConnectorFunctor where
  | startInLoop
  | stopInLoop
  | resetChannel
  deriving DecidableEq, Repr

/- Where the loop's thread stands: outside the connector, in `startInLoop` before it reads
`connect_`, or before the call of `connect`. -/
inductive ConnectorPc where
  | idle
  | startInLoop
  | connect
  deriving DecidableEq, Repr

/- `channel_`: its socket, and whether it is in the poller. -/
structure ConnectorChannel where
  fd : Nat
  registered : Bool
  deriving DecidableEq, Repr

/- The `savedErrno` of `connect` (`Connector.cpp:85`). -/
inductive ConnectErrno where
  | none
  | EINPROGRESS
  | EINTR
  | EISCONN
  | EAGAIN
  | EADDRINUSE
  | EADDRNOTAVAIL
  | ECONNREFUSED
  | ENETUNREACH
  | EACCES
  | EPERM
  | EAFNOSUPPORT
  | EALREADY
  | EBADF
  | EFAULT
  | ENOTSOCK
  | other (code : Nat)
  deriving DecidableEq, Repr

/- What `handleWrite` finds: an error of the socket, a self-connection, or neither. -/
inductive WriteOutcome where
  | socketError
  | selfConnect
  | connected
  deriving DecidableEq, Repr

def kMaxRetryDelayMs : Nat := 30 * 1000
def kInitRetryDelayMs : Nat := 500

/-- The sockets are numbered as they are created; `closed` and `passed` count the calls of
`close` and `newConnectionCallback_` on each, `retries` lists the delays used since
construction or the last `restart`. `fresh` and `up` count the connections made of the
passed sockets: a fresh one cannot go down yet. -/
structure Connector where
  connect : Bool
  state : ConnectorState
  channel : Option ConnectorChannel
  retryDelayMs : Nat
  pc : ConnectorPc
  pending : List ConnectorFunctor
  batch : List ConnectorFunctor
  running : Bool
  timers : Nat
  starting : Nat
  stopping : Nat
  created : Nat
  closed : Nat → Nat
  passed : Nat → Nat
  retries : List Nat
  fresh : Nat
  up : Nat

namespace Connector

/- `Connector(loop, serverAddr)` (`Connector.cpp:26`). -/
def new : Connector where
  connect := false
  state := .kDisconnected
  channel := none
  retryDelayMs := kInitRetryDelayMs
  pc := .idle
  pending := []
  batch := []
  running := false
  timers := 0
  starting := 0
  stopping := 0
  created := 0
  closed := fun _ => 0
  passed := fun _ => 0
  retries := []
  fresh := 0
  up := 0

def push (s : Connector) (f : ConnectorFunctor) : Connector :=
  { s with pending := s.pending ++ [f] }

def close (s : Connector) (sockfd : Nat) : Connector :=
  { s with closed := Function.update s.closed sockfd (s.closed sockfd + 1) }

def pass (s : Connector) (sockfd : Nat) : Connector :=
  { s with
    passed := Function.update s.passed sockfd (s.passed sockfd + 1)
    fresh := s.fresh + 1 }

/- `startInLoop` (`Connector.cpp:50`) up to its test of `connect_`. -/
def startInLoop (s : Connector) : Except Assertion Connector := do
  check (s.state = .kDisconnected) .connectorStartInLoop
  return { s with pc := .startInLoop }

/- `retry` (`Connector.cpp:251`). -/
def retry (s : Connector) (sockfd : Nat) : Connector :=
  let t := { s.close sockfd with state := .kDisconnected }
  if s.connect then
    { t with
      timers := s.timers + 1
      retries := s.retries ++ [s.retryDelayMs]
      retryDelayMs := min (s.retryDelayMs * 2) kMaxRetryDelayMs }
  else t

/- `connecting` (`Connector.cpp:142`). -/
def connecting (s : Connector) (sockfd : Nat) : Except Assertion Connector := do
  check (s.channel = none) .connectorConnecting
  return { s with state := .kConnecting, channel := some ⟨sockfd, true⟩ }

/- `connect` (`Connector.cpp:85`) with the answer of `::connect`. -/
def doConnect (s : Connector) (savedErrno : ConnectErrno) : Except Assertion Connector :=
  let sockfd := s.created
  let t := { s with pc := .idle, created := s.created + 1 }
  match savedErrno with
  | .none | .EINPROGRESS | .EINTR | .EISCONN => t.connecting sockfd
  | .EAGAIN | .EADDRINUSE | .EADDRNOTAVAIL | .ECONNREFUSED | .ENETUNREACH => .ok (t.retry sockfd)
  | .EACCES | .EPERM | .EAFNOSUPPORT | .EALREADY | .EBADF | .EFAULT | .ENOTSOCK =>
    .ok (t.close sockfd)
  | .other _ => .ok (t.close sockfd)

/- `removeAndResetChannel` (`Connector.cpp:163`). -/
def removeAndResetChannel (s : Connector) : Except Assertion (Nat × Connector) :=
  match s.channel with
  | none => .error .connectorNoChannel
  | some ch =>
    .ok (ch.fd, { s with channel := some ⟨ch.fd, false⟩ }.push .resetChannel)

/- `stopInLoop` (`Connector.cpp:73`). -/
def stopInLoop (s : Connector) : Except Assertion Connector :=
  if s.state = .kConnecting then do
    let (sockfd, t) ← { s with state := .kDisconnected }.removeAndResetChannel
    return t.retry sockfd
  else .ok s

/- `resetChannel` (`Connector.cpp:174`). Behind it in the queue, or in a later turn of the
loop, comes whatever can close a connection that was made before it. -/
def resetChannel (s : Connector) : Connector :=
  { s with channel := none, fresh := 0, up := s.up + s.fresh }

/- `restart` (`Connector.cpp:130`). -/
def restart (s : Connector) : Except Assertion Connector :=
  { s with
    state := .kDisconnected
    retryDelayMs := kInitRetryDelayMs
    retries := []
    connect := true }.startInLoop

/- `handleWrite` (`Connector.cpp:192`). -/
def handleWrite (s : Connector) (outcome : WriteOutcome) : Except Assertion Connector :=
  if s.state = .kConnecting then do
    let (sockfd, t) ← s.removeAndResetChannel
    match outcome with
    | .socketError => return t.retry sockfd
    | .selfConnect => return t.retry sockfd
    | .connected =>
      let u := { t with state := .kConnected }
      return if u.connect then u.pass sockfd else u.close sockfd
  else do
    check (s.state = .kDisconnected) .connectorHandleWrite
    return s

/- `handleError` (`Connector.cpp:236`). -/
def handleError (s : Connector) : Except Assertion Connector :=
  if s.state = .kConnecting then do
    let (sockfd, t) ← s.removeAndResetChannel
    return t.retry sockfd
  else .ok s

/- `Channel::handleEvent` of `channel_`: the error callback comes first. -/
def handleEvent (s : Connector) (error : Bool) (write : Option WriteOutcome) :
    Except Assertion Connector :=
  (if error then s.handleError else .ok s) >>= fun t =>
    match write with
    | some outcome => t.handleWrite outcome
    | none => .ok t

def runFunctor (s : Connector) : ConnectorFunctor → Except Assertion Connector
  | .startInLoop => s.startInLoop
  | .stopInLoop => s.stopInLoop
  | .resetChannel => .ok s.resetChannel

/-! ### Steps -/

inductive ConnectorAct where
  /- `start()` and `stop()` in another thread: the store, then the functor -/
  | startStore
  | startPush
  | stopStore
  | stopPush
  /- calls in the loop's thread; `down` is a connection that goes down without `restart` -/
  | start
  | stop
  | restart
  | down
  /- inside `startInLoop` -/
  | readConnect
  | connect (savedErrno : ConnectErrno)
  /- the loop -/
  | event (error : Bool) (write : Option WriteOutcome)
  | timer
  | beginFunctors
  | runFunctor
  | endFunctors
  deriving DecidableEq, Repr

/- What happens at a step, and when it can happen: the loop's thread does one thing after
the other, timers and events come between two batches of functors, and in a client
`restart` is called only for a connection that was up. -/
def step (client : Bool) (s : Connector) : ConnectorAct → Option (Except Assertion Connector)
  | .startStore => some (.ok { s with connect := true, starting := s.starting + 1 })
  | .startPush =>
    if 0 < s.starting then some (.ok ({ s with starting := s.starting - 1 }.push .startInLoop))
    else none
  | .stopStore => some (.ok { s with connect := false, stopping := s.stopping + 1 })
  | .stopPush =>
    if 0 < s.stopping then some (.ok ({ s with stopping := s.stopping - 1 }.push .stopInLoop))
    else none
  | .start => if s.pc = .idle then some { s with connect := true }.startInLoop else none
  | .stop =>
    if s.pc = .idle then some (.ok ({ s with connect := false }.push .stopInLoop)) else none
  | .restart =>
    if s.pc = .idle ∧ (client = true → 0 < s.up) then some { s with up := s.up - 1 }.restart
    else none
  | .down => if s.pc = .idle ∧ 0 < s.up then some (.ok { s with up := s.up - 1 }) else none
  | .readConnect =>
    if s.pc = .startInLoop then
      some (.ok { s with pc := if s.connect then .connect else .idle })
    else none
  | .connect savedErrno => if s.pc = .connect then some (s.doConnect savedErrno) else none
  | .event error write =>
    if s.pc = .idle ∧ s.running = false ∧ s.channel.any (·.registered) then
      some (s.handleEvent error write)
    else none
  | .timer =>
    if s.pc = .idle ∧ s.running = false ∧ 0 < s.timers then
      some { s with timers := s.timers - 1 }.startInLoop
    else none
  | .beginFunctors =>
    if s.pc = .idle ∧ s.running = false then
      some (.ok { s with running := true, batch := s.pending, pending := [] })
    else none
  | .runFunctor =>
    if s.pc = .idle ∧ s.running = true then
      match s.batch with
      | [] => none
      | f :: batch => some ({ s with batch := batch }.runFunctor f)
    else none
  | .endFunctors =>
    if s.pc = .idle ∧ s.running = true ∧ s.batch = [] then
      some (.ok { s with running := false })
    else none

def machine (client : Bool) : Machine Connector ConnectorAct Assertion where
  init := new
  step := step client

/-- What a step needs and what comes of it, action by action. -/
inductive Step (client : Bool) (s : Connector) : ConnectorAct → Except Assertion Connector → Prop
  | startStore : Step client s .startStore
      (.ok { s with connect := true, starting := s.starting + 1 })
  | startPush : 0 < s.starting → Step client s .startPush
      (.ok ({ s with starting := s.starting - 1 }.push .startInLoop))
  | stopStore : Step client s .stopStore
      (.ok { s with connect := false, stopping := s.stopping + 1 })
  | stopPush : 0 < s.stopping → Step client s .stopPush
      (.ok ({ s with stopping := s.stopping - 1 }.push .stopInLoop))
  | start : s.pc = .idle → Step client s .start { s with connect := true }.startInLoop
  | stop : s.pc = .idle → Step client s .stop
      (.ok ({ s with connect := false }.push .stopInLoop))
  | restart : s.pc = .idle → (client = true → 0 < s.up) → Step client s .restart
      { s with up := s.up - 1 }.restart
  | down : s.pc = .idle → 0 < s.up → Step client s .down (.ok { s with up := s.up - 1 })
  | readConnect : s.pc = .startInLoop → Step client s .readConnect
      (.ok { s with pc := if s.connect then .connect else .idle })
  | connect (savedErrno : ConnectErrno) : s.pc = .connect →
      Step client s (.connect savedErrno) (s.doConnect savedErrno)
  | event (error : Bool) (write : Option WriteOutcome) : s.pc = .idle → s.running = false →
      s.channel.any (·.registered) → Step client s (.event error write) (s.handleEvent error write)
  | timer : s.pc = .idle → s.running = false → 0 < s.timers → Step client s .timer
      { s with timers := s.timers - 1 }.startInLoop
  | beginFunctors : s.pc = .idle → s.running = false → Step client s .beginFunctors
      (.ok { s with running := true, batch := s.pending, pending := [] })
  | runFunctor (f : ConnectorFunctor) (batch : List ConnectorFunctor) : s.pc = .idle →
      s.running = true → s.batch = f :: batch → Step client s .runFunctor
        ({ s with batch := batch }.runFunctor f)
  | endFunctors : s.pc = .idle → s.running = true → s.batch = [] → Step client s .endFunctors
      (.ok { s with running := false })

theorem step_sound {client : Bool} {s : Connector} {a : ConnectorAct}
    {x : Except Assertion Connector} (h : s.step client a = some x) : Step client s a x := by
  cases a with
  | startStore =>
    cases h
    exact .startStore
  | stopStore =>
    cases h
    exact .stopStore
  | runFunctor =>
    simp only [step] at h
    split at h
    next hen =>
      split at h
      · cases h
      next f batch hb =>
        cases h
        exact .runFunctor f batch hen.1 hen.2 hb
    · cases h
  | _ =>
    simp only [step] at h
    split at h
    next hen =>
      cases h
      constructor <;> simp_all
    · cases h

/-! ### Sockets -/

/-- Every socket that was created is the held one, or was closed once, or was passed on
once. -/
structure Owned (created : Nat) (closed passed : Nat → Nat) (holder : Option Nat) : Prop where
  fate : ∀ n < created, holder ≠ some n →
    (closed n = 1 ∧ passed n = 0) ∨ (closed n = 0 ∧ passed n = 1)
  later : ∀ n, created ≤ n → closed n = 0 ∧ passed n = 0
  held : ∀ n, holder = some n → n < created ∧ closed n = 0 ∧ passed n = 0

section

variable {created : Nat} {closed passed : Nat → Nat} {n : Nat}

theorem Owned.create (h : Owned created closed passed none) :
    Owned (created + 1) closed passed (some created) where
  fate n hn hne := by
    have hlt : n ≠ created := fun he => hne (by rw [he])
    exact h.fate n (by omega) (by simp)
  later n hn := h.later n (by omega)
  held n hn := by
    cases hn
    exact ⟨by omega, h.later created (Nat.le_refl _)⟩

theorem Owned.release (h : Owned created closed passed (some n)) {closed' passed' : Nat → Nat}
    (hclosed : ∀ k, k ≠ n → closed' k = closed k) (hpassed : ∀ k, k ≠ n → passed' k = passed k)
    (hfate : (closed' n = 1 ∧ passed' n = 0) ∨ (closed' n = 0 ∧ passed' n = 1)) :
    Owned created closed' passed' none where
  fate k hk _ := by
    by_cases hkn : k = n
    · rw [hkn]
      exact hfate
    · rw [hclosed k hkn, hpassed k hkn]
      exact h.fate k hk (by simpa using Ne.symm hkn)
  later k hk := by
    have hlt := (h.held n rfl).1
    have hkn : k ≠ n := by omega
    rw [hclosed k hkn, hpassed k hkn]
    exact h.later k hk
  held k hk := by cases hk

theorem Owned.close (h : Owned created closed passed (some n)) :
    Owned created (Function.update closed n (closed n + 1)) passed none := by
  obtain ⟨_, hc, hp⟩ := h.held n rfl
  refine h.release (fun k hk => Function.update_of_ne hk _ _) (fun _ _ => rfl) (.inl ?_)
  rw [Function.update_self, hc, hp]
  exact ⟨rfl, rfl⟩

theorem Owned.pass (h : Owned created closed passed (some n)) :
    Owned created closed (Function.update passed n (passed n + 1)) none := by
  obtain ⟨_, hc, hp⟩ := h.held n rfl
  refine h.release (fun _ _ => rfl) (fun k hk => Function.update_of_ne hk _ _) (.inr ?_)
  rw [Function.update_self, hc, hp]
  exact ⟨rfl, rfl⟩

end

/-! ### The channel -/

def queue (s : Connector) : List ConnectorFunctor := s.batch ++ s.pending

def resets (s : Connector) : Nat := s.queue.count .resetChannel

def holder (s : Connector) : Option Nat :=
  match s.channel with
  | some ⟨n, true⟩ => some n
  | _ => none

/-- There is no channel, or it is in the poller and the state is `kConnecting`, or it is out
of the poller and waits for its `resetChannel`. -/
inductive Shape : Option ConnectorChannel → Nat → ConnectorState → Prop
  | free {state} : state ≠ .kConnecting → Shape none 0 state
  | trying {n} : Shape (some ⟨n, true⟩) 0 .kConnecting
  | leaving {n state} : state ≠ .kConnecting → Shape (some ⟨n, false⟩) 1 state

def delay (k : Nat) : Nat := min (500 * 2 ^ k) 30000

/-- The retries had the delays `500`, `1000`, and so on up to `30000`, and the next one has
the delay that follows. -/
structure Backoff (retryDelayMs : Nat) (retries : List Nat) : Prop where
  next : retryDelayMs = delay retries.length
  past : ∀ k ms, retries[k]? = some ms → ms = delay k

theorem Backoff.new : Backoff kInitRetryDelayMs [] where
  next := rfl
  past k ms h := by
    rw [List.getElem?_nil] at h
    cases h

theorem Backoff.retry {retryDelayMs : Nat} {retries : List Nat} (h : Backoff retryDelayMs retries) :
    Backoff (min (retryDelayMs * 2) kMaxRetryDelayMs) (retries ++ [retryDelayMs]) where
  next := by
    rw [h.next, List.length_append, List.length_singleton]
    unfold delay kMaxRetryDelayMs
    rw [Nat.pow_succ]
    omega
  past k ms hk := by
    rw [List.getElem?_append] at hk
    split at hk
    · exact h.past k ms hk
    next hlen =>
      rw [List.getElem?_singleton] at hk
      split at hk
      next hz =>
        cases hk
        have hkl : k = retries.length := by omega
        rw [hkl]
        exact h.next
      · cases hk

structure Base (s : Connector) : Prop where
  owned : Owned s.created s.closed s.passed s.holder
  shape : Shape s.channel s.resets s.state
  calm : s.running = false → s.batch = []
  poised : s.pc ≠ .idle → s.state = .kDisconnected
  backoff : Backoff s.retryDelayMs s.retries

variable {s t : Connector} {n : Nat}

theorem new_base : new.Base where
  owned := ⟨fun n hn => absurd hn (Nat.not_lt_zero n), fun _ _ => ⟨rfl, rfl⟩, fun _ h => by cases h⟩
  shape := .free (by decide)
  calm _ := rfl
  poised h := absurd rfl h
  backoff := .new

theorem queue_push (s : Connector) (f : ConnectorFunctor) : (s.push f).queue = s.queue ++ [f] :=
  (List.append_assoc _ _ _).symm

theorem resets_push_reset (s : Connector) : (s.push .resetChannel).resets = s.resets + 1 := by
  unfold resets
  rw [queue_push, List.count_append]
  rfl

theorem resets_push {f : ConnectorFunctor} (hf : f ≠ .resetChannel) (s : Connector) :
    (s.push f).resets = s.resets := by
  unfold resets
  rw [queue_push, List.count_append, List.count_singleton]
  simp [hf]

theorem Base.push (h : s.Base) {f : ConnectorFunctor} (hf : f ≠ .resetChannel) :
    (s.push f).Base where
  owned := h.owned
  shape := by
    rw [resets_push hf]
    exact h.shape
  calm := h.calm
  poised := h.poised
  backoff := h.backoff

theorem Base.channel_of_connecting (h : s.Base) (hs : s.state = .kConnecting) :
    ∃ n, s.channel = some ⟨n, true⟩ ∧ s.resets = 0 := by
  have hshape := h.shape
  rw [hs] at hshape
  generalize s.channel = ch, s.resets = r at hshape
  cases hshape with
  | free hne => exact absurd rfl hne
  | trying => exact ⟨_, rfl, rfl⟩
  | leaving hne => exact absurd rfl hne

theorem Base.connecting_of_registered (h : s.Base) (hreg : s.channel.any (·.registered)) :
    s.state = .kConnecting := by
  have hshape := h.shape
  generalize s.channel = ch, s.resets = r, s.state = state at hshape hreg ⊢
  cases hshape with
  | free _ => cases hreg
  | trying => rfl
  | leaving _ => cases hreg

def left (s : Connector) (n : Nat) : Connector :=
  { s with channel := some ⟨n, false⟩ }.push .resetChannel

theorem removeAndResetChannel_eq (hc : s.channel = some ⟨n, true⟩) :
    s.removeAndResetChannel = .ok (n, s.left n) := by
  unfold removeAndResetChannel
  rw [hc]
  rfl

theorem resets_left (hr : s.resets = 0) (n : Nat) : (s.left n).resets = 1 := by
  have hpush := resets_push_reset { s with channel := some ⟨n, false⟩ }
  rw [show ({ s with channel := some ⟨n, false⟩ } : Connector).resets = s.resets from rfl, hr]
    at hpush
  exact hpush

theorem Base.owned_held (h : s.Base) (hc : s.channel = some ⟨n, true⟩) :
    Owned s.created s.closed s.passed (some n) := by
  have howned := h.owned
  unfold holder at howned
  rw [hc] at howned
  exact howned

theorem Base.of_left (h : s.Base) (hr : s.resets = 0) (hpc : s.pc = .idle)
    (htc : t.channel = some ⟨n, false⟩) (htq : t.queue = (s.left n).queue)
    (hts : t.state ≠ .kConnecting) (htb : t.batch = s.batch) (htr : t.running = s.running)
    (htpc : t.pc = s.pc) (howned : Owned t.created t.closed t.passed none)
    (hback : Backoff t.retryDelayMs t.retries) : t.Base where
  owned := by
    unfold holder
    rw [htc]
    exact howned
  shape := by
    have hresets : t.resets = 1 := by
      unfold resets
      rw [htq]
      exact resets_left hr n
    rw [htc, hresets]
    exact .leaving hts
  calm := by
    rw [htb, htr]
    exact h.calm
  poised := by
    rw [htpc, hpc]
    exact fun hne => absurd rfl hne
  backoff := hback

theorem Base.retry_left (h : s.Base) (hc : s.channel = some ⟨n, true⟩) (hr : s.resets = 0)
    (hpc : s.pc = .idle) : ((s.left n).retry n).Base := by
  have hclosed := (h.owned_held hc).close
  have hst : ConnectorState.kDisconnected ≠ .kConnecting := by decide
  unfold retry
  split
  · exact h.of_left hr hpc rfl rfl hst rfl rfl rfl hclosed h.backoff.retry
  · exact h.of_left hr hpc rfl rfl hst rfl rfl rfl hclosed h.backoff

/-! ### One step -/

theorem Base.startInLoop (h : s.Base) (ht : s.startInLoop = .ok t) : t.Base := by
  unfold Connector.startInLoop check at ht
  split at ht
  next hst =>
    cases ht
    exact ⟨h.owned, h.shape, h.calm, fun _ => hst, h.backoff⟩
  · cases ht

theorem Base.handleError (h : s.Base) (hpc : s.pc = .idle) (ht : s.handleError = .ok t) :
    t.Base ∧ t.pc = .idle := by
  unfold Connector.handleError at ht
  split at ht
  next hst =>
    obtain ⟨n, hc, hr⟩ := h.channel_of_connecting hst
    rw [removeAndResetChannel_eq hc] at ht
    cases ht
    refine ⟨h.retry_left hc hr hpc, ?_⟩
    unfold retry
    split
    · exact hpc
    · exact hpc
  · cases ht
    exact ⟨h, hpc⟩

theorem Base.handleWrite (h : s.Base) (hpc : s.pc = .idle) {outcome : WriteOutcome}
    (ht : s.handleWrite outcome = .ok t) : t.Base := by
  unfold Connector.handleWrite at ht
  split at ht
  next hst =>
    obtain ⟨n, hc, hr⟩ := h.channel_of_connecting hst
    have hheld := h.owned_held hc
    rw [removeAndResetChannel_eq hc] at ht
    cases outcome with
    | socketError =>
      cases ht
      exact h.retry_left hc hr hpc
    | selfConnect =>
      cases ht
      exact h.retry_left hc hr hpc
    | connected =>
      have hconn : ConnectorState.kConnected ≠ .kConnecting := by decide
      cases ht
      split
      · exact h.of_left hr hpc rfl rfl hconn rfl rfl rfl hheld.pass h.backoff
      · exact h.of_left hr hpc rfl rfl hconn rfl rfl rfl hheld.close h.backoff
  · obtain ⟨_, _, ht⟩ := bind_eq_ok ht
    cases ht
    exact h

theorem Base.handleEvent (h : s.Base) (hpc : s.pc = .idle) {error : Bool}
    {write : Option WriteOutcome} (ht : s.handleEvent error write = .ok t) : t.Base := by
  obtain ⟨u, hu, ht⟩ := bind_eq_ok ht
  have hbase : u.Base ∧ u.pc = .idle := by
    cases error with
    | true => exact h.handleError hpc hu
    | false =>
      cases hu
      exact ⟨h, hpc⟩
  cases write with
  | some outcome => exact hbase.1.handleWrite hbase.2 ht
  | none =>
    cases ht
    exact hbase.1

theorem Base.of_closed (h : s.Base) (hhold : s.holder = none) (hst : s.state ≠ .kConnecting)
    (htc : t.channel = s.channel) (htq : t.queue = s.queue) (hts : t.state ≠ .kConnecting)
    (htb : t.batch = s.batch) (htr : t.running = s.running) (htpc : t.pc = .idle)
    (howned : Owned t.created t.closed t.passed none)
    (hback : Backoff t.retryDelayMs t.retries) : t.Base where
  owned := by
    have hholder : t.holder = none := by
      unfold holder at hhold ⊢
      rw [htc]
      exact hhold
    rw [hholder]
    exact howned
  shape := by
    have hshape := h.shape
    unfold resets at hshape ⊢
    rw [htc, htq]
    generalize s.channel = ch, List.count ConnectorFunctor.resetChannel s.queue = r,
      s.state = state at hshape hst
    cases hshape with
    | free _ => exact .free hts
    | trying => exact absurd rfl hst
    | leaving _ => exact .leaving hts
  calm := by
    rw [htb, htr]
    exact h.calm
  poised hne := absurd htpc hne
  backoff := hback

theorem Base.holder_of_not_connecting (h : s.Base) (hst : s.state ≠ .kConnecting) :
    s.holder = none := by
  have hshape := h.shape
  unfold holder
  generalize s.channel = ch, s.resets = r, s.state = state at hshape hst
  cases hshape with
  | free _ => rfl
  | trying => exact absurd rfl hst
  | leaving _ => rfl

def opened (s : Connector) : Connector :=
  { s with pc := .idle, created := s.created + 1 }

theorem doConnect_cases (s : Connector) (savedErrno : ConnectErrno) :
    s.doConnect savedErrno = s.opened.connecting s.created ∨
      s.doConnect savedErrno = .ok (s.opened.retry s.created) ∨
      s.doConnect savedErrno = .ok (s.opened.close s.created) := by
  cases savedErrno with
  | none | EINPROGRESS | EINTR | EISCONN => exact .inl rfl
  | EAGAIN | EADDRINUSE | EADDRNOTAVAIL | ECONNREFUSED | ENETUNREACH => exact .inr (.inl rfl)
  | EACCES | EPERM | EAFNOSUPPORT | EALREADY | EBADF | EFAULT | ENOTSOCK => exact .inr (.inr rfl)
  | other code => exact .inr (.inr rfl)

theorem Base.connecting (h : s.Base) (howned : Owned s.created s.closed s.passed none)
    (ht : s.opened.connecting s.created = .ok t) : t.Base := by
  unfold Connector.connecting check at ht
  split at ht
  next hc =>
    cases ht
    refine ⟨howned.create, ?_, h.calm, fun hne => absurd rfl hne, h.backoff⟩
    have hr : s.resets = 0 := by
      have hshape := h.shape
      rw [show s.channel = none from hc] at hshape
      generalize s.resets = r at hshape ⊢
      cases hshape with
      | free _ => rfl
    exact hr ▸ .trying
  · cases ht

theorem Base.doConnect (h : s.Base) {savedErrno : ConnectErrno} (hpc : s.pc = .connect)
    (ht : s.doConnect savedErrno = .ok t) : t.Base := by
  have hdis : s.state = .kDisconnected := h.poised (by rw [hpc]; decide)
  have hst : s.state ≠ .kConnecting := by
    rw [hdis]
    decide
  have hdc : ConnectorState.kDisconnected ≠ .kConnecting := by decide
  have hhold := h.holder_of_not_connecting hst
  have howned := h.owned
  rw [hhold] at howned
  have hclosed := howned.create.close
  rcases doConnect_cases s savedErrno with hc | hc | hc
  · exact h.connecting howned (hc.symm.trans ht)
  · cases hc.symm.trans ht
    unfold retry
    split
    · exact h.of_closed hhold hst rfl rfl hdc rfl rfl rfl hclosed h.backoff.retry
    · exact h.of_closed hhold hst rfl rfl hdc rfl rfl rfl hclosed h.backoff
  · cases hc.symm.trans ht
    exact h.of_closed hhold hst rfl rfl hst rfl rfl rfl hclosed h.backoff

theorem Base.stopInLoop (h : s.Base) (hpc : s.pc = .idle) (ht : s.stopInLoop = .ok t) :
    t.Base := by
  unfold Connector.stopInLoop at ht
  split at ht
  next hst =>
    obtain ⟨n, hc, hr⟩ := h.channel_of_connecting hst
    rw [removeAndResetChannel_eq (s := { s with state := .kDisconnected }) hc] at ht
    cases ht
    exact h.retry_left hc hr hpc
  · cases ht
    exact h

theorem Base.restart (h : s.Base) (hst : s.state ≠ .kConnecting) (ht : s.restart = .ok t) :
    t.Base := by
  have hdc : ConnectorState.kDisconnected ≠ .kConnecting := by decide
  have hshape : Shape s.channel s.resets .kDisconnected := by
    have hold := h.shape
    generalize s.channel = ch, s.resets = r, s.state = state at hold hst ⊢
    cases hold with
    | free _ => exact .free hdc
    | trying => exact absurd rfl hst
    | leaving _ => exact .leaving hdc
  have hbase : ({ s with
      state := .kDisconnected
      retryDelayMs := kInitRetryDelayMs
      retries := []
      connect := true } : Connector).Base := ⟨h.owned, hshape, h.calm, fun _ => rfl, .new⟩
  exact hbase.startInLoop ht

section

variable {f : ConnectorFunctor} {batch : List ConnectorFunctor}

theorem resets_of_batch (hb : s.batch = f :: batch) :
    s.resets = { s with batch := batch }.resets + if f = .resetChannel then 1 else 0 := by
  unfold resets queue
  rw [hb, List.cons_append, List.count_cons]
  simp only [beq_iff_eq]

theorem Base.pop (h : s.Base) (hb : s.batch = f :: batch) (hf : f ≠ .resetChannel)
    (hrun : s.running = true) : { s with batch := batch }.Base where
  owned := h.owned
  shape := by
    have hresets := resets_of_batch hb
    rw [if_neg hf, Nat.add_zero] at hresets
    exact hresets ▸ h.shape
  calm hcalm := by cases hrun.symm.trans hcalm
  poised := h.poised
  backoff := h.backoff

theorem Base.resetChannel (h : s.Base) (hb : s.batch = .resetChannel :: batch)
    (hrun : s.running = true) : { s with batch := batch }.resetChannel.Base := by
  have hresets := resets_of_batch hb
  rw [if_pos rfl] at hresets
  have hshape := h.shape
  -- a functor is waiting, so the channel is out of the poller
  have hone : s.resets = 1 ∧ s.state ≠ .kConnecting := by
    generalize s.channel = ch, s.resets = r, s.state = state at hshape hresets ⊢
    cases hshape with
    | free _ => omega
    | trying => omega
    | leaving hst => exact ⟨rfl, hst⟩
  have hzero : { s with batch := batch }.resets = 0 := by omega
  have howned := h.owned
  rw [h.holder_of_not_connecting hone.2] at howned
  refine ⟨howned, hzero ▸ .free hone.2, ?_, h.poised, h.backoff⟩
  intro hcalm
  cases hrun.symm.trans hcalm

theorem Base.runFunctor (h : s.Base) (hpc : s.pc = .idle) (hrun : s.running = true)
    (hb : s.batch = f :: batch) (ht : { s with batch := batch }.runFunctor f = .ok t) :
    t.Base := by
  cases f with
  | startInLoop => exact (h.pop hb (by decide) hrun).startInLoop ht
  | stopInLoop => exact (h.pop hb (by decide) hrun).stopInLoop hpc ht
  | resetChannel =>
    cases ht
    exact h.resetChannel hb hrun

end

/- `restart` comes to no connector that is connecting. -/
def Careful (s : Connector) (a : ConnectorAct) : Prop :=
  a = .restart → s.state ≠ .kConnecting

instance (s : Connector) (a : ConnectorAct) : Decidable (s.Careful a) :=
  inferInstanceAs (Decidable (_ → _))

theorem Base.step (h : s.Base) {client : Bool} {a : ConnectorAct} (hg : s.Careful a)
    {x : Except Assertion Connector} (hx : Step client s a x) (ht : x = .ok t) : t.Base := by
  cases hx with
  | startStore | stopStore | down _ _ =>
    cases ht
    exact ⟨h.owned, h.shape, h.calm, h.poised, h.backoff⟩
  | startPush _ =>
    cases ht
    have hbase : { s with starting := s.starting - 1 }.Base :=
      ⟨h.owned, h.shape, h.calm, h.poised, h.backoff⟩
    exact hbase.push (by decide)
  | stopPush _ =>
    cases ht
    have hbase : { s with stopping := s.stopping - 1 }.Base :=
      ⟨h.owned, h.shape, h.calm, h.poised, h.backoff⟩
    exact hbase.push (by decide)
  | start _ =>
    have hbase : { s with connect := true }.Base :=
      ⟨h.owned, h.shape, h.calm, h.poised, h.backoff⟩
    exact hbase.startInLoop ht
  | stop _ =>
    cases ht
    have hbase : { s with connect := false }.Base :=
      ⟨h.owned, h.shape, h.calm, h.poised, h.backoff⟩
    exact hbase.push (by decide)
  | restart _ _ =>
    have hbase : { s with up := s.up - 1 }.Base :=
      ⟨h.owned, h.shape, h.calm, h.poised, h.backoff⟩
    exact hbase.restart (hg rfl) ht
  | readConnect hpc =>
    cases ht
    exact ⟨h.owned, h.shape, h.calm, fun _ => h.poised (by rw [hpc]; decide), h.backoff⟩
  | connect savedErrno hpc => exact h.doConnect hpc ht
  | event error write hpc _ _ => exact h.handleEvent hpc ht
  | timer _ _ _ =>
    have hbase : { s with timers := s.timers - 1 }.Base :=
      ⟨h.owned, h.shape, h.calm, h.poised, h.backoff⟩
    exact hbase.startInLoop ht
  | beginFunctors _ hrun =>
    cases ht
    refine ⟨h.owned, ?_, fun hcalm => (by cases hcalm), h.poised, h.backoff⟩
    have hshape := h.shape
    unfold resets queue at hshape ⊢
    rw [h.calm hrun] at hshape
    rw [List.append_nil]
    exact hshape
  | runFunctor f batch hpc hrun hb => exact h.runFunctor hpc hrun hb ht
  | endFunctors _ _ hb =>
    cases ht
    exact ⟨h.owned, h.shape, fun _ => hb, h.poised, h.backoff⟩

/-! ### Whole runs -/

/- `channel_` has the socket, and the state is `kConnecting`. -/
def Holds (s : Connector) (n : Nat) : Prop :=
  s.state = .kConnecting ∧ s.channel.map (·.fd) = some n

/-- Every socket is held, or closed once, or passed on once, and only one of these; and the
retries since the construction or the last `restart` had the delays that double. -/
def Conserves (s : Connector) : Prop :=
  (∀ n < s.created,
    (s.Holds n ∧ s.closed n = 0 ∧ s.passed n = 0) ∨
    (¬ s.Holds n ∧ s.closed n = 1 ∧ s.passed n = 0) ∨
    (¬ s.Holds n ∧ s.closed n = 0 ∧ s.passed n = 1)) ∧
  ∀ k ms, s.retries[k]? = some ms → ms = min (500 * 2 ^ k) 30000

theorem Base.holds_iff (h : s.Base) (n : Nat) : s.Holds n ↔ s.holder = some n := by
  have hshape := h.shape
  unfold Holds holder
  generalize s.channel = ch, s.resets = r, s.state = state at hshape ⊢
  cases hshape with
  | free hst => simp
  | trying => simp
  | leaving hst => simp [hst]

theorem Base.conserves (h : s.Base) : s.Conserves := by
  refine ⟨?_, h.backoff.past⟩
  intro n hn
  rw [h.holds_iff]
  by_cases hheld : s.holder = some n
  · exact .inl ⟨hheld, (h.owned.held n hheld).2⟩
  · rcases h.owned.fate n hn hheld with hc | hp
    · exact .inr (.inl ⟨hheld, hc⟩)
    · exact .inr (.inr ⟨hheld, hp⟩)

theorem Base.not_conserves_restart (h : s.Base) {client : Bool} (hst : s.state = .kConnecting)
    (hx : Step client s .restart (.ok t)) : ¬ t.Conserves := by
  obtain ⟨n, hc, _⟩ := h.channel_of_connecting hst
  obtain ⟨hn, hclosed, hpassed⟩ := (h.owned_held hc).held n rfl
  cases hx
  intro hcon
  rcases hcon.1 n hn with hf | hf | hf
  · cases hf.1.1
  · rw [show s.closed n = 1 from hf.2.1] at hclosed
    cases hclosed
  · rw [show s.passed n = 1 from hf.2.2] at hpassed
    cases hpassed

/-- In a run without a failed assertion the sockets are conserved all along, and the retries
back off, exactly if no `restart` comes while the connector is connecting. -/
theorem conserves_iff {acts : List ConnectorAct}
    (h : (machine false).run new acts = some (.ok t)) :
    (∀ pre, pre <+: acts → ∃ u, (machine false).run new pre = some (.ok u) ∧ u.Conserves) ↔
      (machine false).Along Careful new acts := by
  have hgood : ∀ s a t, Base s → s.Careful a → (machine false).step s a = some (.ok t) →
      t.Base := by
    intro s a t hbase hg ht
    exact hbase.step hg (step_sound ht) rfl
  refine Machine.run_along_iff (fun _ => Base.conserves) hgood ?_ new_base h
  intro s a t hbase hg ht
  obtain ⟨hrestart, hst⟩ := Classical.not_imp.mp hg
  rw [hrestart] at ht
  exact hbase.not_conserves_restart (not_not.mp hst) (step_sound ht)

/- Refused, tried again, connected, and connected again after the connection went down. -/
def retried : List ConnectorAct :=
  [.start, .readConnect, .connect .ECONNREFUSED, .timer, .readConnect, .connect .EINPROGRESS,
    .event false (some .connected), .beginFunctors, .runFunctor, .endFunctors, .restart]

theorem conserves_iff_retried : ∃ t, (machine false).run new retried = some (.ok t) ∧
    ∀ pre, pre <+: retried → ∃ u, (machine false).run new pre = some (.ok u) ∧ u.Conserves := by
  have hr : (machine false).runsTo new retried (fun _ => true) = true := by
    decide +kernel
  obtain ⟨t, ht, _⟩ := Machine.exists_of_runsTo hr
  exact ⟨t, ht, (conserves_iff ht).mpr (by decide +kernel)⟩

/- `restart` while the first attempt is under way, and the second is refused: the first
socket is still open in `channel_`, the state is `kDisconnected`. -/
theorem restart_leaks : ¬ ∀ acts t, (machine false).run new acts = some (.ok t) →
    t.Conserves := by
  intro hall
  have hr : (machine false).runsTo new [.start, .readConnect, .connect .EINPROGRESS, .restart,
      .readConnect, .connect .ECONNREFUSED] (fun t => t.created = 2 ∧ t.state = .kDisconnected ∧
        t.closed 0 = 0 ∧ t.passed 0 = 0) = true := by
    decide +kernel
  obtain ⟨t, ht, hp⟩ := Machine.exists_of_runsTo hr
  obtain ⟨hcreated, hst, hclosed, hpassed⟩ := of_decide_eq_true hp
  rcases (hall _ t ht).1 0 (by omega) with hf | hf | hf
  · cases hst.symm.trans hf.1.1
  · omega
  · omega

end Connector

end TstMuduo.Net
