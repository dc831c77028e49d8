import Mathlib.Data.List.Perm.Basic
import TstMuduo.Lib.CInt
import TstMuduo.Lib.Descriptors
import TstMuduo.Lib.ListUpdate
import TstMuduo.Net.TcpConnection

/-!
# All connections of a server (muduo/net/Acceptor.cc, TcpServer.cpp, EventLoopThreadPool.cpp)

The acceptor takes connections from the backlog of its socket, and the pool hands them to its
loops in turn. Where the process has no descriptor left, the acceptor closes the one that it
keeps in reserve, accepts the connection in order to close it, and opens the reserve again;
these are four system calls, and other threads open and close descriptors between them. The
server and its loops stay until the end, and the connections are not told to stop reading.
-/

namespace TstMuduo.Net
open TstMuduo.Lib

/- Where the thread of the acceptor stands: outside `handleRead`, or before one of the four
calls of its branch for `EMFILE` (`Acceptor.cc:108`). -/
inductive AcceptorPc where
  | idle
  | close
  | accept
  | closePeer
  | reopen
  deriving DecidableEq, Repr

/- The calls of other threads that test the state of a connection and act on it later. -/
inductive ConnCall where
  | send
  | shutdown
  | forceClose
  deriving DecidableEq, Repr

inductive ServerFunctor where
  | connectEstablished (k : Nat)
  | removeConnectionInLoop (k : Nat)
  | connectDestroyed (k : Nat)
  | forceCloseInLoop (k : Nat)
  | sendInLoop (k : Nat)
  | shutdownInLoop (k : Nat)
  deriving DecidableEq, Repr

/-- A connection: the number in its name, its socket and its loop (`none` is the server's own),
its state, whether its channel is in the poller and wants events, and whether `connections_`
has it. Then the calls of other threads that have tested the state, those that have stored
`kDisconnecting` as well, and whether the last pointer to the connection is gone. -/
structure ServerConn where
  id : Nat
  fd : Nat
  loop : Option Nat
  state : StateE
  added : Bool
  enabled : Bool
  inMap : Bool
  tested : List ConnCall
  stored : List ConnCall
  released : Bool
  deriving DecidableEq, Repr

def ServerFunctor.subject : ServerFunctor → Nat
  | .connectEstablished k | .removeConnectionInLoop k | .connectDestroyed k | .forceCloseInLoop k
  | .sendInLoop k | .shutdownInLoop k => k

/- The loop that runs the functor. -/
def ServerFunctor.place (c : ServerConn) : ServerFunctor → Option Nat
  | .removeConnectionInLoop _ => none
  | .connectEstablished _ | .connectDestroyed _ | .forceCloseInLoop _ | .sendInLoop _
  | .shutdownInLoop _ => c.loop

/- The functor has a shared pointer to its connection; the other ones are bound to `this`. -/
def ServerFunctor.owns : ServerFunctor → Bool
  | .sendInLoop _ | .shutdownInLoop _ => false
  | _ => true

def ConnCall.functor (k : Nat) : ConnCall → ServerFunctor
  | .send => .sendInLoop k
  | .shutdown => .shutdownInLoop k
  | .forceClose => .forceCloseInLoop k

namespace ServerConn

def holds (n : Nat) (c : ServerConn) : Bool := !c.released && c.fd == n

def Up (c : ServerConn) : Prop := c.state = .kConnected ∨ c.state = .kDisconnecting

instance (c : ServerConn) : Decidable c.Up := inferInstanceAs (Decidable (_ ∨ _))

/- TcpConnection.cpp:397 -/
def connectEstablished (c : ServerConn) : Except Assertion ServerConn := do
  check (c.state = .kConnecting) .connectEstablished
  return { c with state := .kConnected, added := true, enabled := true }

/- TcpConnection.cpp:545 -/
def handleClose (c : ServerConn) : Except Assertion ServerConn := do
  check c.Up .handleClose
  return { c with state := .kDisconnected, enabled := false }

/- TcpConnection.cpp:431; `Channel::remove` wants a channel without events. -/
def connectDestroyed (c : ServerConn) : Except Assertion ServerConn := do
  let d := if c.state = .kConnected then { c with state := .kDisconnected, enabled := false } else c
  check (d.enabled = false) .channelRemove
  return { d with added := false }

/- The destructors of the connection and its channel (`TcpConnection.cpp:83`, `Channel.cc:44`). -/
def destroy (c : ServerConn) : Except Assertion ServerConn := do
  check (c.state = .kDisconnected) .connectionDestructor
  check (c.added = false) .channelDestructor
  return { c with released := true }

def Passes (c : ServerConn) : ConnCall → Prop
  | .send | .shutdown => c.state = .kConnected
  | .forceClose => c.Up

instance (c : ServerConn) (call : ConnCall) : Decidable (c.Passes call) :=
  match call with
  | .send | .shutdown => inferInstanceAs (Decidable (_ = _))
  | .forceClose => inferInstanceAs (Decidable c.Up)

/- The calls that are about to queue their functor: `send` stores nothing. -/
def ready (c : ServerConn) : ConnCall → List ConnCall
  | .send => c.tested
  | .shutdown | .forceClose => c.stored

def finish (c : ServerConn) (call : ConnCall) : ServerConn :=
  match call with
  | .send => { c with tested := c.tested.erase call }
  | .shutdown | .forceClose => { c with stored := c.stored.erase call }

end ServerConn

/-- The process: `foreign` are the descriptors of its other parts, `woken` counts the calls of
`handleRead` and `taken` the connections that have left the backlog. -/
structure ServerProcess where
  fds : Descriptors
  listenFd : Nat
  idleFd : Option Nat
  pc : AcceptorPc
  backlog : Nat
  numThreads : Nat
  next : Nat
  nextConnId : Nat
  conns : List ServerConn
  queue : Option Nat → List ServerFunctor
  foreign : List Nat
  woken : Nat
  taken : Nat

namespace ServerProcess

/- A listening server in a process with the three standard streams. -/
def new (limit numThreads : Nat) (h : 5 ≤ limit) : ServerProcess where
  fds :=
    { limit := limit
      isOpen := fun n => decide (n < 5)
      fits := fun _ hn => Nat.lt_of_lt_of_le (of_decide_eq_true hn) h }
  listenFd := 3
  idleFd := some 4
  pc := .idle
  backlog := 0
  numThreads := numThreads
  next := 0
  nextConnId := 1
  conns := []
  queue := fun _ => []
  foreign := [0, 1, 2]
  woken := 0
  taken := 0

/- `queueInLoop`. -/
def push (s : ServerProcess) (loop : Option Nat) (f : ServerFunctor) : ServerProcess :=
  { s with queue := Function.update s.queue loop (s.queue loop ++ [f]) }

def setConn (s : ServerProcess) (k : Nat) (c : ServerConn) : ServerProcess :=
  { s with conns := s.conns.set k c }

/- `getNextLoop` (`EventLoopThreadPool.cpp:75`). -/
def getNextLoop (s : ServerProcess) : Option Nat × ServerProcess :=
  if s.numThreads = 0 then (none, s)
  else (some s.next, { s with next := if s.numThreads ≤ s.next + 1 then 0 else s.next + 1 })

/- `TcpServer::newConnection` (`TcpServer.cpp:70`); `runInLoop` calls at once in its own loop. -/
def newConnection (s : ServerProcess) (sockfd : Nat) : Except Assertion ServerProcess := do
  let (ioLoop, t) := s.getNextLoop
  check (t.nextConnId + 1 ≤ intMax) .nextConnIdOverflow
  let conn : ServerConn :=
    ⟨t.nextConnId, sockfd, ioLoop, .kConnecting, false, false, true, [], [], false⟩
  let add (c : ServerConn) : ServerProcess :=
    { t with nextConnId := t.nextConnId + 1, conns := t.conns ++ [c] }
  match ioLoop with
  | none => do
    let c ← conn.connectEstablished
    return add c
  | some _ => .ok ((add conn).push ioLoop (.connectEstablished t.conns.length))

/- `removeConnectionInLoop` (`TcpServer.cpp:143`). -/
def removeConnectionInLoop (s : ServerProcess) (k : Nat) (c : ServerConn) :
    Except Assertion ServerProcess := do
  check (c.inMap = true) .removeConnectionErase
  return (s.setConn k { c with inMap := false }).push c.loop (.connectDestroyed k)

/- `handleClose` of a connection, with `TcpServer::removeConnection` (`TcpServer.cpp:128`). -/
def handleClose (s : ServerProcess) (k : Nat) : Except Assertion ServerProcess :=
  match s.conns[k]? with
  | none => .error .useOfConnection
  | some c => do
    let d ← c.handleClose
    match d.loop with
    | none => (s.setConn k d).removeConnectionInLoop k d
    | some _ => return (s.setConn k d).push none (.removeConnectionInLoop k)

/- `Channel::handleEvent` (`Channel.cc:96`): `POLLHUP` without `POLLIN` closes, and so does a
read that returns 0. -/
def handleEvent (s : ServerProcess) (k : Nat) (hup eof : Bool) :
    Except Assertion ServerProcess :=
  (if hup then s.handleClose k else .ok s) >>= fun t => if eof then t.handleClose k else .ok t

/- `Acceptor::handleRead` (`Acceptor.cc:62`) up to the branch for `EMFILE`. -/
def handleRead (s : ServerProcess) : Except Assertion ServerProcess :=
  let t := { s with woken := s.woken + 1 }
  match s.fds.alloc with
  | some (connfd, fds) =>
    { t with fds := fds, backlog := s.backlog - 1, taken := s.taken + 1 }.newConnection connfd
  | none => .ok { t with pc := .close }

def closeIdle (s : ServerProcess) : Descriptors :=
  match s.idleFd with
  | some fd => s.fds.close fd
  | none => s.fds

/- The next system call of that branch. -/
def emfile (s : ServerProcess) : Option ServerProcess :=
  match s.pc with
  | .idle => none
  | .close => some { s with fds := s.closeIdle, pc := .accept }
  | .accept =>
    match s.fds.alloc with
    | some (fd, fds) => some { s with
        fds := fds
        idleFd := some fd
        pc := .closePeer
        backlog := s.backlog - 1
        taken := s.taken + 1 }
    | none => some { s with idleFd := none, pc := .closePeer }
  | .closePeer => some { s with fds := s.closeIdle, pc := .reopen }
  | .reopen =>
    match s.fds.alloc with
    | some (fd, fds) => some { s with fds := fds, idleFd := some fd, pc := .idle }
    | none => some { s with idleFd := none, pc := .idle }

/- The functor of a loop that comes next. -/
def runFunctor (s : ServerProcess) (f : ServerFunctor) : Option (Except Assertion ServerProcess) :=
  s.conns[f.subject]?.map fun c =>
    match f with
    | .connectEstablished k => c.connectEstablished.map (s.setConn k)
    | .removeConnectionInLoop k => s.removeConnectionInLoop k c
    | .connectDestroyed k => c.connectDestroyed.map (s.setConn k)
    | .forceCloseInLoop k => if c.Up then s.handleClose k else .ok s
    | .sendInLoop _ | .shutdownInLoop _ => (check (c.released = false) .useOfConnection).map fun _ => s

/-! ### Steps -/

/- What happens to a connection, its functors apart: an event in the thread of its loop, the
three parts of a call (`runInLoop` calls at once where the thread is the loop's `own`), and the
end of the last pointer to it. -/
inductive ConnAct where
  | event (hup eof : Bool)
  | test (call : ConnCall)
  | store (call : ConnCall)
  | inLoop (call : ConnCall) (own : Bool)
  | release
  deriving DecidableEq, Repr

inductive ServerAct where
  /- a client connects -/
  | arrive
  /- the thread of the server's loop -/
  | handleRead
  | emfile
  /- the thread of a loop -/
  | run (loop : Option Nat)
  | conn (k : Nat) (a : ConnAct)
  /- the rest of the process -/
  | foreignOpen
  | foreignClose (i : Nat)
  deriving DecidableEq, Repr

def Free (s : ServerProcess) (loop : Option Nat) : Prop := loop = none → s.pc = .idle

instance (s : ServerProcess) (loop : Option Nat) : Decidable (s.Free loop) :=
  inferInstanceAs (Decidable (_ → _))

/- No pointer of the library to the connection is left, and no call is under way on it. -/
def Unreferenced (s : ServerProcess) (k : Nat) (c : ServerConn) : Prop :=
  c.inMap = false ∧ c.tested = [] ∧ c.stored = [] ∧
    ∀ f ∈ s.queue c.loop ++ s.queue none, f.subject = k → f.owns = false

instance (s : ServerProcess) (k : Nat) (c : ServerConn) : Decidable (s.Unreferenced k c) :=
  inferInstanceAs (Decidable (_ ∧ _))

def connStep (s : ServerProcess) (k : Nat) (c : ServerConn) :
    ConnAct → Option (Except Assertion ServerProcess)
  | .event hup eof =>
    if s.Free c.loop ∧ c.enabled = true then some (s.handleEvent k hup eof) else none
  | .test call =>
    if c.released = false ∧ c.Passes call then
      some (.ok (s.setConn k { c with tested := call :: c.tested }))
    else none
  | .store call =>
    if call ∈ c.tested ∧ call ≠ .send then
      some (.ok (s.setConn k { c with
        state := .kDisconnecting
        tested := c.tested.erase call
        stored := call :: c.stored }))
    else none
  | .inLoop call own =>
    if call ∈ c.ready call then
      some (.ok (if own = true ∧ call ≠ .forceClose then s.setConn k (c.finish call)
        else (s.setConn k (c.finish call)).push c.loop (call.functor k)))
    else none
  | .release =>
    if s.Unreferenced k c ∧ c.released = false then
      some (c.destroy.map fun d => { s.setConn k d with fds := s.fds.close c.fd })
    else none

def step (s : ServerProcess) : ServerAct → Option (Except Assertion ServerProcess)
  | .arrive => some (.ok { s with backlog := s.backlog + 1 })
  | .handleRead => if s.pc = .idle ∧ 0 < s.backlog then some s.handleRead else none
  | .emfile => s.emfile.map .ok
  | .run loop =>
    if s.Free loop then
      match s.queue loop with
      | [] => none
      | f :: rest => { s with queue := Function.update s.queue loop rest }.runFunctor f
    else none
  | .conn k a => s.conns[k]?.bind fun c => s.connStep k c a
  | .foreignOpen => s.fds.alloc.map fun x =>
      .ok { s with fds := x.2, foreign := s.foreign ++ [x.1] }
  | .foreignClose i => s.foreign[i]?.map fun fd =>
      .ok { s with fds := s.fds.close fd, foreign := s.foreign.eraseIdx i }

def machine (limit numThreads : Nat) (h : 5 ≤ limit) :
    Machine ServerProcess ServerAct Assertion where
  init := new limit numThreads h
  step := step

/-! ### Descriptors -/

/- `idleFd_` names a descriptor that is open, not one that was just closed. -/
def holdsIdle (s : ServerProcess) : Bool :=
  match s.pc with
  | .idle | .close | .closePeer => true
  | .accept | .reopen => false

/-- Who holds the descriptor `n`: the listening socket, the reserve, a connection, or another
part of the process. -/
def holders (s : ServerProcess) (n : Nat) : Nat :=
  (if n = s.listenFd then 1 else 0) + (if s.holdsIdle = true ∧ s.idleFd = some n then 1 else 0) +
    s.foreign.count n + s.conns.countP (ServerConn.holds n)

/-- The descriptors are accounted for, and a connection waits where the acceptor is about to
accept it. -/
structure Kept (s : ServerProcess) : Prop where
  accounted : s.fds.Accounted s.holders
  waiting : s.pc = .close ∨ s.pc = .accept → 0 < s.backlog

/-- The acceptor has its reserve, open, or room to open it, and every call of `handleRead` takes
one connection from the backlog. -/
structure Ready (s : ServerProcess) : Prop where
  reserve : if s.holdsIdle = true then ∃ fd, s.idleFd = some fd ∧ s.fds.isOpen fd = true
    else s.fds.alloc ≠ none
  taken : s.woken = s.taken + if s.pc = .close ∨ s.pc = .accept then 1 else 0

/-- The rest of the process does not take the last free descriptor between the `close` of the
acceptor and its next call. -/
def Undisturbed (s : ServerProcess) (a : ServerAct) : Prop :=
  a = .foreignOpen → s.holdsIdle = false →
    (s.fds.alloc.bind fun x => x.2.alloc).isSome = true

instance (s : ServerProcess) (a : ServerAct) : Decidable (s.Undisturbed a) :=
  inferInstanceAs (Decidable (_ → _ → _))

variable {s t u : ServerProcess} {k n : Nat} {c d : ServerConn}

theorem new_kept (limit numThreads : Nat) (h : 5 ≤ limit) : (new limit numThreads h).Kept where
  accounted := by
    intro n
    by_cases hn : n < 5
    · have hcases : n = 0 ∨ n = 1 ∨ n = 2 ∨ n = 3 ∨ n = 4 := by omega
      rcases hcases with rfl | rfl | rfl | rfl | rfl <;> rfl
    · have hopen : decide (n < 5) = false := decide_eq_false hn
      have hcount : [0, 1, 2].count n = 0 := by
        rw [List.count_eq_zero]
        intro hm
        simp only [List.mem_cons, List.not_mem_nil, or_false] at hm
        omega
      have hidle : ¬ (some 4 = some n) := fun he => by
        cases he
        omega
      show (if n = 3 then 1 else 0) + (if true = true ∧ some 4 = some n then 1 else 0) +
        [0, 1, 2].count n + 0 = (decide (n < 5)).toNat
      rw [if_neg (by omega), if_neg fun he => hidle he.2, hcount, hopen]
      rfl
  waiting he := by
    rcases he with he | he
    · cases he
    · cases he

theorem new_ready (limit numThreads : Nat) (h : 5 ≤ limit) : (new limit numThreads h).Ready where
  reserve := by
    rw [if_pos (show (new limit numThreads h).holdsIdle = true from rfl)]
    exact ⟨4, rfl, rfl⟩
  taken := rfl

theorem Kept.ready (h : s.Kept)
    (hres : if s.holdsIdle = true then s.idleFd ≠ none else s.fds.alloc ≠ none)
    (htaken : s.woken = s.taken + if s.pc = .close ∨ s.pc = .accept then 1 else 0) :
    s.Ready := by
  refine ⟨?_, htaken⟩
  split
  next hidle =>
    rw [if_pos hidle] at hres
    obtain ⟨fd, hfd⟩ := Option.ne_none_iff_exists'.mp hres
    have hheld : s.holdsIdle = true ∧ s.idleFd = some fd := ⟨hidle, hfd⟩
    refine ⟨fd, hfd, h.accounted.isOpen ?_⟩
    unfold holders
    rw [if_pos hheld]
    omega
  next hidle =>
    rw [if_neg hidle] at hres
    exact hres

theorem Ready.spare (h : s.Ready) :
    if s.holdsIdle = true then s.idleFd ≠ none else s.fds.alloc ≠ none := by
  have hres := h.reserve
  split
  next hidle =>
    rw [if_pos hidle] at hres
    obtain ⟨fd, hfd, _⟩ := hres
    rw [hfd]
    exact Option.some_ne_none fd
  next hidle =>
    rw [if_neg hidle] at hres
    exact hres

/-! ### What a connection does not touch -/

/-- Everything but the connections and the functors stays. -/
structure Framed (s t : ServerProcess) : Prop where
  fds : t.fds = s.fds
  listenFd : t.listenFd = s.listenFd
  idleFd : t.idleFd = s.idleFd
  pc : t.pc = s.pc
  backlog : t.backlog = s.backlog
  foreign : t.foreign = s.foreign
  woken : t.woken = s.woken
  taken : t.taken = s.taken
  numThreads : t.numThreads = s.numThreads

theorem Framed.trans (h : Framed s t) (h' : Framed t u) : Framed s u where
  fds := h'.fds.trans h.fds
  listenFd := h'.listenFd.trans h.listenFd
  idleFd := h'.idleFd.trans h.idleFd
  pc := h'.pc.trans h.pc
  backlog := h'.backlog.trans h.backlog
  foreign := h'.foreign.trans h.foreign
  woken := h'.woken.trans h.woken
  taken := h'.taken.trans h.taken
  numThreads := h'.numThreads.trans h.numThreads

/-- The connections have gone on, with their descriptors where they were. -/
structure Quiet (s t : ServerProcess) : Prop where
  framed : Framed s t
  holds : ∀ n, t.conns.countP (ServerConn.holds n) = s.conns.countP (ServerConn.holds n)

theorem Quiet.trans (h : Quiet s t) (h' : Quiet t u) : Quiet s u :=
  ⟨h.framed.trans h'.framed, fun n => (h'.holds n).trans (h.holds n)⟩

theorem quiet_queue (s : ServerProcess) (q : Option Nat → List ServerFunctor) :
    Quiet s { s with queue := q } :=
  ⟨⟨rfl, rfl, rfl, rfl, rfl, rfl, rfl, rfl, rfl⟩, fun _ => rfl⟩

theorem countP_holds_set (hc : s.conns[k]? = some c) (hfd : d.fd = c.fd)
    (hrel : d.released = c.released) (n : Nat) :
    (s.conns.set k d).countP (ServerConn.holds n) = s.conns.countP (ServerConn.holds n) := by
  have hadd := countP_set_add (b := d) (p := ServerConn.holds n) hc
  have hsame : ServerConn.holds n d = ServerConn.holds n c := by
    unfold ServerConn.holds
    rw [hfd, hrel]
  rw [hsame] at hadd
  exact Nat.add_right_cancel hadd

theorem quiet_setConn (hc : s.conns[k]? = some c) (hfd : d.fd = c.fd)
    (hrel : d.released = c.released) : Quiet s (s.setConn k d) :=
  ⟨⟨rfl, rfl, rfl, rfl, rfl, rfl, rfl, rfl, rfl⟩, countP_holds_set hc hfd hrel⟩

theorem quiet_removeConnectionInLoop (hc : s.conns[k]? = some c)
    (h : s.removeConnectionInLoop k c = .ok t) : Quiet s t := by
  obtain ⟨_, _, h⟩ := bind_eq_ok h
  cases h
  exact (quiet_setConn (d := { c with inMap := false }) hc rfl rfl).trans (quiet_queue _ _)

theorem handleClose_eq (h : c.handleClose = .ok d) :
    c.Up ∧ d = { c with state := .kDisconnected, enabled := false } := by
  unfold ServerConn.handleClose check at h
  split at h
  next hup =>
    cases h
    exact ⟨hup, rfl⟩
  · cases h

theorem getElem?_setConn (hc : s.conns[k]? = some c) : (s.setConn k d).conns[k]? = some d :=
  List.getElem?_set_self (List.getElem?_eq_some_iff.mp hc).1

theorem quiet_handleClose (h : s.handleClose k = .ok t) : Quiet s t := by
  unfold ServerProcess.handleClose at h
  split at h
  · cases h
  next c hc =>
    obtain ⟨d, hd, h⟩ := bind_eq_ok h
    obtain ⟨_, rfl⟩ := handleClose_eq hd
    have hset := quiet_setConn (d := { c with state := .kDisconnected, enabled := false }) hc rfl rfl
    split at h
    · exact hset.trans (quiet_removeConnectionInLoop (getElem?_setConn hc) h)
    · cases h
      exact hset.trans (quiet_queue _ _)

theorem quiet_handleEvent {hup eof : Bool} (h : s.handleEvent k hup eof = .ok t) : Quiet s t := by
  obtain ⟨u, hu, h⟩ := bind_eq_ok h
  have hfirst : Quiet s u := by
    cases hup with
    | true => exact quiet_handleClose hu
    | false =>
      cases hu
      exact quiet_queue s s.queue
  cases eof with
  | true => exact hfirst.trans (quiet_handleClose h)
  | false =>
    cases h
    exact hfirst

theorem quiet_runFunctor {f : ServerFunctor} (h : s.runFunctor f = some (.ok t)) : Quiet s t := by
  obtain ⟨c, hc, h⟩ := Option.map_eq_some_iff.mp h
  cases f with
  | connectEstablished k =>
    obtain ⟨d, hd, rfl⟩ := map_eq_ok h
    obtain ⟨_, _, hd⟩ := bind_eq_ok hd
    cases hd
    exact quiet_setConn hc rfl rfl
  | removeConnectionInLoop k => exact quiet_removeConnectionInLoop hc h
  | connectDestroyed k =>
    obtain ⟨d, hd, rfl⟩ := map_eq_ok h
    obtain ⟨_, _, hd⟩ := bind_eq_ok hd
    cases hd
    refine quiet_setConn hc ?_ ?_
    · split <;> rfl
    · split <;> rfl
  | forceCloseInLoop k =>
    simp only at h
    split at h
    · exact quiet_handleClose h
    · cases h
      exact quiet_queue s s.queue
  | sendInLoop k | shutdownInLoop k =>
    obtain ⟨_, _, rfl⟩ := map_eq_ok h
    exact quiet_queue s s.queue

theorem fd_finish (c : ServerConn) (call : ConnCall) :
    (c.finish call).fd = c.fd ∧ (c.finish call).released = c.released := by
  cases call <;> exact ⟨rfl, rfl⟩

theorem quiet_connStep {a : ConnAct} (hc : s.conns[k]? = some c) (ha : a ≠ .release)
    (h : s.connStep k c a = some (.ok t)) : Quiet s t := by
  cases a with
  | event hup eof =>
    simp only [connStep] at h
    split at h
    · exact quiet_handleEvent (Option.some.inj h)
    · cases h
  | test call =>
    simp only [connStep] at h
    split at h
    · cases h
      exact quiet_setConn hc rfl rfl
    · cases h
  | store call =>
    simp only [connStep] at h
    split at h
    · cases h
      exact quiet_setConn hc rfl rfl
    · cases h
  | inLoop call own =>
    have hset := quiet_setConn hc (fd_finish c call).1 (fd_finish c call).2
    simp only [connStep] at h
    split at h
    · cases h
      split
      · exact hset
      · exact hset.trans (quiet_queue _ _)
    · cases h
  | release => exact absurd rfl ha

/-! ### What a step does to the descriptors -/

theorem Quiet.holders (h : Quiet s t) : t.holders = s.holders := by
  funext n
  unfold ServerProcess.holders holdsIdle
  rw [h.framed.listenFd, h.framed.pc, h.framed.idleFd, h.framed.foreign, h.holds n]

theorem Quiet.kept (h : Quiet s t) (hk : s.Kept) : t.Kept := by
  refine ⟨?_, ?_⟩
  · rw [h.holders, h.framed.fds]
    exact hk.accounted
  · rw [h.framed.pc, h.framed.backlog]
    exact hk.waiting

theorem Ready.congr (h : s.Ready) (hfds : t.fds = s.fds) (hi : t.idleFd = s.idleFd)
    (hp : t.pc = s.pc) (hw : t.woken = s.woken) (ht : t.taken = s.taken) : t.Ready := by
  refine ⟨?_, ?_⟩
  · unfold holdsIdle
    rw [hp, hi, hfds]
    exact h.reserve
  · rw [hp, hw, ht]
    exact h.taken

/-- What an action leads to where no assertion fails: the descriptors are accounted for, and
what the acceptor keeps ready stays so where the rest of the process allows it. -/
structure Goes (s : ServerProcess) (a : ServerAct) (t : ServerProcess) : Prop where
  kept : t.Kept
  numThreads : t.numThreads = s.numThreads
  ready : s.Ready → s.Undisturbed a → t.Ready

theorem Quiet.goes (h : Quiet s t) (hs : s.Kept) (a : ServerAct) : s.Goes a t where
  kept := h.kept hs
  numThreads := h.framed.numThreads
  ready hr _ := hr.congr h.framed.fds h.framed.idleFd h.framed.pc h.framed.woken h.framed.taken

theorem newConnection_eq {sockfd : Nat} (h : s.newConnection sockfd = .ok t) :
    Framed s t ∧ ∃ c, c.fd = sockfd ∧ c.released = false ∧ t.conns = s.conns ++ [c] := by
  have hnext : Framed s s.getNextLoop.2 ∧ s.getNextLoop.2.conns = s.conns := by
    unfold getNextLoop
    split
    · exact ⟨⟨rfl, rfl, rfl, rfl, rfl, rfl, rfl, rfl, rfl⟩, rfl⟩
    · exact ⟨⟨rfl, rfl, rfl, rfl, rfl, rfl, rfl, rfl, rfl⟩, rfl⟩
  unfold newConnection at h
  generalize s.getNextLoop = x at h hnext
  obtain ⟨ioLoop, u⟩ := x
  obtain ⟨hframed, hconns⟩ := hnext
  obtain ⟨_, _, h⟩ := bind_eq_ok h
  cases ioLoop with
  | none =>
    obtain ⟨c, hc, h⟩ := bind_eq_ok h
    obtain ⟨_, _, hc⟩ := bind_eq_ok hc
    cases hc
    cases h
    refine ⟨hframed.trans ⟨rfl, rfl, rfl, rfl, rfl, rfl, rfl, rfl, rfl⟩,
      ⟨u.nextConnId, sockfd, none, .kConnected, true, true, true, [], [], false⟩, rfl, rfl, ?_⟩
    exact congrArg (· ++ _) hconns
  | some l =>
    cases h
    refine ⟨hframed.trans ⟨rfl, rfl, rfl, rfl, rfl, rfl, rfl, rfl, rfl⟩,
      ⟨u.nextConnId, sockfd, some l, .kConnecting, false, false, true, [], [], false⟩, rfl, rfl,
      ?_⟩
    exact congrArg (· ++ _) hconns

theorem Kept.handleRead (h : s.Kept) (hpc : s.pc = .idle) (hb : 0 < s.backlog)
    (ht : s.handleRead = .ok t) : s.Goes .handleRead t := by
  have hidle : s.holdsIdle = true := by
    unfold holdsIdle
    rw [hpc]
  unfold ServerProcess.handleRead at ht
  cases ha : s.fds.alloc with
  | none =>
    -- the descriptors of the process are used up
    rw [ha] at ht
    cases ht
    have hsame : holders { s with woken := s.woken + 1, pc := .close } = s.holders := by
      funext n
      unfold holders holdsIdle
      rw [hpc]
    have hkept : Kept { s with woken := s.woken + 1, pc := .close } :=
      ⟨hsame ▸ h.accounted, fun _ => hb⟩
    refine ⟨hkept, rfl, fun hr _ => hkept.ready ?_ ?_⟩
    · have hres := hr.spare
      rw [hidle] at hres
      exact hres
    · have htaken := hr.taken
      rw [hpc] at htaken
      exact congrArg (· + 1) htaken
  | some x =>
    obtain ⟨connfd, fds⟩ := x
    rw [ha] at ht
    obtain ⟨hframed, c, hfd, hrel, hconns⟩ := newConnection_eq ht
    have hp : t.pc = .idle := hframed.pc.trans hpc
    have hi : t.idleFd = s.idleFd := hframed.idleFd
    have hholdsIdle : t.holdsIdle = true := by
      unfold holdsIdle
      rw [hp]
    have hkept : t.Kept := by
      refine ⟨?_, ?_⟩
      · rw [hframed.fds]
        refine h.accounted.alloc ha fun n => ?_
        have hholds : ServerConn.holds n c = decide (n = connfd) := by
          unfold ServerConn.holds
          rw [hrel, hfd, beq_eq_decide, decide_eq_decide.mpr eq_comm]
          rfl
        unfold holders
        rw [hholdsIdle, hidle, hi, hconns, hframed.listenFd, hframed.foreign, List.countP_append,
          List.countP_singleton, hholds]
        simp only [decide_eq_true_eq]
        omega
      · rw [hp]
        rintro (hno | hno)
        · cases hno
        · cases hno
    refine ⟨hkept, hframed.numThreads, fun hr _ => hkept.ready ?_ ?_⟩
    · have hres := hr.spare
      rw [hidle] at hres
      rw [hholdsIdle, hi]
      exact hres
    · have htaken := hr.taken
      rw [hpc] at htaken
      rw [hp, hframed.woken, hframed.taken]
      exact congrArg (· + 1) htaken

section

variable {fds : Descriptors} {fd : Nat}

theorem holders_closeIdle (hidle : s.holdsIdle = true) (htidle : t.holdsIdle = false)
    (hl : t.listenFd = s.listenFd) (hf : t.foreign = s.foreign) (hc : t.conns = s.conns) (n : Nat) :
    s.holders n = t.holders n + if s.idleFd = some n then 1 else 0 := by
  unfold holders
  rw [hidle, htidle, hl, hf, hc]
  simp only [true_and, Bool.false_eq_true, false_and, if_false]
  omega

theorem accounted_closeIdle (h : s.fds.Accounted s.holders) (hidle : s.holdsIdle = true)
    (htidle : t.holdsIdle = false) (hl : t.listenFd = s.listenFd) (hf : t.foreign = s.foreign)
    (hc : t.conns = s.conns) : s.closeIdle.Accounted t.holders := by
  have hholders := holders_closeIdle hidle htidle hl hf hc
  unfold closeIdle
  cases hi : s.idleFd with
  | none =>
    have hsame : s.holders = t.holders := by
      funext n
      rw [hholders, hi]
      rfl
    exact hsame ▸ h
  | some fd =>
    refine h.close fun n => ?_
    have hiff : some fd = some n ↔ n = fd :=
      ⟨fun he => (Option.some.inj he).symm, fun he => congrArg some he.symm⟩
    rw [hholders, hi, if_congr hiff rfl rfl]

theorem room_closeIdle (h : s.fds.Accounted s.holders) (hidle : s.holdsIdle = true)
    (hres : s.idleFd ≠ none) : s.closeIdle.alloc ≠ none := by
  obtain ⟨fd, hfd⟩ := Option.ne_none_iff_exists'.mp hres
  unfold closeIdle
  rw [hfd]
  refine Descriptors.alloc_close_ne_none (h.isOpen ?_)
  have hheld : s.holdsIdle = true ∧ s.idleFd = some fd := ⟨hidle, hfd⟩
  unfold holders
  rw [if_pos hheld]
  omega

theorem accounted_openIdle (h : s.fds.Accounted s.holders) (ha : s.fds.alloc = some (fd, fds))
    (hidle : s.holdsIdle = false) (htidle : t.holdsIdle = true) (hi : t.idleFd = some fd)
    (hl : t.listenFd = s.listenFd) (hf : t.foreign = s.foreign) (hc : t.conns = s.conns) :
    fds.Accounted t.holders := by
  refine h.alloc ha fun n => ?_
  unfold holders
  rw [hidle, htidle, hl, hf, hc, hi]
  simp only [true_and, Bool.false_eq_true, false_and, if_false, Option.some.injEq, eq_comm]
  omega

theorem accounted_noIdle (h : s.fds.Accounted s.holders) (hidle : s.holdsIdle = false)
    (hi : t.idleFd = none) (hl : t.listenFd = s.listenFd) (hf : t.foreign = s.foreign)
    (hc : t.conns = s.conns) : s.fds.Accounted t.holders := by
  have hsame : t.holders = s.holders := by
    funext n
    unfold holders
    rw [hidle, hl, hf, hc, hi]
    simp only [reduceCtorEq, Bool.false_eq_true, and_false, false_and, if_false]
  rw [hsame]
  exact h

variable {p : AcceptorPc}

theorem Kept.closes (h : s.Kept) (hidle : s.holdsIdle = true)
    (htidle : holdsIdle { s with fds := s.closeIdle, pc := p } = false)
    (hp : p = .close ∨ p = .accept ↔ s.pc = .close ∨ s.pc = .accept) :
    s.Goes .emfile { s with fds := s.closeIdle, pc := p } := by
  have hkept : Kept { s with fds := s.closeIdle, pc := p } :=
    ⟨accounted_closeIdle h.accounted hidle htidle rfl rfl rfl, fun hw => h.waiting (hp.mp hw)⟩
  refine ⟨hkept, rfl, fun hr _ => hkept.ready ?_ ?_⟩
  · have hres := hr.spare
    rw [hidle] at hres
    rw [htidle]
    exact room_closeIdle h.accounted hidle hres
  · have htaken := hr.taken
    rw [if_congr hp.symm rfl rfl] at htaken
    exact htaken

theorem Kept.opens (h : s.Kept) (hidle : s.holdsIdle = false) (hp : p = .idle ∨ p = .closePeer)
    (ha : s.fds.alloc = some (fd, fds)) {b n : Nat} (hn : s.Ready → s.woken = n) :
    s.Goes .emfile { s with
      fds := fds
      idleFd := some fd
      pc := p
      backlog := b
      taken := n } := by
  have hpc : ¬ (p = .close ∨ p = .accept) := by rcases hp with rfl | rfl <;> decide
  have htidle (q : ServerProcess) (hq : q.pc = p) : q.holdsIdle = true := by
    unfold holdsIdle
    rw [hq]
    rcases hp with rfl | rfl <;> rfl
  have hkept : Kept { s with fds := fds, idleFd := some fd, pc := p, backlog := b, taken := n } :=
    ⟨accounted_openIdle h.accounted ha hidle (htidle _ rfl) rfl rfl rfl rfl,
      fun hno => absurd hno hpc⟩
  refine ⟨hkept, rfl, fun hr _ => hkept.ready ?_ ?_⟩
  · rw [htidle _ rfl]
    exact Option.some_ne_none fd
  · rw [if_neg hpc]
    exact hn hr

theorem Kept.loses (h : s.Kept) (hidle : s.holdsIdle = false) (hp : p = .idle ∨ p = .closePeer)
    (ha : s.fds.alloc = none) : s.Goes .emfile { s with idleFd := none, pc := p } := by
  have hpc : ¬ (p = .close ∨ p = .accept) := by rcases hp with rfl | rfl <;> decide
  refine ⟨⟨?_, fun hno => absurd hno hpc⟩, rfl, fun hr _ => ?_⟩
  · exact accounted_noIdle (s := s) (t := { s with idleFd := none, pc := p }) h.accounted
      hidle rfl rfl rfl rfl
  · have hres := hr.spare
    rw [hidle] at hres
    exact absurd ha hres

end

theorem Kept.emfile (h : s.Kept) (ht : s.emfile = some t) : s.Goes .emfile t := by
  have htaken (hr : s.Ready) := hr.taken
  unfold ServerProcess.emfile at ht
  split at ht
  next => cases ht
  next hpc =>
    cases ht
    have hidle : s.holdsIdle = true := by
      unfold holdsIdle
      rw [hpc]
    refine h.closes hidle rfl ?_
    rw [hpc]
    decide
  next hpc =>
    have hidle : s.holdsIdle = false := by
      unfold holdsIdle
      rw [hpc]
    rw [hpc] at htaken
    split at ht
    next fd fds ha =>
      cases ht
      exact h.opens hidle (.inr rfl) ha htaken
    next ha =>
      cases ht
      exact h.loses hidle (.inr rfl) ha
  next hpc =>
    cases ht
    have hidle : s.holdsIdle = true := by
      unfold holdsIdle
      rw [hpc]
    refine h.closes hidle rfl ?_
    rw [hpc]
    decide
  next hpc =>
    have hidle : s.holdsIdle = false := by
      unfold holdsIdle
      rw [hpc]
    rw [hpc] at htaken
    split at ht
    next fd fds ha =>
      cases ht
      exact h.opens hidle (.inl rfl) ha htaken
    next ha =>
      cases ht
      exact h.loses hidle (.inl rfl) ha

theorem Kept.arrive (h : s.Kept) : s.Goes .arrive { s with backlog := s.backlog + 1 } :=
  ⟨⟨h.accounted, fun _ => Nat.succ_pos _⟩, rfl, fun hr _ => hr.congr rfl rfl rfl rfl rfl⟩

theorem Kept.ready_close (ht : t.Kept) (h : s.Ready) (n : Nat) (hfds : t.fds = s.fds.close n)
    (hi : t.idleFd = s.idleFd) (hp : t.pc = s.pc) (hw : t.woken = s.woken)
    (htaken : t.taken = s.taken) : t.Ready := by
  have htidle : t.holdsIdle = s.holdsIdle := by
    unfold holdsIdle
    rw [hp]
  refine ht.ready ?_ ?_
  · have hres := h.spare
    rw [htidle, hi, hfds]
    cases hidle : s.holdsIdle with
    | true =>
      rw [hidle] at hres
      exact hres
    | false =>
      rw [hidle] at hres
      exact Descriptors.alloc_close_mono hres n
  · rw [hp, hw, htaken]
    exact h.taken

theorem Kept.release (h : s.Kept) (hc : s.conns[k]? = some c) (hrel : c.released = false) :
    s.Goes (.conn k .release)
      { s.setConn k { c with released := true } with fds := s.fds.close c.fd } := by
  have hkept : Kept { s.setConn k { c with released := true } with fds := s.fds.close c.fd } := by
    refine ⟨?_, h.waiting⟩
    refine h.accounted.close fun n => ?_
    have hadd := countP_set_add (b := { c with released := true }) (p := ServerConn.holds n) hc
    have hold : ServerConn.holds n c = decide (n = c.fd) := by
      unfold ServerConn.holds
      rw [hrel, beq_eq_decide, decide_eq_decide.mpr eq_comm]
      rfl
    have hnew : ServerConn.holds n { c with released := true } = false := rfl
    rw [hold, hnew] at hadd
    simp only [decide_eq_true_eq, Bool.false_eq_true, if_false] at hadd
    show (if n = s.listenFd then 1 else 0) +
      (if s.holdsIdle = true ∧ s.idleFd = some n then 1 else 0) + s.foreign.count n +
        s.conns.countP (ServerConn.holds n) =
      (if n = s.listenFd then 1 else 0) +
        (if s.holdsIdle = true ∧ s.idleFd = some n then 1 else 0) + s.foreign.count n +
          (s.conns.set k { c with released := true }).countP (ServerConn.holds n) +
            if n = c.fd then 1 else 0
    omega
  exact ⟨hkept, rfl, fun hr _ => hkept.ready_close hr c.fd rfl rfl rfl rfl rfl⟩

theorem destroy_eq (h : c.destroy = .ok d) :
    c.state = .kDisconnected ∧ c.added = false ∧ d = { c with released := true } := by
  unfold ServerConn.destroy check at h
  split at h
  next hst =>
    split at h
    next hadd =>
      cases h
      exact ⟨hst, hadd, rfl⟩
    · cases h
  · cases h

theorem Kept.foreignOpen (h : s.Kept) {fd : Nat} {fds : Descriptors}
    (ha : s.fds.alloc = some (fd, fds)) :
    s.Goes .foreignOpen { s with fds := fds, foreign := s.foreign ++ [fd] } := by
  have hkept : Kept { s with fds := fds, foreign := s.foreign ++ [fd] } := by
    refine ⟨?_, h.waiting⟩
    refine h.accounted.alloc ha fun n => ?_
    show (if n = s.listenFd then 1 else 0) +
        (if s.holdsIdle = true ∧ s.idleFd = some n then 1 else 0) + (s.foreign ++ [fd]).count n +
        s.conns.countP (ServerConn.holds n) =
      (if n = s.listenFd then 1 else 0) +
        (if s.holdsIdle = true ∧ s.idleFd = some n then 1 else 0) + s.foreign.count n +
        s.conns.countP (ServerConn.holds n) + if n = fd then 1 else 0
    rw [List.count_append, List.count_singleton]
    simp only [beq_iff_eq, eq_comm (a := fd)]
    omega
  refine ⟨hkept, rfl, fun hr hu => hkept.ready ?_ hr.taken⟩
  have hres := hr.spare
  show if s.holdsIdle = true then s.idleFd ≠ none else fds.alloc ≠ none
  cases hidle : s.holdsIdle with
  | true =>
    rw [hidle] at hres
    exact hres
  | false =>
    have hroom := hu rfl hidle
    rw [ha] at hroom
    exact Option.isSome_iff_ne_none.mp hroom

theorem Kept.foreignClose (h : s.Kept) {i fd : Nat} (hi : s.foreign[i]? = some fd) :
    s.Goes (.foreignClose i) { s with fds := s.fds.close fd, foreign := s.foreign.eraseIdx i } := by
  have hkept : Kept { s with fds := s.fds.close fd, foreign := s.foreign.eraseIdx i } := by
    refine ⟨?_, h.waiting⟩
    refine h.accounted.close fun n => ?_
    obtain ⟨hlt, hget⟩ := List.getElem?_eq_some_iff.mp hi
    have hperm := (List.getElem_cons_eraseIdx_perm hlt).count_eq n
    rw [hget, List.count_cons] at hperm
    simp only [beq_iff_eq, eq_comm (a := fd)] at hperm
    show (if n = s.listenFd then 1 else 0) +
        (if s.holdsIdle = true ∧ s.idleFd = some n then 1 else 0) + s.foreign.count n +
        s.conns.countP (ServerConn.holds n) =
      (if n = s.listenFd then 1 else 0) +
        (if s.holdsIdle = true ∧ s.idleFd = some n then 1 else 0) +
        (s.foreign.eraseIdx i).count n + s.conns.countP (ServerConn.holds n) +
          if n = fd then 1 else 0
    omega
  exact ⟨hkept, rfl, fun hr _ => hkept.ready_close hr fd rfl rfl rfl rfl rfl⟩

/-- Whatever the connections do, a step keeps the descriptors accounted for. -/
theorem Kept.step (h : s.Kept) {a : ServerAct} (hx : s.step a = some (.ok t)) : s.Goes a t := by
  cases a with
  | arrive =>
    cases hx
    exact h.arrive
  | handleRead =>
    simp only [ServerProcess.step] at hx
    split at hx
    next hg => exact h.handleRead hg.1 hg.2 (Option.some.inj hx)
    · cases hx
  | emfile =>
    obtain ⟨u, hu, hut⟩ := Option.map_eq_some_iff.mp hx
    cases hut
    exact h.emfile hu
  | run loop =>
    simp only [ServerProcess.step] at hx
    split at hx
    · split at hx
      · cases hx
      next f rest hq => exact ((quiet_queue _ _).trans (quiet_runFunctor hx)).goes h _
    · cases hx
  | conn k a =>
    obtain ⟨c, hc, hx⟩ := Option.bind_eq_some_iff.mp hx
    by_cases ha : a = .release
    · subst ha
      simp only [connStep] at hx
      split at hx
      next hg =>
        obtain ⟨d, hd, rfl⟩ := map_eq_ok (Option.some.inj hx)
        obtain ⟨_, _, rfl⟩ := destroy_eq hd
        exact h.release hc hg.2
      · cases hx
    · exact (quiet_connStep hc ha hx).goes h _
  | foreignOpen =>
    obtain ⟨⟨fd, fds⟩, ha, hut⟩ := Option.map_eq_some_iff.mp hx
    cases hut
    exact h.foreignOpen ha
  | foreignClose i =>
    obtain ⟨fd, hi, hut⟩ := Option.map_eq_some_iff.mp hx
    cases hut
    exact h.foreignClose hi

variable {limit numThreads : Nat} {hlimit : 5 ≤ limit} {acts : List ServerAct}

/-- Where the rest of the process does not take the slot of the reserve, the acceptor always
gets it back, and no call of `handleRead` leaves the backlog as it was. -/
theorem acceptor_ready {t : ServerProcess}
    (hg : (machine limit numThreads hlimit).Along Undisturbed (new limit numThreads hlimit) acts)
    (h : (machine limit numThreads hlimit).run (new limit numThreads hlimit) acts =
      some (.ok t)) :
    t.Ready := by
  have hstep : ∀ s a t, s.Kept ∧ s.Ready → s.Undisturbed a →
      (machine limit numThreads hlimit).step s a = some (.ok t) → t.Kept ∧ t.Ready := by
    intro s a t hs hu hx
    have hgoes := hs.1.step hx
    exact ⟨hgoes.kept, hgoes.ready hs.2 hu⟩
  exact (Machine.run_inv hstep
    ⟨new_kept limit numThreads hlimit, new_ready limit numThreads hlimit⟩ hg h).2

/- With one descriptor to spare: the first connection takes it, the second is turned away
while another thread closes a descriptor and opens it again; then the first goes, and its
descriptor serves the third. -/
def usedUp : List ServerAct :=
  [.arrive, .handleRead, .run (some 0), .arrive, .handleRead, .emfile, .foreignClose 0, .emfile,
    .foreignOpen, .emfile, .emfile, .conn 0 (.test .shutdown), .conn 0 (.store .shutdown),
    .conn 0 (.inLoop .shutdown false), .run (some 0), .conn 0 (.event true false), .run none,
    .run (some 0), .conn 0 .release, .arrive, .handleRead, .run (some 1)]

theorem acceptor_ready_used_up : ∃ t,
    (machine 6 2 (by decide)).run (new 6 2 (by decide)) usedUp = some (.ok t) ∧ t.Ready ∧
      t.taken = 3 := by
  have hg : (machine 6 2 (by decide)).Along Undisturbed (new 6 2 (by decide)) usedUp := by
    decide +kernel
  have hr : (machine 6 2 (by decide)).runsTo (new 6 2 (by decide)) usedUp
      (fun t => t.taken == 3) = true := by decide +kernel
  obtain ⟨t, ht, htaken⟩ := Machine.exists_of_runsTo hr
  exact ⟨t, ht, acceptor_ready hg ht, of_decide_eq_true htaken⟩

end ServerProcess

end TstMuduo.Net
