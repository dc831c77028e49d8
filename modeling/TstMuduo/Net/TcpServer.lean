import TstMuduo.Net.OutputStream

/-!
# One connection of a TcpServer (muduo/net/TcpServer.cpp, TcpConnection.cpp)

The life of one connection from `TcpServer::newConnection` to its destructor. Its
loop is the server's own loop or another one. The thread of that loop runs the
handlers and functors of the connection; where they call user code, the rest of
the call is on a stack, and user code may call the connection again. Any number of
other threads call the connection too, each test, store and push of theirs being a
step of its own. The server may be destroyed at any time.
-/

namespace TstMuduo.Net
open TstMuduo.Lib

/-- What the thread of the connection's loop is going to do: the rest of user code,
of `handleClose`, of `connectDestroyed`, the branches of `handleEventWithGuard`, the
direct call of `connectEstablished`. -/
inductive Frame where
  | user
  | closeCallback
  | remove
  | hup
  | read
  | write
  | established
  deriving DecidableEq, Repr

/-- A call of another thread after its test of `state_`: it stores `kDisconnecting`
and then pushes a functor, or only pushes one. -/
inductive Stage where
  | store (f : Functor)
  | push (f : Functor)
  deriving DecidableEq, Repr

/-- What `inputBuffer_.readFd` returns: a positive count, zero, an error. -/
inductive ReadResult where
  | data
  | eof
  | error
  deriving DecidableEq, Repr

inductive Call where
  | send (message : Bytes)
  | shutdown
  | forceClose
  | startRead
  | stopRead
  deriving DecidableEq, Repr

/-- Where the channel stands in the `activeChannels_` of the last poll: not in it, still to be
handled with what the poller reported, the `currentActiveChannel_`, or handled. -/
inductive ActiveEntry where
  | absent
  | ahead (revents : PollMask)
  | current
  | behind
  deriving DecidableEq, Repr

/- `sameLoop`: the connection's loop is the server's. `baseQueue` counts the
functors `removeConnectionInLoop` in the server's loop, `eventHandling` and `active` belong to
the connection's loop, `userRefs` says that the user keeps a pointer, `log` the state at each
call of the user's connectionCallback. -/
structure TcpServer where
  sameLoop : Bool
  conn : Conn
  alive : Bool
  server : Bool
  inMap : Bool
  stack : List Frame
  ioQueue : List Functor
  baseQueue : Nat
  eventHandling : Bool
  active : ActiveEntry
  ioLooping : Bool
  userRefs : Bool
  calls : List Stage
  log : List StateE

namespace TcpServer

/- TcpServer.cpp:69, up to `runInLoop` of `connectEstablished`; the acceptor's channel is being
handled in the server's loop. -/
def newConnection (sameLoop : Bool) (conn : Conn) : TcpServer where
  sameLoop := sameLoop
  conn := conn
  alive := true
  server := true
  inMap := true
  stack := if sameLoop = true then [.established] else []
  ioQueue := if sameLoop = true then [] else [.connectEstablished]
  baseQueue := 0
  eventHandling := sameLoop
  active := .absent
  ioLooping := true
  userRefs := false
  calls := []
  log := []

def connectionCallback (s : TcpServer) : TcpServer :=
  { s with stack := .user :: s.stack, log := s.log ++ [s.conn.state] }

/- TcpConnection.cpp:397 -/
def connectEstablished (s : TcpServer) : Except Assertion TcpServer := do
  let c ← s.conn.connectEstablished
  return { s with conn := c }.connectionCallback

/- TcpConnection.cpp:545 -/
def handleClose (s : TcpServer) : Except Assertion TcpServer := do
  let c ← s.conn.handleClose
  return { s with conn := c, stack := .closeCallback :: s.stack }.connectionCallback

/- TcpConnection.cpp:430 -/
def connectDestroyed (s : TcpServer) : TcpServer :=
  if s.conn.state = .kConnected then
    { s with
      conn := { s.conn with state := .kDisconnected, channel := s.conn.channel.disableAll }
      stack := .remove :: s.stack }.connectionCallback
  else { s with stack := .remove :: s.stack }

/- What `EventLoop::removeChannel` asserts of `activeChannels_`, which is not cleared before the
next poll (EventLoop.cpp:346). -/
def removable (s : TcpServer) : Bool :=
  !s.eventHandling || decide (s.active = .current) || decide (s.active = .absent)

def remove (s : TcpServer) : Except Assertion TcpServer := do
  let channel ← s.conn.channel.remove s.removable
  return { s with conn := { s.conn with channel := channel } }

/- TcpServer.cpp:143 -/
def removeConnectionInLoop (s : TcpServer) : Except Assertion TcpServer := do
  check (s.server = true) .useOfServer
  check (s.inMap = true) .removeConnectionErase
  return { s with inMap := false, ioQueue := s.ioQueue ++ [.connectDestroyed] }

/- TcpServer.cpp:127 -/
def removeConnection (s : TcpServer) : Except Assertion TcpServer := do
  check (s.server = true) .useOfServer
  if s.sameLoop = true then s.removeConnectionInLoop
  else return { s with baseQueue := s.baseQueue + 1 }

/- TcpServer.cpp:40 -/
def destroyServer (s : TcpServer) : TcpServer :=
  let t := { s with server := false, inMap := false }
  if s.inMap = true then
    if s.sameLoop = true then t.connectDestroyed
    else { t with ioQueue := t.ioQueue ++ [.connectDestroyed] }
  else t

def apply (s : TcpServer) (r : Conn × List Effect) : TcpServer :=
  { s with conn := r.1, ioQueue := s.ioQueue ++ queuedBy r.2 }

/- The functors that are bound to a raw `this`. -/
def isRaw : Functor → Bool
  | .sendInLoop _ | .shutdownInLoop | .startReadInLoop | .stopReadInLoop => true
  | _ => false

def forceCloseInLoop (s : TcpServer) : Except Assertion TcpServer :=
  if s.conn.state = .kConnected ∨ s.conn.state = .kDisconnecting then s.handleClose else .ok s

def runFunctor (s : TcpServer) (w : WriteResult) : Functor → Option (Except Assertion TcpServer)
  | .connectEstablished => some s.connectEstablished
  | .connectDestroyed => some (.ok s.connectDestroyed)
  | .sendInLoop m =>
    if w.Fits m.length then some (do
      let r ← s.conn.sendInLoop m w
      return s.apply r)
    else none
  | .shutdownInLoop => some (.ok (s.apply (s.conn, s.conn.shutdownInLoop)))
  | .forceCloseInLoop => some s.forceCloseInLoop
  | .startReadInLoop => some (.ok { s with conn := s.conn.startReadInLoop })
  | .stopReadInLoop => some (.ok { s with conn := s.conn.stopReadInLoop })
  | .writeComplete => some (.ok { s with stack := .user :: s.stack })
  | .highWaterMark _ => some (.ok { s with stack := .user :: s.stack })

def runTask (s : TcpServer) (w : WriteResult) : Option (Except Assertion TcpServer) :=
  match s.ioQueue with
  | [] => none
  | f :: rest =>
    if isRaw f = true ∧ s.alive = false then some (.error .useOfConnection)
    else { s with ioQueue := rest }.runFunctor w f

/- The branches that `handleEventWithGuard` (Channel.cc:105) takes. -/
def branches (revents : PollMask) : List Frame :=
  (if revents.pollHup = true ∧ revents.pollIn = false then [.hup] else []) ++
    (if revents.pollIn = true ∨ revents.pollPri = true ∨ revents.pollRdhup = true then [.read]
      else []) ++
    (if revents.pollOut = true then [.write] else [])

def setHandling (c : Conn) (b : Bool) : Conn :=
  { c with channel := { c.channel with eventHandling := b } }

/- The poller refills `activeChannels_` (EventLoop.cpp:128). -/
def poll (s : TcpServer) : Option PollMask → TcpServer
  | none => { s with eventHandling := true, active := .absent }
  | some revents => { s with eventHandling := true, active := .ahead revents }

/- `Channel::handleEvent` (Channel.cc:80). The channel is a part of the connection;
every registered channel is tied, and a tied one keeps the connection while its
handlers run. -/
def handleEvent (s : TcpServer) (revents : PollMask) : Except Assertion TcpServer := do
  check (s.alive = true) .useOfConnection
  return { s with
    active := .current
    conn := setHandling s.conn true
    stack := branches revents }

def handled (s : TcpServer) : TcpServer :=
  { s with active := .behind, conn := setHandling s.conn false }

/- The next piece of library code on the stack. -/
def advance (s : TcpServer) (n : ReadResult) (w : WriteResult) :
    Option (Except Assertion TcpServer) :=
  match s.stack with
  | [] => none
  | .user :: _ => none
  | .closeCallback :: rest => some { s with stack := rest }.removeConnection
  | .remove :: rest => some { s with stack := rest }.remove
  | .hup :: rest => some { s with stack := rest }.handleClose
  | .read :: rest =>
    match n with
    | .data => some (.ok { s with stack := .user :: rest })
    | .eof => some { s with stack := rest }.handleClose
    | .error => some (.ok { s with stack := rest })
  | .write :: rest =>
    if w.Fits s.conn.outputBuffer.readableBytes then some (do
      let r ← s.conn.handleWrite w
      return { s with stack := rest }.apply r)
    else none
  | .established :: rest => some { s with stack := rest }.connectEstablished

def inUserCode (s : TcpServer) : Bool :=
  match s.stack with
  | [] => s.ioLooping && decide (s.active ≠ .current)
  | .user :: _ => true
  | _ => false

def hasPointer (s : TcpServer) : Bool :=
  match s.stack with
  | [] => s.userRefs
  | _ => true

/- A call of user code in the thread of the loop. -/
def userCall (s : TcpServer) (w : WriteResult) : Call → Option (Except Assertion TcpServer)
  | .send m =>
    if w.Fits m.length then some (do
      let r ← s.conn.send true m w
      return s.apply r)
    else none
  | .shutdown => some (.ok (s.apply (s.conn.shutdown true)))
  | .forceClose => some (.ok (s.apply s.conn.forceClose))
  | .startRead => some (.ok { s with conn := s.conn.startReadInLoop })
  | .stopRead => some (.ok { s with conn := s.conn.stopReadInLoop })

/- The test that a call of another thread starts with, and what it goes on with. -/
def test (c : Conn) : Call → List Stage
  | .send m => if c.state = .kConnected then [.push (.sendInLoop m)] else []
  | .shutdown => if c.state = .kConnected then [.store .shutdownInLoop] else []
  | .forceClose =>
    if c.state = .kConnected ∨ c.state = .kDisconnecting then [.store .forceCloseInLoop] else []
  | .startRead => [.push .startReadInLoop]
  | .stopRead => [.push .stopReadInLoop]

/- The next statement of a call of another thread. -/
def proceed (s : TcpServer) : Stage → Except Assertion TcpServer
  | .store f => .ok { s with
      conn := { s.conn with state := .kDisconnecting }
      calls := s.calls.erase (.store f) ++ [.push f] }
  | .push f => do
    check (s.ioLooping = true) .useOfLoop
    return { s with ioQueue := s.ioQueue ++ [f], calls := s.calls.erase (.push f) }

/- Somebody holds a shared pointer to the connection; one holder is the `guard` of
`handleEvent`. -/
def isReferenced (s : TcpServer) : Bool :=
  s.inMap || s.userRefs || !s.stack.isEmpty || !s.calls.isEmpty || decide (s.baseQueue ≠ 0) ||
    decide (s.active = .current) || s.ioQueue.any fun f => !isRaw f

/- TcpConnection.cpp:80; `channel_` goes with it. -/
def destroy (s : TcpServer) (inLoop : Bool) : Except Assertion TcpServer := do
  check (s.conn.state = .kDisconnected) .connectionDestructor
  s.conn.channel.destroy s.ioLooping inLoop
  return { s with alive := false }

/- The last pointer may have gone. -/
def dropLast (s : TcpServer) : Except Assertion TcpServer :=
  if s.alive = true ∧ s.isReferenced = false then s.destroy true else .ok s

/- `~EventLoop` destroys the functors that are left, and the connection where it was held by
them alone. -/
def exitLoop (s : TcpServer) : Except Assertion TcpServer := do
  let t ← { s with ioQueue := [] }.dropLast
  return { t with ioLooping := false }

inductive Act where
  | pollReturn (revents : Option PollMask)
  | handleEvent
  | handled
  | endEvents
  | advance (n : ReadResult) (w : WriteResult)
  | ret
  | runTask (w : WriteResult)
  | userCall (c : Call) (w : WriteResult)
  | keepPointer
  | dropPointer
  | otherCall (c : Call)
  | proceed (stage : Stage)
  | destroyServer
  | runBase
  | exitLoop
  | destroy (inLoop : Bool)

def idle (s : TcpServer) : Bool := s.ioLooping && s.stack.isEmpty && !s.eventHandling

/- `pollReturn` with `none`: the poller reports other channels only. `exitLoop`: the server's
thread pool stops the loops that it owns. -/
def step (s : TcpServer) : Act → Option (Except Assertion TcpServer)
  | .pollReturn revents =>
    if s.idle = true ∧
        (revents.isSome = true → s.alive = true ∧ s.conn.channel.monitored = true) then
      some (.ok (s.poll revents))
    else none
  | .handleEvent =>
    match s.active, s.stack with
    | .ahead revents, [] => some (s.handleEvent revents)
    | _, _ => none
  | .handled =>
    match s.active, s.stack with
    | .current, [] => some (.ok s.handled)
    | _, _ => none
  | .endEvents =>
    if s.eventHandling = true ∧ s.stack = [] ∧ (s.active = .absent ∨ s.active = .behind) then
      some (.ok { s with eventHandling := false })
    else none
  | .advance n w => s.advance n w
  | .ret =>
    match s.stack with
    | .user :: rest => some (.ok { s with stack := rest })
    | _ => none
  | .runTask w => if s.idle = true then s.runTask w else none
  | .userCall c w =>
    if s.inUserCode = true ∧ s.hasPointer = true then s.userCall w c else none
  | .keepPointer =>
    match s.stack with
    | .user :: _ => some (.ok { s with userRefs := true })
    | _ => none
  | .dropPointer => some (.ok { s with userRefs := false })
  | .otherCall c =>
    if s.userRefs = true then some (.ok { s with calls := s.calls ++ test s.conn c }) else none
  | .proceed stage => if stage ∈ s.calls then some (s.proceed stage) else none
  | .destroyServer =>
    if s.server = true ∧ (s.sameLoop = true → s.inUserCode = true) then
      some (.ok s.destroyServer)
    else none
  | .runBase =>
    match s.baseQueue with
    | 0 => none
    | k + 1 => some { s with baseQueue := k }.removeConnectionInLoop
  | .exitLoop =>
    if s.sameLoop = false ∧ s.server = false ∧ s.idle = true then some s.exitLoop else none
  | .destroy inLoop =>
    if s.alive = true ∧ s.isReferenced = false then some (s.destroy inLoop) else none

def machine (sameLoop : Bool) (conn : Conn) : Machine TcpServer Act Assertion where
  init := newConnection sameLoop conn
  step := step

end TcpServer
end TstMuduo.Net
