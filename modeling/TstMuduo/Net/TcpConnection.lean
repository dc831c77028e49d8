import TstMuduo.Net.Buffer
import TstMuduo.Net.Channel

/-!
# TcpConnection (muduo/net/TcpConnection.cpp)

The member functions are state transformers on the fields they read and write.
What they do to the outside is a list of effects in program order: bytes handed
to the kernel, functors handed to the loop, the half-close of the socket. The
answer of each `sockets::write` is an argument.
-/

namespace TstMuduo.Net
open TstMuduo.Lib

inductive StateE where
  | kDisconnected
  | kConnecting
  | kConnected
  | kDisconnecting
  deriving DecidableEq, Repr

/-- The functors that a connection binds and hands to its loop. -/
inductive Functor where
  | connectEstablished
  | connectDestroyed
  | sendInLoop (message : Bytes)
  | shutdownInLoop
  | forceCloseInLoop
  | startReadInLoop
  | stopReadInLoop
  | writeComplete
  | highWaterMark (len : Nat)
  deriving DecidableEq, Repr

inductive Effect where
  | write (accepted : Bytes)
  | queueInLoop (f : Functor)
  | shutdownWrite
  deriving DecidableEq, Repr

structure Conn where
  state : StateE
  reading : Bool
  channel : Channel
  outputBuffer : Buffer
  highWaterMark : Nat
  writeCompleteCallback : Bool
  highWaterMarkCallback : Bool

namespace Conn

/- A user may set the mark and the two callbacks before the connection is
established, so they are parameters. -/
def new (highWaterMark : Nat) (writeComplete highWater : Bool) : Conn where
  state := .kConnecting
  reading := true
  channel := Channel.new
  outputBuffer := Buffer.new kInitialSize
  highWaterMark := highWaterMark
  writeCompleteCallback := writeComplete
  highWaterMarkCallback := highWater

/- TcpConnection.cpp:397, up to the user's connectionCallback_. -/
def connectEstablished (c : Conn) : Except Assertion Conn := do
  check (c.state = .kConnecting) .connectEstablished
  return { c with state := .kConnected, channel := c.channel.tie.enableReading }

/- The direct write of sendInLoop: (nwrote, remaining, faultError, effects). -/
def directWrite (c : Conn) (data : Bytes) (w : WriteResult) : Nat × Nat × Bool × List Effect :=
  if c.channel.isWriting = false ∧ c.outputBuffer.readableBytes = 0 then
    match w with
    | .wrote n =>
      let remaining := data.length - n
      (n, remaining, false, .write (data.take n) ::
        if remaining = 0 ∧ c.writeCompleteCallback = true then [.queueInLoop .writeComplete]
        else [])
    | .failed e => (0, data.length, e.isReset, [])
  else (0, data.length, false, [])

def highWater (c : Conn) (oldLen remaining : Nat) : List Effect :=
  if c.highWaterMark ≤ oldLen + remaining ∧ oldLen < c.highWaterMark ∧
      c.highWaterMarkCallback = true then
    [.queueInLoop (.highWaterMark (oldLen + remaining))]
  else []

/- TcpConnection.cpp:177 -/
def sendInLoop (c : Conn) (data : Bytes) (w : WriteResult) :
    Except Assertion (Conn × List Effect) :=
  if c.state = .kDisconnected then .ok (c, [])
  else
    match c.directWrite data w with
    | (nwrote, remaining, faultError, effects) => do
      check (remaining ≤ data.length) .sendRemaining
      if faultError = false ∧ 0 < remaining then
        let out ← c.outputBuffer.append ((data.drop nwrote).take remaining)
        let channel := if c.channel.isWriting = false then c.channel.enableWriting else c.channel
        return ({ c with outputBuffer := out, channel := channel },
          effects ++ c.highWater c.outputBuffer.readableBytes remaining)
      else return (c, effects)

/- TcpConnection.cpp:104 and 144; in the loop thread the call is direct. -/
def send (c : Conn) (inLoop : Bool) (message : Bytes) (w : WriteResult) :
    Except Assertion (Conn × List Effect) :=
  if c.state = .kConnected then
    if inLoop = true then c.sendInLoop message w
    else .ok (c, [.queueInLoop (.sendInLoop message)])
  else .ok (c, [])

/- TcpConnection.cpp:275 -/
def shutdownInLoop (c : Conn) : List Effect :=
  if c.channel.isWriting = false then [.shutdownWrite] else []

/- TcpConnection.cpp:262 -/
def shutdown (c : Conn) (inLoop : Bool) : Conn × List Effect :=
  if c.state = .kConnected then
    let d := { c with state := .kDisconnecting }
    (d, if inLoop = true then d.shutdownInLoop else [.queueInLoop .shutdownInLoop])
  else (c, [])

/- TcpConnection.cpp:309 -/
def forceClose (c : Conn) : Conn × List Effect :=
  if c.state = .kConnected ∨ c.state = .kDisconnecting then
    ({ c with state := .kDisconnecting }, [.queueInLoop .forceCloseInLoop])
  else (c, [])

/- TcpConnection.cpp:366 -/
def startReadInLoop (c : Conn) : Conn :=
  if c.reading = false ∨ c.channel.isReading = false then
    { c with channel := c.channel.enableReading, reading := true }
  else c

/- TcpConnection.cpp:381 -/
def stopReadInLoop (c : Conn) : Conn :=
  if c.reading = true ∨ c.channel.isReading = true then
    { c with channel := c.channel.disableReading, reading := false }
  else c

/- The branch of handleWrite after the kernel took n > 0 bytes and left out. -/
def afterWrite (c : Conn) (n : Nat) (out : Buffer) : Conn × List Effect :=
  let wrote := Effect.write (c.outputBuffer.contents.take n)
  if out.readableBytes = 0 then
    let d := { c with outputBuffer := out, channel := c.channel.disableWriting }
    (d, wrote ::
      (if c.writeCompleteCallback = true then [.queueInLoop .writeComplete] else []) ++
      (if d.state = .kDisconnecting then d.shutdownInLoop else []))
  else ({ c with outputBuffer := out }, [wrote])

/- TcpConnection.cpp:486 -/
def handleWrite (c : Conn) (w : WriteResult) : Except Assertion (Conn × List Effect) :=
  if c.channel.isWriting = true then
    match w with
    | .wrote n =>
      if 0 < n then do
        let out ← c.outputBuffer.retrieve n
        return c.afterWrite n out
      else .ok (c, [])
    | .failed _ => .ok (c, [])
  else .ok (c, [])

/- TcpConnection.cpp:545, up to the user's connectionCallback_. -/
def handleClose (c : Conn) : Except Assertion Conn := do
  check (c.state = .kConnected ∨ c.state = .kDisconnecting) .handleClose
  return { c with state := .kDisconnected, channel := c.channel.disableAll }

end Conn

end TstMuduo.Net
