import Mathlib.Algebra.Order.Ring.Int
import TstMuduo.Lib.Machine

/-!
# Bytes, assertions and kernel answers of the network library
-/

namespace TstMuduo.Net

abbrev Byte := UInt8
abbrev Bytes := List Byte

/-- The asserts of the modelled functions, one name for each place, the call of an empty
`boost::function`, a fatal error of `epoll_ctl`, the overflow of an `int`, and the uses of
objects that are gone. -/
inductive Assertion where
  | bufferRetrieve
  | bufferHasWritten
  | bufferEnsureWritable
  | bufferMakeSpace
  | bufferRetrieveUntil
  | bufferRetrieveAsString
  | bufferUnwrite
  | bufferPrepend
  | bufferPeekInt
  | stringPieceLength
  | codecEmptyBuffer
  | codecFrameLength
  | badFunctionCall
  | httpSetMethod
  | connectorStartInLoop
  | connectorConnecting
  | connectorHandleWrite
  | connectorNoChannel
  | rpcEmptyResponse
  | channelRemove
  | channelDestructor
  | pollerRemoveChannel
  | pollerUpdateChannel
  | epollCtl
  | pollPollerUpdateChannel
  | pollPollerRemoveChannel
  | pollPollerFillActiveChannels
  | loopRemoveChannel
  | loopNotLooping
  | sendRemaining
  | connectEstablished
  | handleClose
  | connectionDestructor
  | removeConnectionErase
  | nextConnIdOverflow
  | useOfConnection
  | useOfServer
  | useOfLoop
  deriving DecidableEq, Repr

/-- The errno values that `sendInLoop` tells apart. -/
inductive Errno where
  | EWOULDBLOCK
  | EPIPE
  | ECONNRESET
  | other (code : Nat)
  deriving DecidableEq, Repr

/-- The answer of `sockets::write`. -/
inductive WriteResult where
  | wrote (n : Nat)
  | failed (e : Errno)
  deriving DecidableEq, Repr

/- What `write(2)` promises for a buffer of `len` bytes. -/
def WriteResult.Fits (len : Nat) : WriteResult → Prop
  | .wrote n => n ≤ len
  | .failed _ => True

def Errno.isReset : Errno → Bool
  | .EPIPE => true
  | .ECONNRESET => true
  | _ => false

/- The answers of a connection that is not broken: a count, or an error that
is neither `EPIPE` nor `ECONNRESET`. -/
def WriteResult.Unbroken (len : Nat) : WriteResult → Prop
  | .wrote n => n ≤ len
  | .failed e => e.isReset = false

instance (len : Nat) (w : WriteResult) : Decidable (w.Fits len) := by
  cases w <;> unfold WriteResult.Fits <;> infer_instance

instance (len : Nat) (w : WriteResult) : Decidable (w.Unbroken len) := by
  cases w <;> unfold WriteResult.Unbroken <;> infer_instance

theorem WriteResult.Unbroken.fits {len : Nat} {w : WriteResult} (h : w.Unbroken len) :
    w.Fits len := by
  cases w with
  | wrote n => exact h
  | failed e => trivial

end TstMuduo.Net
