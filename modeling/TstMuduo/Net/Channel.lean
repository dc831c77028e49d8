import TstMuduo.Net.Basic

/-!
# Channels (muduo/net/Channel.h, Channel.cc) as the default poller sees them

A poll mask is the set of the flags the code tests. Of the poller the model
keeps what concerns one channel: its `index_`, which `EPollPoller` drives through
`kNew`, `kAdded` and `kDeleted` and which is not `kNew` exactly while the fd is
in `channels_`.
-/

namespace TstMuduo.Net
open TstMuduo.Lib

structure PollMask where
  pollIn : Bool
  pollPri : Bool
  pollOut : Bool
  pollErr : Bool
  pollHup : Bool
  pollNval : Bool
  pollRdhup : Bool
  deriving DecidableEq, Repr

def kNoneEvent : PollMask := ⟨false, false, false, false, false, false, false⟩
/- `POLLIN | POLLPRI` (`Channel.cc:24`). -/
def kReadEvent : PollMask := { kNoneEvent with pollIn := true, pollPri := true }
/- `POLLOUT` (`Channel.cc:25`). -/
def kWriteEvent : PollMask := { kNoneEvent with pollOut := true }

namespace PollMask

def union (a b : PollMask) : PollMask :=
  ⟨a.pollIn || b.pollIn, a.pollPri || b.pollPri, a.pollOut || b.pollOut, a.pollErr || b.pollErr,
    a.pollHup || b.pollHup, a.pollNval || b.pollNval, a.pollRdhup || b.pollRdhup⟩

/- `a & ~b`. -/
def without (a b : PollMask) : PollMask :=
  ⟨a.pollIn && !b.pollIn, a.pollPri && !b.pollPri, a.pollOut && !b.pollOut,
    a.pollErr && !b.pollErr, a.pollHup && !b.pollHup, a.pollNval && !b.pollNval,
    a.pollRdhup && !b.pollRdhup⟩

/- `a & b` is not zero. -/
def meets (a b : PollMask) : Bool :=
  a.pollIn && b.pollIn || a.pollPri && b.pollPri || a.pollOut && b.pollOut ||
    a.pollErr && b.pollErr || a.pollHup && b.pollHup || a.pollNval && b.pollNval ||
    a.pollRdhup && b.pollRdhup

end PollMask

/- `EPollPoller`'s use of `index_` (`EPollPoller.cc:38`). -/
inductive PollerIndex where
  | kNew
  | kAdded
  | kDeleted
  deriving DecidableEq, Repr

structure Channel where
  events : PollMask
  index : PollerIndex
  tied : Bool
  eventHandling : Bool
  addedToLoop : Bool
  deriving DecidableEq, Repr

namespace Channel

/- `Channel(loop, fd)` (`Channel.cc:27`). -/
def new : Channel := ⟨kNoneEvent, .kNew, false, false, false⟩

def isNoneEvent (c : Channel) : Bool := decide (c.events = kNoneEvent)
def isWriting (c : Channel) : Bool := c.events.meets kWriteEvent
def isReading (c : Channel) : Bool := c.events.meets kReadEvent

/- `EPollPoller::updateChannel` (`EPollPoller.cc:132`): a channel that the
kernel does not watch is added whatever its interest; a watched one is dropped
when it has none. -/
def updateChannel (c : Channel) : Channel :=
  match c.index with
  | .kNew => { c with index := .kAdded }
  | .kDeleted => { c with index := .kAdded }
  | .kAdded => if c.isNoneEvent then { c with index := .kDeleted } else c

/- `Channel::update` (`Channel.cc:67`). -/
def update (c : Channel) : Channel := { c with addedToLoop := true }.updateChannel

def enableReading (c : Channel) : Channel := { c with events := c.events.union kReadEvent }.update
def disableReading (c : Channel) : Channel :=
  { c with events := c.events.without kReadEvent }.update
def enableWriting (c : Channel) : Channel := { c with events := c.events.union kWriteEvent }.update
def disableWriting (c : Channel) : Channel :=
  { c with events := c.events.without kWriteEvent }.update
def disableAll (c : Channel) : Channel := { c with events := kNoneEvent }.update

/- `Channel::remove` (`Channel.cc:73`), `EventLoop::removeChannel` (`EventLoop.cpp:341`), whose
assertion about `activeChannels_` is `free`, and `EPollPoller::removeChannel`
(`EPollPoller.cc:176`). -/
def remove (c : Channel) (free : Bool) : Except Assertion Channel := do
  check (c.isNoneEvent = true) .channelRemove
  check (free = true) .loopRemoveChannel
  check (c.index ≠ .kNew) .pollerRemoveChannel
  return { c with addedToLoop := false, index := .kNew }

/- `~Channel` (`Channel.cc:44`). It reads its loop, and in the thread of the loop it asks the
poller. -/
def destroy (c : Channel) (loopAlive inLoop : Bool) : Except Assertion Unit := do
  check (c.eventHandling = false) .channelDestructor
  check (c.addedToLoop = false) .channelDestructor
  check (loopAlive = true) .useOfLoop
  check (inLoop = true → c.index = .kNew) .channelDestructor

def tie (c : Channel) : Channel := { c with tied := true }

/- The kernel reports events of the fd: errors and hang-ups come even with an
empty interest. -/
def monitored (c : Channel) : Bool := decide (c.index = .kAdded)

@[simp]
theorem updateChannel_events (c : Channel) : c.updateChannel.events = c.events := by
  unfold updateChannel
  split
  · rfl
  · rfl
  · split <;> rfl

@[simp]
theorem update_events (c : Channel) : c.update.events = c.events := by
  simp only [update, updateChannel_events]

@[simp]
theorem isWriting_enableWriting (c : Channel) : c.enableWriting.isWriting = true := by
  simp [isWriting, enableWriting, PollMask.meets, PollMask.union, kWriteEvent, kNoneEvent]

@[simp]
theorem isWriting_disableWriting (c : Channel) : c.disableWriting.isWriting = false := by
  simp [isWriting, disableWriting, PollMask.meets, PollMask.without, kWriteEvent, kNoneEvent]

@[simp]
theorem isWriting_enableReading (c : Channel) : c.enableReading.isWriting = c.isWriting := by
  simp [isWriting, enableReading, PollMask.meets, PollMask.union, kWriteEvent, kReadEvent,
    kNoneEvent]

@[simp]
theorem isWriting_disableReading (c : Channel) : c.disableReading.isWriting = c.isWriting := by
  simp [isWriting, disableReading, PollMask.meets, PollMask.without, kWriteEvent, kReadEvent,
    kNoneEvent]

@[simp]
theorem disableAll_events (c : Channel) : c.disableAll.events = kNoneEvent := by
  simp only [disableAll, update_events]

end Channel

end TstMuduo.Net
