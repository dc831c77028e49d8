import Mathlib.Data.Set.Basic
import Mathlib.Logic.Function.Basic
import TstMuduo.Net.Channel

/-!
# The two pollers (muduo/net/poller/EPollPoller.cc, PollPoller.cc)

The channels are the elements of a type, each with its own descriptor. Both pollers
keep the map `channels_`; `EPollPoller` talks to the kernel about each change and uses
`index_` for what it has told it, `PollPoller` hands the kernel its array `pollfds_` and
uses `index_` for the slot of a channel in it.
-/

namespace TstMuduo.Net
open TstMuduo.Lib

variable {C : Type} [DecidableEq C]

/-! ### EPollPoller -/

inductive EpollOp where
  | EPOLL_CTL_ADD
  | EPOLL_CTL_MOD
  | EPOLL_CTL_DEL
  deriving DecidableEq, Repr

/- `kernel` is the interest list behind `epollfd_`. -/
structure EPollPoller (C : Type) where
  channels : Int → Option C
  index : C → PollerIndex
  kernel : Int → Option PollMask

namespace EPollPoller

def new : EPollPoller C := ⟨fun _ => none, fun _ => .kNew, fun _ => none⟩

/- `update` (`EPollPoller.cc:201`): an `epoll_ctl` that fails is fatal, unless it was to
delete. -/
def update (p : EPollPoller C) (operation : EpollOp) (fd : Int) (events : PollMask) :
    Except Assertion (EPollPoller C) :=
  match operation with
  | .EPOLL_CTL_ADD =>
    if (p.kernel fd).isSome then .error .epollCtl
    else .ok { p with kernel := Function.update p.kernel fd (some events) }
  | .EPOLL_CTL_MOD =>
    if (p.kernel fd).isSome then .ok { p with kernel := Function.update p.kernel fd (some events) }
    else .error .epollCtl
  | .EPOLL_CTL_DEL => .ok { p with kernel := Function.update p.kernel fd none }

def setIndex (p : EPollPoller C) (c : C) (index : PollerIndex) : EPollPoller C :=
  { p with index := Function.update p.index c index }

def setChannel (p : EPollPoller C) (fd : Int) (c : Option C) : EPollPoller C :=
  { p with channels := Function.update p.channels fd c }

/- `updateChannel` (`EPollPoller.cc:132`) of a channel with these `events_`. -/
def updateChannel (p : EPollPoller C) (c : C) (fd : Int) (events : PollMask) :
    Except Assertion (EPollPoller C) :=
  match p.index c with
  | .kNew => do
    check (p.channels fd = none) .pollerUpdateChannel
    ((p.setChannel fd (some c)).setIndex c .kAdded).update .EPOLL_CTL_ADD fd events
  | .kDeleted => do
    check (p.channels fd = some c) .pollerUpdateChannel
    (p.setIndex c .kAdded).update .EPOLL_CTL_ADD fd events
  | .kAdded => do
    check (p.channels fd = some c) .pollerUpdateChannel
    if events = kNoneEvent then
      let q ← p.update .EPOLL_CTL_DEL fd events
      return q.setIndex c .kDeleted
    else p.update .EPOLL_CTL_MOD fd events

/- `removeChannel` (`EPollPoller.cc:176`). -/
def removeChannel (p : EPollPoller C) (c : C) (fd : Int) (events : PollMask) :
    Except Assertion (EPollPoller C) := do
  check (p.channels fd = some c ∧ events = kNoneEvent ∧ p.index c ≠ .kNew) .pollerRemoveChannel
  let q := p.setChannel fd none
  if p.index c = .kAdded then
    let r ← q.update .EPOLL_CTL_DEL fd events
    return r.setIndex c .kNew
  else return q.setIndex c .kNew

def watched (p : EPollPoller C) : Set (Int × PollMask) := fun w => p.kernel w.1 = some w.2

end EPollPoller

/-! ### PollPoller -/

structure PollFd where
  fd : Int
  events : PollMask
  deriving DecidableEq, Repr

structure PollPoller (C : Type) where
  channels : Int → Option C
  index : C → Int
  pollfds : List PollFd

namespace PollPoller

def new : PollPoller C := ⟨fun _ => none, fun _ => -1, []⟩

def setIndex (p : PollPoller C) (c : C) (index : Int) : PollPoller C :=
  { p with index := Function.update p.index c index }

def setChannel (p : PollPoller C) (fd : Int) (c : Option C) : PollPoller C :=
  { p with channels := Function.update p.channels fd c }

/- The entry of a channel in `pollfds_` once it has been updated there: without interest
the descriptor is made negative, for `poll(2)` to ignore it. -/
def entry (fd : Int) (events : PollMask) : PollFd :=
  ⟨if events = kNoneEvent then -fd - 1 else fd, events⟩

/- `updateChannel` (`PollPoller.cc:77`). The new entry keeps its descriptor whatever the
interest. -/
def updateChannel (p : PollPoller C) (c : C) (fd : Int) (events : PollMask) :
    Except Assertion (PollPoller C) :=
  if p.index c < 0 then do
    check (p.channels fd = none) .pollPollerUpdateChannel
    let q : PollPoller C := { p with pollfds := p.pollfds ++ [⟨fd, events⟩] }
    return (q.setIndex c p.pollfds.length).setChannel fd (some c)
  else do
    check (p.channels fd = some c) .pollPollerUpdateChannel
    match p.pollfds[(p.index c).toNat]? with
    | none => .error .pollPollerUpdateChannel
    | some pfd =>
      check (pfd.fd = fd ∨ pfd.fd = -fd - 1) .pollPollerUpdateChannel
      return { p with pollfds := p.pollfds.set (p.index c).toNat (entry fd events) }

/- The last element takes the place of the one at `idx`; the `else` of `removeChannel`. -/
def swapRemove (p : PollPoller C) (idx : Nat) (last : PollFd) : Except Assertion (PollPoller C) :=
  let channelAtEnd := if last.fd < 0 then -last.fd - 1 else last.fd
  match p.channels channelAtEnd with
  | none => .error .pollPollerRemoveChannel
  | some d =>
    .ok { p with
      index := Function.update p.index d idx
      pollfds := (p.pollfds.set idx last).dropLast }

/- `removeChannel` (`PollPoller.cc:111`). It leaves `index_` of the channel as it is. -/
def removeChannel (p : PollPoller C) (c : C) (fd : Int) (events : PollMask) :
    Except Assertion (PollPoller C) := do
  check (p.channels fd = some c ∧ events = kNoneEvent ∧ 0 ≤ p.index c) .pollPollerRemoveChannel
  let idx := (p.index c).toNat
  check (p.pollfds[idx]? = some ⟨-fd - 1, events⟩) .pollPollerRemoveChannel
  let q := p.setChannel fd none
  if idx + 1 = p.pollfds.length then return { q with pollfds := p.pollfds.dropLast }
  else
    match p.pollfds.getLast? with
    | none => .error .pollPollerRemoveChannel
    | some last => q.swapRemove idx last

/- What `poll(2)` is asked to watch: it ignores the negative descriptors. -/
def watched (p : PollPoller C) : Set (Int × PollMask) :=
  fun w => 0 ≤ w.1 ∧ ⟨w.1, w.2⟩ ∈ p.pollfds

end PollPoller

/-! ### Both of them -/

inductive ChannelCall where
  | enableReading
  | disableReading
  | enableWriting
  | disableWriting
  | disableAll
  | remove
  deriving DecidableEq, Repr

/- What the call makes of `events_` (`Channel.h:82`). -/
def ChannelCall.events (mask : PollMask) : ChannelCall → PollMask
  | .enableReading => mask.union kReadEvent
  | .disableReading => mask.without kReadEvent
  | .enableWriting => mask.union kWriteEvent
  | .disableWriting => mask.without kWriteEvent
  | .disableAll => kNoneEvent
  | .remove => mask

/-- One set of channels in an `EPollPoller` and in a `PollPoller`; each of the two has its
own `index_` of a channel. -/
structure Pollers (C : Type) where
  events : C → PollMask
  addedToLoop : C → Bool
  epoll : EPollPoller C
  poll : PollPoller C

namespace Pollers

variable (fd : C → Nat)

def new : Pollers C := ⟨fun _ => kNoneEvent, fun _ => false, .new, .new⟩

/- `Channel::update` (`Channel.cc:67`) after `events_` has been changed. -/
def update (s : Pollers C) (c : C) (events : PollMask) : Except Assertion (Pollers C) := do
  let epoll ← s.epoll.updateChannel c (fd c) events
  let poll ← s.poll.updateChannel c (fd c) events
  return {
    events := Function.update s.events c events
    addedToLoop := Function.update s.addedToLoop c true
    epoll := epoll
    poll := poll }

/- `Channel::remove` (`Channel.cc:73`). -/
def remove (s : Pollers C) (c : C) : Except Assertion (Pollers C) := do
  check (s.events c = kNoneEvent) .channelRemove
  let epoll ← s.epoll.removeChannel c (fd c) (s.events c)
  let poll ← s.poll.removeChannel c (fd c) (s.events c)
  return { s with
    addedToLoop := Function.update s.addedToLoop c false
    epoll := epoll
    poll := poll }

def call (s : Pollers C) (a : C × ChannelCall) : Except Assertion (Pollers C) :=
  match a.2 with
  | .remove => s.remove fd a.1
  | op => s.update fd a.1 (op.events (s.events a.1))

/- `remove` is called only on a channel without interest. -/
def step (s : Pollers C) (a : C × ChannelCall) : Option (Except Assertion (Pollers C)) :=
  if a.2 = .remove ∧ s.events a.1 ≠ kNoneEvent then none else some (s.call fd a)

def machine : Machine (Pollers C) (C × ChannelCall) Assertion where
  init := new
  step := step fd

def expected (s : Pollers C) : Set (Int × PollMask) := fun w =>
  ∃ c, s.addedToLoop c = true ∧ s.events c ≠ kNoneEvent ∧ w = ((fd c : Int), s.events c)

def Agree (s : Pollers C) : Prop :=
  s.epoll.watched = s.expected fd ∧ s.poll.watched = s.expected fd

end Pollers

omit [DecidableEq C] in
theorem fd_ne {fd : C → Nat} (hfd : Function.Injective fd) {c d : C} (h : d ≠ c) :
    (fd d : Int) ≠ fd c :=
  fun he => h (hfd (Int.ofNat_inj.mp he))

theorem ne_of_update_true {added : C → Bool} {c d : C}
    (h : Function.update added c true d = false) : d ≠ c := by
  intro hdc
  rw [hdc, Function.update_self] at h
  cases h

theorem ne_of_update_false {added : C → Bool} {c d : C}
    (h : Function.update added c false d = true) : d ≠ c := by
  intro hdc
  rw [hdc, Function.update_self] at h
  cases h

/-! ### What `EPollPoller` keeps -/

namespace EPollPoller

variable {fd : C → Nat} {events : C → PollMask} {added : C → Bool} {p : EPollPoller C} {c : C}

def updated (p : EPollPoller C) (c : C) (fd : Int) (mask : PollMask) : EPollPoller C where
  channels := Function.update p.channels fd (some c)
  index := Function.update p.index c (if mask = kNoneEvent then .kDeleted else .kAdded)
  kernel := Function.update p.kernel fd (if mask = kNoneEvent then none else some mask)

def removed (p : EPollPoller C) (c : C) (fd : Int) : EPollPoller C where
  channels := Function.update p.channels fd none
  index := Function.update p.index c .kNew
  kernel := Function.update p.kernel fd none

/-- What the poller knows of a channel in the loop, of a channel outside, and of nothing
else. -/
structure Inv (fd : C → Nat) (events : C → PollMask) (added : C → Bool) (p : EPollPoller C) :
    Prop where
  inside : ∀ c, added c = true → p.channels (fd c) = some c ∧
    p.index c = (if events c = kNoneEvent then .kDeleted else .kAdded) ∧
    p.kernel (fd c) = if events c = kNoneEvent then none else some (events c)
  outside : ∀ c, added c = false → p.channels (fd c) = none ∧ p.index c = .kNew ∧
    p.kernel (fd c) = none
  only : ∀ n mask, p.kernel n = some mask → ∃ c, n = fd c

omit [DecidableEq C] in
theorem new_inv : Inv fd (fun _ => kNoneEvent) (fun _ => false) new where
  inside c h := by cases h
  outside c _ := ⟨rfl, rfl, rfl⟩
  only n mask h := by cases h

theorem Inv.updateChannel (h : Inv fd events added p)
    (hidle : added c = false → events c = kNoneEvent) {mask : PollMask}
    (hmask : mask ≠ kNoneEvent ∨ events c ≠ kNoneEvent) :
    p.updateChannel c (fd c) mask = .ok (p.updated c (fd c) mask) := by
  unfold EPollPoller.updateChannel updated
  cases ha : added c with
  | false =>
    obtain ⟨hc, hi, hk⟩ := h.outside c ha
    have hm : mask ≠ kNoneEvent := hmask.resolve_right fun hne => hne (hidle ha)
    rw [hi]
    simp only [check_ok hc, ok_bind, EPollPoller.update, setIndex, setChannel, hk, hm]
    rfl
  | true =>
    obtain ⟨hc, hi, hk⟩ := h.inside c ha
    have hsame : Function.update p.channels (fd c) (some c) = p.channels := by
      rw [← hc]
      exact Function.update_eq_self _ _
    rw [hi, hsame]
    by_cases he : events c = kNoneEvent
    · have hm : mask ≠ kNoneEvent := hmask.resolve_right fun hne => hne he
      rw [if_pos he] at hk ⊢
      simp only [check_ok hc, ok_bind, EPollPoller.update, setIndex, hk, hm]
      rfl
    · rw [if_neg he] at hk hi ⊢
      simp only [check_ok hc, ok_bind, EPollPoller.update, hk]
      by_cases hm : mask = kNoneEvent
      · simp only [hm, if_true]
        rfl
      · have hidx : Function.update p.index c .kAdded = p.index := by
          rw [← hi]
          exact Function.update_eq_self _ _
        simp only [hm, if_false, hidx]
        rfl

theorem Inv.updated (hfd : Function.Injective fd) (h : Inv fd events added p) (mask : PollMask) :
    Inv fd (Function.update events c mask) (Function.update added c true)
      (p.updated c (fd c) mask) where
  inside d hd := by
    by_cases hdc : d = c
    · subst hdc
      simp only [EPollPoller.updated, Function.update_self, and_self]
    · have hne := fd_ne hfd hdc
      rw [Function.update_of_ne hdc] at hd ⊢
      simp only [EPollPoller.updated, Function.update_of_ne hne, Function.update_of_ne hdc]
      exact h.inside d hd
  outside d hd := by
    have hdc := ne_of_update_true hd
    have hne := fd_ne hfd hdc
    rw [Function.update_of_ne hdc] at hd
    simp only [EPollPoller.updated, Function.update_of_ne hne, Function.update_of_ne hdc]
    exact h.outside d hd
  only n m hn := by
    by_cases he : n = fd c
    · exact ⟨c, he⟩
    · simp only [EPollPoller.updated, Function.update_of_ne he] at hn
      exact h.only n m hn

theorem Inv.removeChannel (h : Inv fd events added p) (ha : added c = true)
    (he : events c = kNoneEvent) :
    p.removeChannel c (fd c) (events c) = .ok (p.removed c (fd c)) := by
  obtain ⟨hc, hi, hk⟩ := h.inside c ha
  rw [if_pos he] at hi hk
  have hkernel : Function.update p.kernel (fd c) none = p.kernel := by
    rw [← hk]
    exact Function.update_eq_self _ _
  unfold EPollPoller.removeChannel
  rw [check_ok ⟨hc, he, by simp [hi]⟩, ok_bind]
  simp only [hi, reduceCtorEq, if_false, setChannel, setIndex, removed, hkernel]
  rfl

theorem Inv.removed (hfd : Function.Injective fd) (h : Inv fd events added p) :
    Inv fd events (Function.update added c false) (p.removed c (fd c)) where
  inside d hd := by
    have hdc := ne_of_update_false hd
    have hne := fd_ne hfd hdc
    rw [Function.update_of_ne hdc] at hd
    simp only [EPollPoller.removed, Function.update_of_ne hne, Function.update_of_ne hdc]
    exact h.inside d hd
  outside d hd := by
    by_cases hdc : d = c
    · subst hdc
      simp only [EPollPoller.removed, Function.update_self, and_self]
    · have hne := fd_ne hfd hdc
      rw [Function.update_of_ne hdc] at hd
      simp only [EPollPoller.removed, Function.update_of_ne hne, Function.update_of_ne hdc]
      exact h.outside d hd
  only n m hn := by
    by_cases he : n = fd c
    · exact ⟨c, he⟩
    · simp only [EPollPoller.removed, Function.update_of_ne he] at hn
      exact h.only n m hn

omit [DecidableEq C] in
theorem Inv.watched_iff (h : Inv fd events added p) (w : Int × PollMask) :
    w ∈ p.watched ↔ ∃ c, added c = true ∧ events c ≠ kNoneEvent ∧ w = ((fd c : Int), events c) := by
  constructor
  · intro hw
    have hk : p.kernel w.1 = some w.2 := hw
    obtain ⟨c, hc⟩ := h.only _ _ hk
    rw [hc] at hk
    cases ha : added c with
    | false =>
      rw [(h.outside c ha).2.2] at hk
      cases hk
    | true =>
      rw [(h.inside c ha).2.2] at hk
      split at hk
      · cases hk
      next hne => exact ⟨c, ha, hne, Prod.ext hc (Option.some.inj hk).symm⟩
  · intro hw
    obtain ⟨c, ha, hne, rfl⟩ := hw
    have hk := (h.inside c ha).2.2
    rw [if_neg hne] at hk
    exact hk

omit [DecidableEq C] in
theorem update_index {q : EPollPoller C} {operation : EpollOp} {n : Int} {mask : PollMask}
    (h : p.update operation n mask = .ok q) : q.index = p.index := by
  unfold EPollPoller.update at h
  cases operation with
  | EPOLL_CTL_ADD =>
    dsimp only at h
    split at h
    · cases h
    · cases h
      rfl
  | EPOLL_CTL_MOD =>
    dsimp only at h
    split at h
    · cases h
      rfl
    · cases h
  | EPOLL_CTL_DEL =>
    cases h
    rfl

theorem updateChannel_index {q : EPollPoller C} {ch : Channel} {n : Int}
    (hi : p.index c = ch.index) (h : p.updateChannel c n ch.events = .ok q) :
    q.index c = ch.updateChannel.index := by
  unfold EPollPoller.updateChannel at h
  rw [hi] at h
  unfold Channel.updateChannel
  cases hindex : ch.index with
  | kNew =>
    rw [hindex] at h
    obtain ⟨_, _, h⟩ := bind_eq_ok h
    rw [update_index h]
    exact Function.update_self _ _ _
  | kDeleted =>
    rw [hindex] at h
    obtain ⟨_, _, h⟩ := bind_eq_ok h
    rw [update_index h]
    exact Function.update_self _ _ _
  | kAdded =>
    rw [hindex] at h
    obtain ⟨_, _, h⟩ := bind_eq_ok h
    by_cases hn : ch.events = kNoneEvent
    · rw [if_pos hn] at h
      obtain ⟨r, _, h⟩ := bind_eq_ok h
      cases h
      simp only [Channel.isNoneEvent, hn, decide_true, if_true]
      exact Function.update_self _ _ _
    · rw [if_neg hn] at h
      simp only [Channel.isNoneEvent, hn, decide_false, Bool.false_eq_true, if_false]
      rw [update_index h, hi]

end EPollPoller

/-! ### What `PollPoller` keeps -/

namespace PollPoller

variable {fd : C → Nat} {events : C → PollMask} {added : C → Bool} {p : PollPoller C} {c : C}

/-- A channel in the loop has a slot, a channel outside is not in the map, and every slot
is somebody's. -/
structure Inv (fd : C → Nat) (events : C → PollMask) (added : C → Bool) (p : PollPoller C) :
    Prop where
  inside : ∀ c, added c = true → p.channels (fd c) = some c ∧
    ∃ i : Nat, p.index c = i ∧ p.pollfds[i]? = some (entry (fd c) (events c))
  outside : ∀ c, added c = false → p.channels (fd c) = none
  owner : ∀ (i : Nat) pfd, p.pollfds[i]? = some pfd → ∃ c, added c = true ∧ p.index c = i

omit [DecidableEq C] in
theorem new_inv : Inv fd (fun _ => kNoneEvent) (fun _ => false) new where
  inside c h := by cases h
  outside c _ := rfl
  owner i pfd h := by cases h

theorem entry_fd (n : Nat) (mask : PollMask) :
    (if (entry n mask).fd < 0 then -(entry n mask).fd - 1 else (entry n mask).fd) = n := by
  unfold entry
  simp only
  split
  · rw [if_pos (by omega)]
    omega
  · rw [if_neg (by omega)]

theorem entry_inj {m n : Nat} {mask mask' : PollMask} (h : entry m mask = entry n mask') :
    m = n := by
  have hm := entry_fd m mask
  rw [h, entry_fd] at hm
  exact (Int.ofNat_inj.mp hm).symm

/-- The live channels: each is in the map and has its slot, and every slot is somebody's.
A descriptor may have belonged to other channels before. -/
structure Slots (fd : C → Nat) (events : C → PollMask) (live : C → Prop) (p : PollPoller C) :
    Prop where
  inside : ∀ c, live c → p.channels (fd c) = some c ∧
    ∃ i : Nat, p.index c = i ∧ p.pollfds[i]? = some (entry (fd c) (events c))
  outside : ∀ c, (∀ d, live d → fd d ≠ fd c) → p.channels (fd c) = none
  owner : ∀ (i : Nat) pfd, p.pollfds[i]? = some pfd → ∃ c, live c ∧ p.index c = i

section Slots

variable {live : C → Prop}

omit [DecidableEq C] in
theorem Slots.congr {live' : C → Prop} (h : Slots fd events live p) (hl : ∀ c, live c ↔ live' c) :
    Slots fd events live' p := by
  have heq : live = live' := funext fun c => propext (hl c)
  rw [← heq]
  exact h

omit [DecidableEq C] in
theorem Slots.fd_inj (h : Slots fd events live p) {d : C} (hc : live c) (hd : live d)
    (he : fd c = fd d) : c = d := by
  have hcc := (h.inside c hc).1
  rw [he, (h.inside d hd).1] at hcc
  exact (Option.some.inj hcc).symm

omit [DecidableEq C] in
theorem Slots.slot_unique (h : Slots fd events live p) {d : C} (hc : live c) (hd : live d)
    (hi : p.index c = p.index d) : c = d := by
  obtain ⟨_, i, hci, hce⟩ := h.inside c hc
  obtain ⟨_, j, hdj, hde⟩ := h.inside d hd
  have hij : i = j := by omega
  subst hij
  exact h.fd_inj hc hd (entry_inj (Option.some.inj (hce.symm.trans hde)))

omit [DecidableEq C] in
theorem Slots.fd_ne (h : Slots fd events live p) {d : C} (hc : live c) (hd : live d)
    (hne : d ≠ c) : (fd d : Int) ≠ fd c := by
  intro he
  exact hne (h.fd_inj hd hc (Int.ofNat_inj.mp he))

/-- A new entry at the end. -/
theorem Slots.updateChannel_new (h : Slots fd events live p) (hfresh : ∀ d, live d → fd d ≠ fd c)
    {mask : PollMask} (hm : mask ≠ kNoneEvent) (hi : p.index c < 0) :
    ∃ q, p.updateChannel c (fd c) mask = .ok q ∧
      q.channels = Function.update p.channels (fd c) (some c) ∧
      (∀ d, d ≠ c → q.index d = p.index d) ∧
      Slots fd (Function.update events c mask) (fun d => d = c ∨ live d) q := by
  have hentry : (⟨fd c, mask⟩ : PollFd) = entry (fd c) mask := by
    unfold entry
    rw [if_neg hm]
  have hother : ∀ d, live d → d ≠ c := by
    intro d hd hdc
    exact hfresh d hd (by rw [hdc])
  refine ⟨_,
    by rw [PollPoller.updateChannel, if_pos hi, check_ok (h.outside c hfresh), ok_bind]; rfl,
    rfl, fun d hd => Function.update_of_ne hd _ _, ?_, ?_, ?_⟩
  · intro d hd
    by_cases hdc : d = c
    · subst hdc
      refine ⟨Function.update_self _ _ _, p.pollfds.length, Function.update_self _ _ _, ?_⟩
      simp only [setIndex, setChannel, Function.update_self, hentry, List.getElem?_concat_length]
    · have hld := hd.resolve_left hdc
      obtain ⟨hc, i, hdi, hde⟩ := h.inside d hld
      have hne : (fd d : Int) ≠ fd c := fun he => hfresh d hld (Int.ofNat_inj.mp he)
      simp only [setIndex, setChannel, Function.update_of_ne hdc, Function.update_of_ne hne]
      refine ⟨hc, i, hdi, ?_⟩
      rw [List.getElem?_append_left (List.getElem?_eq_some_iff.mp hde).1]
      exact hde
  · intro d hd
    have hne : (fd d : Int) ≠ fd c := fun he => hd c (.inl rfl) (Int.ofNat_inj.mp he).symm
    simp only [setIndex, setChannel, Function.update_of_ne hne]
    exact h.outside d fun e he => hd e (.inr he)
  · intro i pfd hpfd
    simp only [setIndex, setChannel] at hpfd ⊢
    by_cases hil : i < p.pollfds.length
    · rw [List.getElem?_append_left hil] at hpfd
      obtain ⟨d, hd, hdi⟩ := h.owner i pfd hpfd
      exact ⟨d, .inr hd, by rw [Function.update_of_ne (hother d hd)]; exact hdi⟩
    · have hle := (List.getElem?_eq_some_iff.mp hpfd).1
      rw [List.length_append, List.length_singleton] at hle
      have hlast : i = p.pollfds.length := by omega
      exact ⟨c, .inl rfl, by rw [Function.update_self, hlast]⟩

theorem Slots.updateChannel_old (h : Slots fd events live p) (ha : live c) (mask : PollMask) :
    ∃ q, p.updateChannel c (fd c) mask = .ok q ∧ q.channels = p.channels ∧ q.index = p.index ∧
      Slots fd (Function.update events c mask) live q := by
  obtain ⟨hc, i, hci, hce⟩ := h.inside c ha
  have hlt := (List.getElem?_eq_some_iff.mp hce).1
  have hok : (entry (fd c) (events c)).fd = fd c ∨ (entry (fd c) (events c)).fd = -fd c - 1 := by
    unfold entry
    split
    · exact .inr rfl
    · exact .inl rfl
  refine ⟨{ p with pollfds := p.pollfds.set i (entry (fd c) mask) }, ?_, rfl, rfl, ?_,
    h.outside, ?_⟩
  · rw [PollPoller.updateChannel, if_neg (by omega), check_ok hc, ok_bind]
    simp only [hci, Int.toNat_natCast, hce, check_ok hok, ok_bind]
    rfl
  · intro d hd
    by_cases hdc : d = c
    · subst hdc
      refine ⟨hc, i, hci, ?_⟩
      rw [Function.update_self, List.getElem?_set_self hlt]
    · rw [Function.update_of_ne hdc]
      obtain ⟨hdch, j, hdj, hde⟩ := h.inside d hd
      have hij : i ≠ j := by
        intro hij
        exact hdc (h.slot_unique hd ha (by rw [hdj, hci, hij]))
      refine ⟨hdch, j, hdj, ?_⟩
      rw [List.getElem?_set_ne hij]
      exact hde
  · intro j pfd hpfd
    have hjl : j < p.pollfds.length := by
      have := (List.getElem?_eq_some_iff.mp hpfd).1
      rwa [List.length_set] at this
    exact h.owner j _ (List.getElem?_eq_getElem hjl)

theorem getElem?_dropLast_of_lt {l : List PollFd} {i : Nat} (h : i + 1 < l.length) :
    l.dropLast[i]? = l[i]? := by
  rw [List.dropLast_eq_take, List.getElem?_take_of_lt (by omega)]

omit [DecidableEq C] in
theorem Slots.outside_remove (h : Slots fd events live p) (ha : live c) (e : C)
    (he : ∀ d, live d ∧ d ≠ c → fd d ≠ fd e) :
    Function.update p.channels (fd c) none (fd e) = none := by
  by_cases hec : (fd e : Int) = fd c
  · rw [hec]
    exact Function.update_self _ _ _
  · rw [Function.update_of_ne hec]
    refine h.outside e ?_
    intro d hd
    by_cases hdc : d = c
    · subst hdc
      intro hde
      exact hec (by rw [hde])
    · exact he d ⟨hd, hdc⟩

omit [DecidableEq C] in
theorem Slots.popBack (h : Slots fd events live p) (ha : live c) {i : Nat} (hci : p.index c = i)
    (hlast : i + 1 = p.pollfds.length) :
    Slots fd events (fun d => live d ∧ d ≠ c)
      { p.setChannel (fd c) none with pollfds := p.pollfds.dropLast } where
  inside d hd := by
    obtain ⟨hld, hdc⟩ := hd
    obtain ⟨hdch, j, hdj, hde⟩ := h.inside d hld
    have hjl := (List.getElem?_eq_some_iff.mp hde).1
    have hij : i ≠ j := by
      intro hij
      exact hdc (h.slot_unique hld ha (by rw [hdj, hci, hij]))
    simp only [setChannel, Function.update_of_ne (h.fd_ne ha hld hdc)]
    refine ⟨hdch, j, hdj, ?_⟩
    rw [getElem?_dropLast_of_lt (by omega)]
    exact hde
  outside e he := h.outside_remove ha e he
  owner k pfd hk := by
    have hkl := (List.getElem?_eq_some_iff.mp hk).1
    rw [List.length_dropLast] at hkl
    rw [getElem?_dropLast_of_lt (by omega)] at hk
    obtain ⟨d, hd, hdk⟩ := h.owner k pfd hk
    have hdc : d ≠ c := by
      intro hdc
      rw [hdc, hci] at hdk
      omega
    exact ⟨d, ⟨hd, hdc⟩, hdk⟩

/-- The channel of the last slot moves to the slot that gets free. -/
theorem Slots.moveLast (h : Slots fd events live p) (ha : live c) {i : Nat} (hci : p.index c = i)
    (hi : i + 1 < p.pollfds.length) {d : C} (hd : live d)
    (hdi : p.index d = (p.pollfds.length - 1 : Nat)) :
    Slots fd events (fun e => live e ∧ e ≠ c)
      { p.setChannel (fd c) none with
        index := Function.update p.index d i
        pollfds := (p.pollfds.set i (entry (fd d) (events d))).dropLast } := by
  have hset : (p.pollfds.set i (entry (fd d) (events d))).length = p.pollfds.length :=
    List.length_set
  have hdne : d ≠ c := by
    intro hdc
    rw [hdc, hci] at hdi
    omega
  refine ⟨?_, fun e he => h.outside_remove ha e he, ?_⟩
  · intro e he
    obtain ⟨hle, hec⟩ := he
    obtain ⟨hech, j, hej, hee⟩ := h.inside e hle
    simp only [setChannel, Function.update_of_ne (h.fd_ne ha hle hec)]
    by_cases hed : e = d
    · subst hed
      refine ⟨hech, i, Function.update_self _ _ _, ?_⟩
      rw [getElem?_dropLast_of_lt (by omega), List.getElem?_set_self (by omega)]
    · have hjl := (List.getElem?_eq_some_iff.mp hee).1
      have hij : i ≠ j := by
        intro hij
        exact hec (h.slot_unique hle ha (by rw [hej, hci, hij]))
      have hjd : j ≠ p.pollfds.length - 1 := by
        intro hjd
        exact hed (h.slot_unique hle hd (by rw [hej, hdi, hjd]))
      refine ⟨hech, j, by rw [Function.update_of_ne hed]; exact hej, ?_⟩
      rw [getElem?_dropLast_of_lt (by omega), List.getElem?_set_ne hij]
      exact hee
  · intro k pfd hk
    have hkl := (List.getElem?_eq_some_iff.mp hk).1
    simp only [List.length_dropLast, hset] at hkl
    simp only at hk
    by_cases hki : k = i
    · rw [hki]
      exact ⟨d, ⟨hd, hdne⟩, Function.update_self _ _ _⟩
    · rw [getElem?_dropLast_of_lt (by omega), List.getElem?_set_ne (Ne.symm hki)] at hk
      obtain ⟨e, he, hek⟩ := h.owner k pfd hk
      have hec : e ≠ c := by
        intro hec
        rw [hec, hci] at hek
        omega
      have hed : e ≠ d := by
        intro hed
        rw [hed, hdi] at hek
        omega
      exact ⟨e, ⟨he, hec⟩, (Function.update_of_ne hed _ _).trans hek⟩

theorem Slots.removeChannel (h : Slots fd events live p) (ha : live c)
    (he : events c = kNoneEvent) :
    ∃ q, p.removeChannel c (fd c) (events c) = .ok q ∧
      q.channels = Function.update p.channels (fd c) none ∧
      (∀ d, ¬ live d → q.index d = p.index d) ∧
      Slots fd events (fun d => live d ∧ d ≠ c) q := by
  obtain ⟨hc, i, hci, hce⟩ := h.inside c ha
  have hil := (List.getElem?_eq_some_iff.mp hce).1
  have hslot : p.pollfds[(p.index c).toNat]? = some ⟨-fd c - 1, events c⟩ := by
    rw [hci, Int.toNat_natCast, hce, entry, if_pos he]
  rw [PollPoller.removeChannel, check_ok ⟨hc, he, by omega⟩, ok_bind]
  simp only [check_ok hslot, ok_bind]
  simp only [hci, Int.toNat_natCast]
  by_cases hlast : i + 1 = p.pollfds.length
  · rw [if_pos hlast]
    exact ⟨_, rfl, rfl, fun _ _ => rfl, h.popBack ha hci hlast⟩
  · rw [if_neg hlast]
    have hend : p.pollfds[p.pollfds.length - 1]? = some (p.pollfds[p.pollfds.length - 1]) :=
      List.getElem?_eq_getElem (by omega)
    obtain ⟨d, hd, hdi⟩ := h.owner _ _ hend
    obtain ⟨hdch, j, hdj, hde⟩ := h.inside d hd
    have hj : j = p.pollfds.length - 1 := by omega
    have hdc : d ≠ c := by
      intro hdc
      rw [hdc, hci] at hdi
      omega
    rw [List.getLast?_eq_getElem?, ← hj, hde]
    refine ⟨_, ?_, ?_, ?_, h.moveLast ha hci (by omega) hd hdi⟩
    · simp only [swapRemove, entry_fd, setChannel, Function.update_of_ne (h.fd_ne ha hd hdc), hdch]
    · rfl
    · intro e hle
      have hed : e ≠ d := by
        intro hed
        exact hle (hed ▸ hd)
      exact Function.update_of_ne hed _ _

end Slots

omit [DecidableEq C] in
theorem inv_iff_slots (hfd : Function.Injective fd) :
    Inv fd events added p ↔ Slots fd events (fun c => added c = true) p := by
  constructor
  · intro h
    refine ⟨h.inside, ?_, h.owner⟩
    intro c hc
    refine h.outside c ?_
    by_contra ha
    exact hc c (by simpa using ha) rfl
  · intro h
    refine ⟨h.inside, ?_, h.owner⟩
    intro c hc
    refine h.outside c ?_
    intro d hd he
    rw [hfd he, hc] at hd
    cases hd

theorem Inv.updateChannel (hfd : Function.Injective fd) (h : Inv fd events added p)
    (hidle : added c = false → events c = kNoneEvent) {mask : PollMask}
    (hmask : mask ≠ kNoneEvent ∨ events c ≠ kNoneEvent)
    (hnew : added c = true ∨ p.index c < 0) :
    ∃ q, p.updateChannel c (fd c) mask = .ok q ∧
      Inv fd (Function.update events c mask) (Function.update added c true) q := by
  have hs := (inv_iff_slots hfd).mp h
  have hlive : ∀ d, (d = c ∨ added d = true) ↔ Function.update added c true d = true := by
    intro d
    by_cases hdc : d = c
    · simp [hdc]
    · simp [hdc]
  cases ha : added c with
  | false =>
    have hm : mask ≠ kNoneEvent := hmask.resolve_right fun hne => hne (hidle ha)
    have hfresh : ∀ d, added d = true → fd d ≠ fd c := by
      intro d hd he
      rw [hfd he, ha] at hd
      cases hd
    obtain ⟨q, hq, _, _, hsq⟩ := hs.updateChannel_new hfresh hm (hnew.resolve_left (by simp [ha]))
    exact ⟨q, hq, (inv_iff_slots hfd).mpr (hsq.congr hlive)⟩
  | true =>
    obtain ⟨q, hq, _, _, hsq⟩ := hs.updateChannel_old ha mask
    refine ⟨q, hq, (inv_iff_slots hfd).mpr (hsq.congr ?_)⟩
    intro d
    rw [← hlive d]
    exact ⟨.inr, fun hd => hd.elim (fun hdc => hdc ▸ ha) id⟩

theorem Inv.removeChannel (hfd : Function.Injective fd) (h : Inv fd events added p)
    (ha : added c = true) (he : events c = kNoneEvent) :
    ∃ q, p.removeChannel c (fd c) (events c) = .ok q ∧
      Inv fd events (Function.update added c false) q := by
  obtain ⟨q, hq, _, _, hsq⟩ := ((inv_iff_slots hfd).mp h).removeChannel ha he
  refine ⟨q, hq, (inv_iff_slots hfd).mpr (hsq.congr ?_)⟩
  intro d
  by_cases hdc : d = c
  · simp [hdc]
  · simp [hdc]

omit [DecidableEq C] in
theorem Inv.watched_iff (h : Inv fd events added p) (w : Int × PollMask) :
    w ∈ p.watched ↔ ∃ c, added c = true ∧ events c ≠ kNoneEvent ∧ w = ((fd c : Int), events c) := by
  constructor
  · intro hw
    obtain ⟨hpos, hmem⟩ : 0 ≤ w.1 ∧ PollFd.mk w.1 w.2 ∈ p.pollfds := hw
    obtain ⟨i, hi⟩ := List.getElem?_of_mem hmem
    obtain ⟨c, hc, hci⟩ := h.owner i _ hi
    obtain ⟨_, j, hcj, hce⟩ := h.inside c hc
    have hij : i = j := by omega
    subst hij
    have hentry := Option.some.inj (hi.symm.trans hce)
    unfold entry at hentry
    split at hentry
    · have hfst := congrArg PollFd.fd hentry
      simp only at hfst
      omega
    next hne =>
      exact ⟨c, hc, hne, Prod.ext (congrArg PollFd.fd hentry) (congrArg PollFd.events hentry)⟩
  · intro hw
    obtain ⟨c, hc, hne, rfl⟩ := hw
    obtain ⟨_, i, _, hce⟩ := h.inside c hc
    rw [entry, if_neg hne] at hce
    exact ⟨Int.natCast_nonneg _, List.mem_of_getElem? hce⟩

end PollPoller

/-! ### Runs -/

namespace Pollers

variable {fd : C → Nat} {s t : Pollers C} {c : C}

structure Inv (fd : C → Nat) (s : Pollers C) : Prop where
  idle : ∀ c, s.addedToLoop c = false → s.events c = kNoneEvent
  epoll : s.epoll.Inv fd s.events s.addedToLoop
  poll : s.poll.Inv fd s.events s.addedToLoop

/- The calls that both pollers cope with: an update of a channel that has not been removed
from the loop before, and that has an interest after it or had one before it; a removal of
a channel that is in the loop. -/
def Fair (s : Pollers C) (a : C × ChannelCall) : Prop :=
  match a.2 with
  | .remove => s.addedToLoop a.1 = true
  | op => (s.addedToLoop a.1 = true ∨ s.poll.index a.1 < 0) ∧
      (op.events (s.events a.1) ≠ kNoneEvent ∨ s.events a.1 ≠ kNoneEvent)

omit [DecidableEq C] in
instance (s : Pollers C) (a : C × ChannelCall) : Decidable (s.Fair a) := by
  unfold Fair
  split <;> infer_instance

omit [DecidableEq C] in
theorem Inv.agree (h : s.Inv fd) : s.Agree fd :=
  ⟨Set.ext h.epoll.watched_iff, Set.ext h.poll.watched_iff⟩

theorem Inv.update (hfd : Function.Injective fd) (h : s.Inv fd) {mask : PollMask}
    (hnew : s.addedToLoop c = true ∨ s.poll.index c < 0)
    (hmask : mask ≠ kNoneEvent ∨ s.events c ≠ kNoneEvent) :
    ∃ t, s.update fd c mask = .ok t ∧ t.Inv fd := by
  obtain ⟨q, hq, hpoll⟩ := h.poll.updateChannel hfd (h.idle c) hmask hnew
  have hepoll := h.epoll.updateChannel (h.idle c) hmask
  refine ⟨_, by simp only [Pollers.update, hepoll, hq, ok_bind]; rfl, ?_, ?_, hpoll⟩
  · intro d hd
    have hdc := ne_of_update_true hd
    simp only [Function.update_of_ne hdc] at hd ⊢
    exact h.idle d hd
  · exact h.epoll.updated hfd mask

theorem Inv.remove (hfd : Function.Injective fd) (h : s.Inv fd) (ha : s.addedToLoop c = true)
    (he : s.events c = kNoneEvent) : ∃ t, s.remove fd c = .ok t ∧ t.Inv fd := by
  obtain ⟨q, hq, hpoll⟩ := h.poll.removeChannel hfd ha he
  have hepoll := h.epoll.removeChannel ha he
  refine ⟨_, by simp only [Pollers.remove, check_ok he, hepoll, hq, ok_bind]; rfl, ?_, ?_, hpoll⟩
  · intro d hd
    by_cases hdc : d = c
    · rw [hdc]
      exact he
    · simp only [Function.update_of_ne hdc] at hd
      exact h.idle d hd
  · exact h.epoll.removed hfd

theorem Inv.update_removed (h : s.Inv fd) (ha : s.addedToLoop c = false)
    (hi : ¬ s.poll.index c < 0) (mask : PollMask) : s.update fd c mask ≠ .ok t := by
  intro ht
  obtain ⟨_, _, ht⟩ := bind_eq_ok ht
  obtain ⟨_, hq, _⟩ := bind_eq_ok ht
  unfold PollPoller.updateChannel at hq
  rw [if_neg hi, check, if_neg (by simp [h.poll.outside c ha])] at hq
  cases hq

theorem Inv.update_none (h : s.Inv fd) (he : s.events c = kNoneEvent)
    (ht : s.update fd c kNoneEvent = .ok t) :
    ((fd c : Int), kNoneEvent) ∈ t.epoll.watched ∧ t.events c = kNoneEvent := by
  obtain ⟨q, hq, ht⟩ := bind_eq_ok ht
  obtain ⟨_, _, ht⟩ := bind_eq_ok ht
  cases ht
  refine ⟨?_, Function.update_self _ _ _⟩
  have hkernel : q.kernel (fd c) = some kNoneEvent := by
    unfold EPollPoller.updateChannel at hq
    cases ha : s.addedToLoop c with
    | false =>
      obtain ⟨hc, hi, hk⟩ := h.epoll.outside c ha
      simp only [hi, check_ok hc, ok_bind, EPollPoller.update, EPollPoller.setIndex,
        EPollPoller.setChannel, hk] at hq
      cases hq
      exact Function.update_self _ _ _
    | true =>
      obtain ⟨hc, hi, hk⟩ := h.epoll.inside c ha
      rw [if_pos he] at hi hk
      simp only [hi, check_ok hc, ok_bind, EPollPoller.update, EPollPoller.setIndex, hk] at hq
      cases hq
      exact Function.update_self _ _ _
  exact hkernel

omit [DecidableEq C] in
theorem not_agree_of_none (hw : ((fd c : Int), kNoneEvent) ∈ t.epoll.watched) : ¬ t.Agree fd := by
  intro hagree
  rw [hagree.1] at hw
  obtain ⟨d, _, hne, heq⟩ := hw
  exact hne (congrArg Prod.snd heq).symm

theorem Inv.remove_absent (h : s.Inv fd) (ha : s.addedToLoop c = false) :
    s.remove fd c ≠ .ok t := by
  intro ht
  obtain ⟨_, _, ht⟩ := bind_eq_ok ht
  obtain ⟨_, hq, _⟩ := bind_eq_ok ht
  unfold EPollPoller.removeChannel at hq
  rw [check, if_neg (by simp [(h.epoll.outside c ha).1])] at hq
  cases hq

theorem step_cases {a : C × ChannelCall} {x : Except Assertion (Pollers C)}
    (h : s.step fd a = some x) :
    (a.2 = .remove ∧ s.events a.1 = kNoneEvent ∧ x = s.remove fd a.1 ∧
      (s.Fair a ↔ s.addedToLoop a.1 = true)) ∨
    (∃ mask, x = s.update fd a.1 mask ∧
      (s.Fair a ↔ (s.addedToLoop a.1 = true ∨ s.poll.index a.1 < 0) ∧
        (mask ≠ kNoneEvent ∨ s.events a.1 ≠ kNoneEvent))) := by
  obtain ⟨c, op⟩ := a
  unfold step at h
  split at h
  · cases h
  next hlegal =>
    cases h
    cases op with
    | remove =>
      left
      refine ⟨rfl, ?_, rfl, Iff.rfl⟩
      by_contra he
      exact hlegal ⟨rfl, he⟩
    | _ => exact .inr ⟨_, rfl, Iff.rfl⟩

theorem step_fair (hfd : Function.Injective fd) {a : C × ChannelCall}
    {x : Except Assertion (Pollers C)} (hs : s.Inv fd) (hfair : s.Fair a)
    (h : s.step fd a = some x) : ∃ t, x = .ok t ∧ t.Inv fd := by
  rcases step_cases h with ⟨_, he, rfl, hiff⟩ | ⟨mask, rfl, hiff⟩
  · exact hs.remove hfd (hiff.mp hfair) he
  · obtain ⟨hnew, hmask⟩ := hiff.mp hfair
    exact hs.update hfd hnew hmask

theorem step_unfair {a : C × ChannelCall} (hs : s.Inv fd) (hfair : ¬ s.Fair a)
    (h : s.step fd a = some (.ok t)) : ¬ t.Agree fd := by
  rcases step_cases h with ⟨_, he, ht, hiff⟩ | ⟨mask, ht, hiff⟩
  · have ha : s.addedToLoop a.1 = false := by
      rw [hiff] at hfair
      simpa using hfair
    exact absurd ht.symm (hs.remove_absent ha)
  · rw [hiff, not_and_or] at hfair
    rcases hfair with hremoved | hnone
    · rw [not_or] at hremoved
      exact absurd ht.symm (hs.update_removed (by simpa using hremoved.1) hremoved.2 mask)
    · rw [not_or, not_not, not_not] at hnone
      rw [hnone.1] at ht
      exact not_agree_of_none (hs.update_none hnone.2 ht.symm).1

/-- In every run the two pollers ask the kernel, after every step, to watch what they
should, and trip no assertion, exactly if all calls of the run are fair. -/
theorem pollers_agree_iff (hfd : Function.Injective fd) (calls : List (C × ChannelCall))
    (x : Except Assertion (Pollers C)) (h : (machine fd).run (machine fd).init calls = some x) :
    (∀ pre, pre <+: calls →
      ∃ s, (machine fd).run (machine fd).init pre = some (.ok s) ∧ s.Agree fd) ↔
    (machine fd).Along Fair (machine fd).init calls := by
  have hinit : (machine fd).init.Inv fd :=
    ⟨fun _ _ => rfl, EPollPoller.new_inv, PollPoller.new_inv⟩
  refine Machine.run_always_iff (P := Inv fd) ?_ ?_ ?_ hinit h
  · intro s hs
    exact hs.agree
  · intro s a x hs hfair hst
    exact step_fair hfd hs hfair hst
  · intro s a t hs hfair hst
    exact step_unfair hs hfair hst

/- Three channels, one of which is removed from the middle of the array. -/
def sampleCalls : List (Fin 3 × ChannelCall) :=
  [(0, .enableReading), (1, .enableWriting), (2, .enableReading), (2, .enableWriting),
    (0, .disableAll), (0, .remove), (1, .disableWriting), (1, .enableReading)]

theorem pollers_agree_iff_sample :
    (machine fun c : Fin 3 => c.val + 3).Along Fair (machine fun c => c.val + 3).init sampleCalls ∧
    ∀ pre, pre <+: sampleCalls →
      ∃ s, (machine fun c : Fin 3 => c.val + 3).run (machine fun c => c.val + 3).init pre =
        some (.ok s) ∧ s.Agree fun c => c.val + 3 := by
  obtain ⟨s, hs, _⟩ : ∃ s, (machine fun c : Fin 3 => c.val + 3).run
      (machine fun c => c.val + 3).init sampleCalls = some (.ok s) ∧
        decide (s.poll.pollfds.length = 2) = true :=
    Machine.exists_of_runsTo (by decide +kernel)
  have hfd : Function.Injective fun c : Fin 3 => c.val + 3 := by
    intro c d h
    exact Fin.ext (Nat.add_right_cancel h)
  have hfair : (machine fun c : Fin 3 => c.val + 3).Along Fair (machine fun c => c.val + 3).init
      sampleCalls := by
    decide +kernel
  exact ⟨hfair, (pollers_agree_iff hfd sampleCalls _ hs).mpr hfair⟩

/-- A second disable puts the descriptor back into epoll; a first update without interest
cannot be taken back; a removed channel cannot come back. -/
theorem pollers_disagree :
    (∃ s, (machine fun c : Fin 1 => c.val + 3).run (machine fun c => c.val + 3).init
        [(0, .enableReading), (0, .disableReading), (0, .disableReading)] = some (.ok s) ∧
      s.epoll.watched ≠ s.poll.watched) ∧
    (machine fun c : Fin 1 => c.val + 3).run (machine fun c => c.val + 3).init
      [(0, .disableAll), (0, .remove)] = some (.error .pollPollerRemoveChannel) ∧
    (machine fun c : Fin 1 => c.val + 3).run (machine fun c => c.val + 3).init
      [(0, .enableReading), (0, .disableReading), (0, .remove), (0, .enableReading)] =
        some (.error .pollPollerUpdateChannel) := by
  refine ⟨?_, Machine.run_of_failsWith (by decide +kernel),
    Machine.run_of_failsWith (by decide +kernel)⟩
  obtain ⟨s, hs, htest⟩ : ∃ s, (machine fun c : Fin 1 => c.val + 3).run
      (machine fun c => c.val + 3).init
        [(0, .enableReading), (0, .disableReading), (0, .disableReading)] = some (.ok s) ∧
      decide (s.epoll.kernel 3 = some kNoneEvent ∧ s.poll.pollfds = [⟨-4, kNoneEvent⟩]) = true :=
    Machine.exists_of_runsTo (by decide +kernel)
  obtain ⟨hkernel, hpollfds⟩ := of_decide_eq_true htest
  refine ⟨s, hs, ?_⟩
  intro heq
  have hin : ((3 : Int), kNoneEvent) ∈ s.epoll.watched := hkernel
  rw [heq] at hin
  obtain ⟨_, hmem⟩ : 0 ≤ (3 : Int) ∧ PollFd.mk 3 kNoneEvent ∈ s.poll.pollfds := hin
  rw [hpollfds] at hmem
  cases List.mem_singleton.mp hmem

end Pollers

end TstMuduo.Net
