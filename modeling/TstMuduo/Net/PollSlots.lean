import TstMuduo.Net.Poller

/-!
# The slots of `PollPoller` (muduo/net/poller/PollPoller.cc)

Channels come and go, and the descriptor of one that is gone may belong to a later one.
In every state of every run `index_` leads from the channels in the map to the slots of
`pollfds_` and back.
-/

namespace TstMuduo.Net
open TstMuduo.Lib

variable {C : Type} [DecidableEq C]

/- `fillActiveChannels` (`PollPoller.cc:57`): the entries of `pollfds_` come with their
`revents`, and the channels that are pushed come with what `set_revents` gave them. -/
def PollPoller.fillActiveChannels (p : PollPoller C) (fd : C → Nat) :
    List (PollFd × Int) → Nat → Except Assertion (List (C × Int))
  | [], _ => .ok []
  | (pfd, revents) :: rest, numEvents =>
    if numEvents = 0 then .ok []
    else if 0 < revents then
      match p.channels pfd.fd with
      | none => .error .pollPollerFillActiveChannels
      | some c => do
        check ((fd c : Int) = pfd.fd) .pollPollerFillActiveChannels
        let active ← p.fillActiveChannels fd rest (numEvents - 1)
        return (c, revents) :: active
    else p.fillActiveChannels fd rest numEvents

/-! ### The calls of the loop -/

inductive PollCall where
  | update (mask : PollMask)
  | remove

/- `live` are the channels that have been updated and not removed. -/
structure PollState (C : Type) where
  events : C → PollMask
  live : List C
  removed : List C
  poll : PollPoller C

namespace PollState

variable (fd : C → Nat)

def new : PollState C := ⟨fun _ => kNoneEvent, [], [], .new⟩

def update (s : PollState C) (c : C) (mask : PollMask) : Except Assertion (PollState C) := do
  let poll ← s.poll.updateChannel c (fd c) mask
  return { s with
    events := Function.update s.events c mask
    live := if c ∈ s.live then s.live else c :: s.live
    poll := poll }

def remove (s : PollState C) (c : C) : Except Assertion (PollState C) := do
  let poll ← s.poll.removeChannel c (fd c) (s.events c)
  return { s with
    live := s.live.filter fun d => d ≠ c
    removed := c :: s.removed
    poll := poll }

/-- What the callers promise: a channel starts with an interest and a descriptor that no
live channel has, it is removed without interest, and that is its end. -/
def Allowed (s : PollState C) (c : C) : PollCall → Prop
  | .update mask => c ∉ s.removed ∧ (c ∈ s.live ∨ (mask ≠ kNoneEvent ∧ ∀ d ∈ s.live, fd d ≠ fd c))
  | .remove => c ∈ s.live ∧ s.events c = kNoneEvent

instance (s : PollState C) (c : C) (a : PollCall) : Decidable (s.Allowed fd c a) := by
  cases a <;> unfold Allowed <;> infer_instance

def call (s : PollState C) (c : C) : PollCall → Except Assertion (PollState C)
  | .update mask => s.update fd c mask
  | .remove => s.remove fd c

def machine : Machine (PollState C) (C × PollCall) Assertion where
  init := new
  step s a := if s.Allowed fd a.1 a.2 then some (s.call fd a.1 a.2) else none

/-! ### The bookkeeping -/

def eventSlots (revents : List Int) : List (Int × Int) :=
  (revents.zipIdx.filter fun r => 0 < r.1).map fun r => ((r.2 : Int), r.1)

/-- The channels of `channels_` are the live ones, each under its descriptor; `index_` is a
bijection from them to the slots; a slot has what its channel says. -/
structure Bookkept (s : PollState C) : Prop where
  channels : ∀ n c, s.poll.channels n = some c ↔ c ∈ s.live ∧ n = fd c
  slot : ∀ c ∈ s.live, ∃ i : Nat, s.poll.index c = i ∧ s.poll.pollfds[i]? =
    some ⟨if s.events c = kNoneEvent then -fd c - 1 else fd c, s.events c⟩
  owner : ∀ i < s.poll.pollfds.length, ∃ c ∈ s.live, s.poll.index c = i ∧
    ∀ d ∈ s.live, s.poll.index d = i → d = c

/-- Whatever `poll(2)` answers, on the descriptors that it does not ignore, the active
channels are those of the slots with events. -/
def Fills (s : PollState C) : Prop :=
  ∀ revents : List Int, revents.length = s.poll.pollfds.length →
    (∀ (i : Nat) pfd r, s.poll.pollfds[i]? = some pfd → revents[i]? = some r → 0 < r → 0 ≤ pfd.fd) →
    ∃ active, s.poll.fillActiveChannels fd (s.poll.pollfds.zip revents)
        (revents.countP fun r => 0 < r) = .ok active ∧
      (active.map fun a => (s.poll.index a.1, a.2)) = eventSlots revents ∧
      ∀ a ∈ active, a.1 ∈ s.live

/-- What the calls keep. -/
structure Inv (s : PollState C) : Prop where
  slots : PollPoller.Slots fd s.events (fun c => c ∈ s.live) s.poll
  only : ∀ n c, s.poll.channels n = some c → c ∈ s.live ∧ n = fd c
  unseen : ∀ c, c ∉ s.live → c ∉ s.removed → s.poll.index c < 0

variable {fd} {s : PollState C} {c : C}

omit [DecidableEq C] in
theorem new_inv : (new : PollState C).Inv fd := by
  refine ⟨⟨?_, fun _ _ => rfl, ?_⟩, ?_, fun _ _ _ => show (-1 : Int) < 0 by decide⟩
  · intro c hc
    cases hc
  · intro i pfd h
    cases h
  · intro n c h
    cases h

theorem Inv.update (h : s.Inv fd) {mask : PollMask} (hs : s.Allowed fd c (.update mask)) :
    ∃ t, s.update fd c mask = .ok t ∧ t.Inv fd := by
  obtain ⟨hrem, hlive⟩ := hs
  by_cases hc : c ∈ s.live
  · obtain ⟨q, hq, hch, hidx, hslots⟩ := h.slots.updateChannel_old hc mask
    refine ⟨{ s with events := Function.update s.events c mask, poll := q }, ?_, hslots, ?_, ?_⟩
    · simp only [PollState.update, hq, ok_bind, if_pos hc]
      rfl
    · intro n d hd
      rw [hch] at hd
      exact h.only n d hd
    · intro d hd hr
      rw [hidx]
      exact h.unseen d hd hr
  · obtain ⟨hm, hfresh⟩ := hlive.resolve_left hc
    obtain ⟨q, hq, hch, hidx, hslots⟩ := h.slots.updateChannel_new hfresh hm (h.unseen c hc hrem)
    refine ⟨{ s with
      events := Function.update s.events c mask, live := c :: s.live, poll := q }, ?_, ?_, ?_, ?_⟩
    · simp only [PollState.update, hq, ok_bind, if_neg hc]
      rfl
    · exact hslots.congr fun d => List.mem_cons.symm
    · intro n d hd
      simp only [hch] at hd
      by_cases hn : n = fd c
      · rw [hn, Function.update_self] at hd
        cases hd
        exact ⟨List.mem_cons_self, hn⟩
      · rw [Function.update_of_ne hn] at hd
        obtain ⟨hmem, hnd⟩ := h.only n d hd
        exact ⟨List.mem_cons_of_mem _ hmem, hnd⟩
    · intro d hd hr
      have hdc : d ≠ c := fun he => hd (he ▸ List.mem_cons_self)
      show q.index d < 0
      rw [hidx d hdc]
      exact h.unseen d (fun hmem => hd (List.mem_cons_of_mem _ hmem)) hr

theorem Inv.remove (h : s.Inv fd) (hs : s.Allowed fd c .remove) :
    ∃ t, s.remove fd c = .ok t ∧ t.Inv fd := by
  obtain ⟨hc, he⟩ := hs
  obtain ⟨q, hq, hch, hidx, hslots⟩ := h.slots.removeChannel hc he
  refine ⟨{ s with
    live := s.live.filter fun d => d ≠ c, removed := c :: s.removed, poll := q }, ?_, ?_, ?_, ?_⟩
  · simp only [PollState.remove, hq, ok_bind]
    rfl
  · refine hslots.congr fun d => ?_
    simp only [List.mem_filter, decide_eq_true_eq]
  · intro n d hd
    simp only [hch] at hd
    by_cases hn : n = fd c
    · rw [hn, Function.update_self] at hd
      cases hd
    · rw [Function.update_of_ne hn] at hd
      obtain ⟨hmem, hnd⟩ := h.only n d hd
      have hdc : d ≠ c := by
        intro hdc
        exact hn (by rw [hnd, hdc])
      exact ⟨List.mem_filter.mpr ⟨hmem, by simpa using hdc⟩, hnd⟩
  · intro d hd hr
    have hdc : d ≠ c := fun he => hr (he ▸ List.mem_cons_self)
    have hmem : d ∉ s.live := fun hmem => hd (List.mem_filter.mpr ⟨hmem, by simpa using hdc⟩)
    show q.index d < 0
    rw [hidx d hmem]
    exact h.unseen d hmem fun hr' => hr (List.mem_cons_of_mem _ hr')

omit [DecidableEq C] in
theorem Inv.bookkept (h : s.Inv fd) : s.Bookkept fd := by
  refine ⟨?_, ?_, ?_⟩
  · intro n c
    refine ⟨h.only n c, ?_⟩
    intro hc
    rw [hc.2]
    exact (h.slots.inside c hc.1).1
  · intro c hc
    exact (h.slots.inside c hc).2
  · intro i hi
    obtain ⟨c, hc, hci⟩ := h.slots.owner i _ (List.getElem?_eq_getElem hi)
    exact ⟨c, hc, hci, fun d hd hdi => h.slots.slot_unique hd hc (by rw [hdi, hci])⟩

omit [DecidableEq C] in
theorem Inv.channel_of_slot (h : s.Inv fd) {i : Nat} {pfd : PollFd}
    (hi : s.poll.pollfds[i]? = some pfd) (hpos : 0 ≤ pfd.fd) :
    ∃ c ∈ s.live, s.poll.channels pfd.fd = some c ∧ (fd c : Int) = pfd.fd ∧ s.poll.index c = i := by
  obtain ⟨c, hc, hci⟩ := h.slots.owner i pfd hi
  obtain ⟨hch, j, hcj, hce⟩ := h.slots.inside c hc
  have hij : i = j := by omega
  subst hij
  have hentry := Option.some.inj (hi.symm.trans hce)
  have hfd : pfd.fd = fd c := by
    rw [hentry, PollPoller.entry] at hpos ⊢
    simp only at hpos ⊢
    split
    next hn =>
      rw [if_pos hn] at hpos
      omega
    · rfl
  exact ⟨c, hc, by rw [hfd]; exact hch, hfd.symm, hci⟩

omit [DecidableEq C] in
/-- The loop from slot `k` on; the induction is on the slots that are left. -/
theorem Inv.fills_from (h : s.Inv fd) (pfds : List PollFd) (revents : List Int) (k : Nat)
    (hlen : revents.length = pfds.length) (hk : ∀ j, pfds[j]? = s.poll.pollfds[k + j]?)
    (hpos : ∀ (i : Nat) pfd r, pfds[i]? = some pfd → revents[i]? = some r → 0 < r → 0 ≤ pfd.fd) :
    ∃ active, s.poll.fillActiveChannels fd (pfds.zip revents) (revents.countP fun r => 0 < r) =
        .ok active ∧
      (active.map fun a => (s.poll.index a.1, a.2)) =
        ((revents.zipIdx k).filter fun r => 0 < r.1).map (fun r => ((r.2 : Int), r.1)) ∧
      ∀ a ∈ active, a.1 ∈ s.live := by
  induction revents generalizing pfds k with
  | nil =>
    refine ⟨[], ?_, rfl, fun a ha => by cases ha⟩
    rw [List.zip_nil_right, PollPoller.fillActiveChannels]
  | cons r revents ih =>
    cases pfds with
    | nil => cases hlen
    | cons pfd pfds =>
      have hk' : ∀ j, pfds[j]? = s.poll.pollfds[k + 1 + j]? := by
        intro j
        have hj := hk (j + 1)
        rw [List.getElem?_cons_succ] at hj
        rw [hj]
        congr 1
        omega
      obtain ⟨active, hfill, hslots, hlive⟩ := ih pfds (k + 1) (by simpa using hlen) hk'
        fun i q x hq hx => hpos (i + 1) q x hq hx
      rw [List.zip_cons_cons, PollPoller.fillActiveChannels, List.zipIdx_cons]
      by_cases hr : 0 < r
      · obtain ⟨c, hc, hch, hfd, hci⟩ := h.channel_of_slot (hk 0).symm (hpos 0 pfd r rfl rfl hr)
        have hcount : (r :: revents).countP (fun r => decide (0 < r)) =
            revents.countP (fun r => decide (0 < r)) + 1 :=
          List.countP_cons_of_pos (by simpa using hr)
        rw [hcount, if_neg (by omega), if_pos hr, hch, Nat.add_sub_cancel, hfill]
        refine ⟨(c, r) :: active, ?_, ?_, ?_⟩
        · simp only [check_ok hfd, ok_bind]
          rfl
        · rw [List.map_cons, hslots, List.filter_cons_of_pos (by simpa using hr), List.map_cons,
            hci]
          rfl
        · intro a ha
          rcases List.mem_cons.mp ha with rfl | ha
          · exact hc
          · exact hlive a ha
      · have hcount : (r :: revents).countP (fun r => decide (0 < r)) =
            revents.countP (fun r => decide (0 < r)) :=
          List.countP_cons_of_neg (by simpa using hr)
        rw [hcount, List.filter_cons_of_neg (by simpa using hr), if_neg hr]
        refine ⟨active, ?_, hslots, hlive⟩
        split
        next hzero =>
          -- no event is left, so the rest of the loop would have pushed nothing
          rw [← hfill, hzero]
          cases hz : pfds.zip revents with
          | nil => rfl
          | cons x rest => rfl
        · exact hfill

omit [DecidableEq C] in
theorem Inv.fills (h : s.Inv fd) : s.Fills fd := by
  intro revents hlen hpos
  exact h.fills_from s.poll.pollfds revents 0 hlen (fun j => by rw [Nat.zero_add]) hpos

/-- No call trips an assertion, and the bookkeeping is right in every state. -/
theorem slot_bookkeeping (fd : C → Nat) (calls : List (C × PollCall))
    {x : Except Assertion (PollState C)} (h : (machine fd).run new calls = some x) :
    ∃ s, x = .ok s ∧ s.Bookkept fd ∧ s.Fills fd := by
  have hstep : ∀ (s : PollState C) a x, s.Inv fd → (machine fd).step s a = some x →
      ∃ t, x = .ok t ∧ t.Inv fd := by
    intro s a x hs hx
    simp only [machine] at hx
    split at hx
    next hallowed =>
      obtain ⟨c, a⟩ := a
      cases hx
      cases a with
      | update mask => exact hs.update hallowed
      | remove => exact hs.remove hallowed
    · cases hx
  obtain ⟨s, hs, hinv⟩ := Machine.run_ok_all hstep new_inv h
  exact ⟨s, hs, hinv.bookkept, hinv.fills⟩

/- The first of three channels goes, and its descriptor comes back with a fourth one. -/
def reuseCalls : List (Fin 4 × PollCall) :=
  [(0, .update kReadEvent), (1, .update kReadEvent), (2, .update kReadEvent),
    (2, .update kNoneEvent),
    (0, .update kNoneEvent), (0, .remove), (3, .update kWriteEvent)]

def reuseFd : Fin 4 → Nat := fun c => if c = 3 then 5 else 5 + c

theorem slot_bookkeeping_reuse :
    ∃ s, (machine reuseFd).run new reuseCalls = some (.ok s) ∧ s.Bookkept reuseFd ∧
      s.Fills reuseFd ∧ s.poll.pollfds.map PollFd.fd = [-8, 6, 5] := by
  have hrun : (machine reuseFd).runsTo new reuseCalls
      (fun s => decide (s.poll.pollfds.map PollFd.fd = [-8, 6, 5])) = true := by decide
  obtain ⟨s, hs, hp⟩ := Machine.exists_of_runsTo hrun
  obtain ⟨t, ht, hbook, hfills⟩ := slot_bookkeeping reuseFd reuseCalls hs
  cases ht
  exact ⟨s, hs, hbook, hfills, of_decide_eq_true hp⟩

end PollState

end TstMuduo.Net
