import TstMuduo.Lib.ListUpdate
import TstMuduo.Net.RpcMail

/-!
# Every call is answered once

With messages that wait and messages that are lost no closure runs twice and no service is
called twice for a call; what is left of a call whose closure has not been run is a message or
a service somewhere.
-/

namespace TstMuduo.Net
open TstMuduo.Lib
open RpcChannel (callId dispatch settle Untouched lt_of_getElem? callId_inj findMethod Typed)

variable {Msg : Type} {proto : Protobuf Msg}

/-! ### One end -/

/- The message of the `k`th call reaches no service, and the error says so. -/
def Refused (proto : Protobuf Msg) (services : RpcServices Msg) (calls : List (RpcCall Msg))
    (k : Nat) (error : RpcErrorCode) : Prop :=
  ∃ a, calls[k]? = some a ∧ dispatch proto services (a.message proto (callId k)) = .error error

/-- A message is what its origin says, for the calls of the end that it comes to, and for the
services, the calls and the products of the end that it comes from. -/
def Envelope.Proper (proto : Protobuf Msg) (services : RpcServices Msg) (m : Envelope)
    (calls peerCalls : List (RpcCall Msg)) (produced : List (Invocation Msg × Msg)) : Prop :=
  match m.origin with
  | .call k => ∃ a, peerCalls[k]? = some a ∧ m.message = a.message proto (callId k)
  | .service k => ∃ v response, (v, response) ∈ produced ∧ v.call = k ∧
      m.message = doneMessage proto response (callId k)
  | .refusal k => ∃ error, Refused proto services calls k error ∧
      m.message = errorMessage error (callId k)
  | .stray => False

theorem Refused.mono {services : RpcServices Msg} {calls calls' : List (RpcCall Msg)} {k : Nat}
    {error : RpcErrorCode} (hcalls : calls <+: calls') (h : Refused proto services calls k error) :
    Refused proto services calls' k error := by
  obtain ⟨a, ha, hd⟩ := h
  exact ⟨a, getElem?_mono hcalls ha, hd⟩

section

variable {services : RpcServices Msg} {m : Envelope} {calls calls' peerCalls peerCalls' :
  List (RpcCall Msg)} {produced produced' : List (Invocation Msg × Msg)}

theorem Envelope.Proper.genuine (h : m.Proper proto services calls peerCalls produced) :
    m.Genuine proto peerCalls produced := by
  obtain ⟨message, origin⟩ := m
  cases origin with
  | call k => exact h
  | service k => exact h
  | refusal k =>
    obtain ⟨_, _, hm⟩ := h
    exact congrArg RpcMessage.type hm
  | stray => exact h.elim

theorem Envelope.Proper.mono (hcalls : calls <+: calls') (hpeer : peerCalls <+: peerCalls')
    (hproduced : produced <+: produced') (h : m.Proper proto services calls peerCalls produced) :
    m.Proper proto services calls' peerCalls' produced' := by
  unfold Envelope.Proper at h ⊢
  split at h
  · obtain ⟨a, ha, hm⟩ := h
    exact ⟨a, getElem?_mono hpeer ha, hm⟩
  · obtain ⟨v, response, hv, hk, hm⟩ := h
    exact ⟨v, response, hproduced.subset hv, hk, hm⟩
  · obtain ⟨error, hrefused, hm⟩ := h
    exact ⟨error, hrefused.mono hcalls, hm⟩
  · exact h

end

namespace RpcChannel

variable {e e' : RpcChannel Msg} {services : RpcServices Msg} {a : RpcCall Msg} {k : Nat}
  {m : Envelope}

/-- What holds of the calls of one end, `services` being those of the other: a call whose id
was received has run its closure, and one whose closure ran was served, or was refused and has
its response object as it was. -/
structure Settled (proto : Protobuf Msg) (services : RpcServices Msg) (e : RpcChannel Msg) :
    Prop where
  bound : e.calls.length ≤ 2 ^ 64
  sent : ∀ k, (e.progress k).sent = true →
    (e.progress k).registered ≠ none ∧ k < e.calls.length
  done : ∀ k a, e.calls[k]? = some a → callId k ∈ e.received → a.response ≠ none →
    a.done = true → (e.progress k).runs = 1
  cause : ∀ k a, e.calls[k]? = some a → 0 < (e.progress k).runs →
    (∃ j, (e.progress k).cause = some (.service j)) ∨
      (∃ error, Refused proto services e.calls k error) ∧ (e.progress k).response = a.response

theorem new_settled : (new : RpcChannel Msg).Settled proto services where
  bound := Nat.zero_le _
  sent k h := by cases h
  done k a h := by cases h
  cause k a h := by cases h

theorem Settled.keep (h : e.Settled proto services) (hcalls : e'.calls = e.calls)
    (hreceived : e'.received = e.received)
    (hsent : ∀ k, (e'.progress k).sent = true →
      (e'.progress k).registered ≠ none ∧ k < e.calls.length)
    (hruns : ∀ k, (e'.progress k).runs = (e.progress k).runs)
    (hcause : ∀ k, (e'.progress k).cause = (e.progress k).cause)
    (hresponse : ∀ k, (e'.progress k).response = (e.progress k).response) :
    e'.Settled proto services where
  bound := by
    rw [hcalls]
    exact h.bound
  sent := by
    rw [hcalls]
    exact hsent
  done := by
    intro k
    rw [hcalls, hreceived, hruns]
    exact h.done k
  cause := by
    intro k
    rw [hcalls, hruns, hcause, hresponse]
    exact h.cause k

theorem Settled.frame (h : e.Settled proto services) (hcalls : e'.calls = e.calls)
    (hreceived : e'.received = e.received) (hprogress : e'.progress = e.progress) :
    e'.Settled proto services := by
  refine h.keep hcalls hreceived ?_ ?_ ?_ ?_
  · rw [hprogress]
    exact h.sent
  · exact fun k => congrArg (fun p => (p k).runs) hprogress
  · exact fun k => congrArg (fun p => (p k).cause) hprogress
  · exact fun k => congrArg (fun p => (p k).response) hprogress

theorem Settled.allocate (h : e.Settled proto services) (hlt : e.calls.length < 2 ^ 64)
    (hnew : callId e.calls.length ∉ e.received) (a : RpcCall Msg) :
    (e.allocate a).Settled proto services := by
  have hlen : (e.allocate a).calls.length = e.calls.length + 1 := List.length_append
  have hcalls : e.calls <+: (e.allocate a).calls := List.prefix_append _ _
  -- another call than the new one is an old one
  have hold : ∀ k c, k ≠ e.calls.length → (e.allocate a).calls[k]? = some c →
      e.calls[k]? = some c := by
    intro k c hk hc
    have hlt' := lt_of_getElem? hc
    rw [hlen] at hlt'
    exact (List.getElem?_append_left (by omega)).symm.trans hc
  constructor
  · rw [hlen]
    exact hlt
  · intro k hk
    rw [hlen]
    by_cases hkl : k = e.calls.length
    · rw [hkl, allocate_progress] at hk
      cases hk
    · rw [allocate_progress_of_ne hkl] at hk ⊢
      exact ⟨(h.sent k hk).1, Nat.lt_succ_of_lt (h.sent k hk).2⟩
  · intro k c hc hmem hresponse hdone
    by_cases hkl : k = e.calls.length
    · rw [hkl] at hmem
      exact absurd hmem hnew
    · rw [allocate_progress_of_ne hkl]
      exact h.done k c (hold k c hkl hc) hmem hresponse hdone
  · intro k c hc hruns
    by_cases hkl : k = e.calls.length
    · rw [hkl, allocate_progress] at hruns
      cases hruns
    · rw [allocate_progress_of_ne hkl] at hruns ⊢
      refine (h.cause k c (hold k c hkl hc) hruns).imp_right ?_
      intro hrefused
      obtain ⟨⟨error, herror⟩, hresponse⟩ := hrefused
      exact ⟨⟨error, herror.mono hcalls⟩, hresponse⟩

theorem Settled.register (h : e.Settled proto services) (k : Nat) (a : RpcCall Msg) :
    (e.register k a).Settled proto services := by
  have hprogress : ∀ j, ∃ registered, (e.register k a).progress j =
      { e.progress j with registered := registered } ∧
        ((e.progress j).registered ≠ none → registered ≠ none) := by
    intro j
    by_cases hj : j = k
    · rw [hj]
      exact ⟨_, register_progress e k a, fun _ => Option.some_ne_none _⟩
    · exact ⟨_, register_progress_of_ne hj e a, fun hsome => hsome⟩
  refine h.keep rfl rfl ?_ ?_ ?_ ?_
  · intro j hj
    obtain ⟨registered, hp, hsome⟩ := hprogress j
    rw [hp] at hj ⊢
    exact ⟨hsome (h.sent j hj).1, (h.sent j hj).2⟩
  all_goals
    intro j
    obtain ⟨registered, hp, _⟩ := hprogress j
    rw [hp]

theorem Settled.markSent (h : e.Settled proto services) (hreg : (e.progress k).registered ≠ none)
    (hlt : k < e.calls.length) : (e.markSent k).Settled proto services := by
  refine h.keep rfl rfl ?_ ?_ ?_ ?_
  · intro j hj
    by_cases hjk : j = k
    · subst hjk
      have hself : (e.markSent j).progress j = { e.progress j with sent := true } :=
        Function.update_self _ _ _
      rw [hself]
      exact ⟨hreg, hlt⟩
    · have hother : (e.markSent k).progress j = e.progress j := Function.update_of_ne hjk _ _
      rw [hother] at hj ⊢
      exact h.sent j hj
  all_goals
    intro j
    obtain ⟨sent, hp⟩ := markSent_progress e k j
    rw [hp]

theorem settle_sent (proto : Protobuf Msg) (p : Progress Msg) (a : RpcCall Msg) (m : Envelope) :
    (settle proto p a m).sent = p.sent := by
  unfold settle
  split <;> rfl

theorem Sound.onResponse_waiting (h : e.Sound) (proto : Protobuf Msg)
    (hbound : e.calls.length ≤ 2 ^ 64) (ha : e.calls[k]? = some a) (hw : e.Waiting k)
    (hid : m.message.id = callId k) (hanswer : m.message.response.isSome ∨ m.message.error.isSome) :
    Untouched (e.progress k) a ∧ e.onResponse proto m = .ok { e with
      outstandings := Function.update e.outstandings (callId k) none
      received := e.received ++ [callId k]
      progress := Function.update e.progress k (settle proto (e.progress k) a m) } := by
  have hk := lt_of_getElem? ha
  have hentry := h.complete hbound k a ha hw
  rw [h.ids k hk] at hentry
  obtain ⟨j, c, hc, _, hjid, hout, huntouched⟩ := h.entry _ _ hentry
  have hjk : j = k := h.ids_inj hbound (lt_of_getElem? hc) hk (hjid.trans (h.ids k hk).symm)
  subst hjk
  cases ha.symm.trans hc
  refine ⟨huntouched, ?_⟩
  unfold RpcChannel.onResponse
  rw [check_ok hanswer, hid, hentry, Option.getD_some, ← finish_out]
  rfl

theorem settle_runs_of {p : Progress Msg} (hp : Untouched p a) (hresponse : a.response ≠ none)
    (hdone : a.done = true) (proto : Protobuf Msg) (m : Envelope) :
    (settle proto p a m).runs = 1 := by
  unfold settle
  split
  next hnone => exact absurd hnone hresponse
  · simp only [hdone, if_true, hp.runs]

theorem settle_ran {p : Progress Msg} (hp : Untouched p a) (h : 0 < (settle proto p a m).runs) :
    (settle proto p a m).cause = some m.origin ∧
      (m.message.response = none → (settle proto p a m).response = a.response) := by
  unfold settle at h ⊢
  split at h
  · rw [hp.runs] at h
    cases h
  next object hobject =>
    cases hd : a.done with
    | false =>
      simp only [hd, hp.runs] at h
      cases h
    | true =>
      refine ⟨rfl, ?_⟩
      intro hnone
      simp only [hnone]
      exact hp.response

theorem Settled.answered (h : e.Settled proto services)
    (ha : e.calls[k]? = some a) (huntouched : Untouched (e.progress k) a)
    (hm : (∃ j, m.origin = .service j) ∨
      (∃ error, Refused proto services e.calls k error) ∧ m.message.response = none)
    (outstandings : BitVec 64 → Option OutstandingCall) :
    Settled proto services { e with
      outstandings := outstandings
      received := e.received ++ [callId k]
      progress := Function.update e.progress k (settle proto (e.progress k) a m) } := by
  have hk := lt_of_getElem? ha
  have hself : Function.update e.progress k (settle proto (e.progress k) a m) k =
      settle proto (e.progress k) a m :=
    Function.update_self _ _ _
  have hother : ∀ j, j ≠ k →
      Function.update e.progress k (settle proto (e.progress k) a m) j = e.progress j :=
    fun j hj => Function.update_of_ne hj _ _
  have hbound := h.bound
  constructor
  · exact hbound
  · intro j hj
    by_cases hjk : j = k
    · subst hjk
      simp only [hself, settle_sent, settle_registered] at hj ⊢
      exact h.sent j hj
    · simp only [hother j hjk] at hj ⊢
      exact h.sent j hj
  · intro j c hc hmem hresponse hdone
    have hc' : e.calls[j]? = some c := hc
    by_cases hjk : j = k
    · subst hjk
      cases ha.symm.trans hc'
      simp only [hself]
      exact settle_runs_of huntouched hresponse hdone proto m
    · simp only [hother j hjk]
      rcases List.mem_append.mp hmem with hmem | hmem
      · exact h.done j c hc' hmem hresponse hdone
      · have hj := lt_of_getElem? hc'
        exact absurd (callId_inj (by omega) (by omega) (List.mem_singleton.mp hmem)) hjk
  · intro j c hc hruns
    have hc' : e.calls[j]? = some c := hc
    by_cases hjk : j = k
    · subst hjk
      cases ha.symm.trans hc'
      simp only [hself] at hruns ⊢
      obtain ⟨hcause, hobject⟩ := settle_ran huntouched hruns
      rcases hm with ⟨i, hi⟩ | ⟨herror, hnone⟩
      · exact .inl ⟨i, by rw [hcause, hi]⟩
      · exact .inr ⟨herror, hobject hnone⟩
    · simp only [hother j hjk] at hruns ⊢
      exact h.cause j c hc' hruns

end RpcChannel

namespace RpcMail

variable {services : Bool → RpcServices Msg} {s : RpcMail Msg} {b : Bool} {m : Envelope}
  {e : RpcChannel Msg} {k : Nat}

/-! ### What the messages say -/

structure Sane (proto : Protobuf Msg) (services : Bool → RpcServices Msg) (s : RpcMail Msg) :
    Prop where
  linked : RpcChannel.Inv proto services s.channels
  settled : ∀ b, (s b).channel.Settled proto (services !b)
  proper : ∀ b, ∀ m ∈ s.toward b, m.Proper proto (services !b) (s b).channel.calls
    (s !b).channel.calls (s !b).channel.produced

theorem of_both {P : Bool → Prop} (b : Bool) (hself : P b) (hother : P !b) (c : Bool) : P c := by
  by_cases hc : c = b
  · rw [hc]
    exact hself
  · have hcb : c = !b := by cases b <;> cases c <;> simp at hc ⊢
    rw [hcb]
    exact hother

theorem Sane.setChannel (h : Sane proto services s)
    (he : RpcChannel.Linked proto (services b) e (s !b).channel)
    (hsettled : e.Settled proto (services !b)) (hinbox : ∀ m ∈ e.inbox, m ∈ (s b).channel.inbox)
    (hcalls : (s b).channel.calls <+: e.calls)
    (hproduced : (s b).channel.produced <+: e.produced) :
    Sane proto services (s.setChannel b e) := by
  have hself := s.setChannel_self b e
  have hother := s.setChannel_other b e
  refine ⟨?_, of_both b ?_ ?_, of_both b ?_ ?_⟩
  · rw [channels_setChannel]
    exact h.linked.update he hcalls hproduced
  · rw [hself]
    exact hsettled
  · rw [hother]
    exact h.settled !b
  · intro m hm
    rw [toward, hself, hother] at hm
    rw [hself, hother]
    refine (h.proper b m ?_).mono hcalls (List.prefix_refl _) (List.prefix_refl _)
    rcases List.mem_append.mp hm with hm | hm
    · exact List.mem_append_left _ (hinbox m hm)
    · exact List.mem_append_right _ hm
  · intro m hm
    rw [toward, Bool.not_not, hself, hother] at hm
    rw [Bool.not_not, hself, hother]
    have hproper := h.proper (!b) m (by rw [toward, Bool.not_not]; exact hm)
    rw [Bool.not_not] at hproper
    exact hproper.mono (List.prefix_refl _) hcalls hproduced

theorem Sane.place (h : Sane proto services s)
    (hm : m.Proper proto (services b) (s !b).channel.calls (s b).channel.calls
      (s b).channel.produced) (fate : Fate) : Sane proto services (s.place b m fate) := by
  have hchannels : ∀ c, ∃ inbox mail, (s.place b m fate c).channel =
      { (s c).channel with inbox := inbox, mail := mail } := s.place_channel b m fate
  have hcalls : ∀ c, (s.place b m fate c).channel.calls = (s c).channel.calls := by
    intro c
    obtain ⟨_, _, hc⟩ := hchannels c
    rw [hc]
  have hproduced : ∀ c, (s.place b m fate c).channel.produced = (s c).channel.produced := by
    intro c
    obtain ⟨_, _, hc⟩ := hchannels c
    rw [hc]
  refine ⟨?_, ?_, ?_⟩
  · cases fate with
    | posted =>
      have hpost := h.linked.post (b := !b) (m := m)
      rw [Bool.not_not] at hpost
      rw [RpcMail.place, channels_setChannel]
      exact hpost hm.genuine
    | waiting =>
      rw [RpcMail.place, channels_setWaiting]
      exact h.linked
    | lost =>
      have hsame : (s.place b m .lost).channels = s.channels := by
        funext c
        by_cases hc : c = b
        · rw [hc, channels, RpcMail.place, Function.update_self]
          rfl
        · rw [channels, RpcMail.place, Function.update_of_ne hc]
          rfl
      rw [hsame]
      exact h.linked
  · intro c
    obtain ⟨_, _, hc⟩ := hchannels c
    rw [hc]
    exact (h.settled c).frame rfl rfl rfl
  · intro c n hn
    rw [hcalls, hcalls, hproduced]
    rcases mem_toward_place hn with hn | ⟨rfl, rfl⟩
    · exact h.proper c n hn
    · rw [Bool.not_not]
      exact hm

theorem Sane.setWaiting (h : Sane proto services s) {rest : List Envelope}
    (hrest : (s b).waiting = m :: rest) : Sane proto services (s.setWaiting b rest) ∧
      m.Proper proto (services b) (s !b).channel.calls (s b).channel.calls
        (s b).channel.produced := by
  have hchannel : ∀ c, (s.setWaiting b rest c).channel = (s c).channel :=
    congrFun (channels_setWaiting s b rest)
  have hself : s.setWaiting b rest b = { s b with waiting := rest } := Function.update_self _ _ _
  have hother : s.setWaiting b rest (!b) = s !b := Function.update_of_ne (by simp) _ _
  refine ⟨⟨?_, ?_, of_both b ?_ ?_⟩, ?_⟩
  · rw [channels_setWaiting]
    exact h.linked
  · intro c
    rw [hchannel]
    exact h.settled c
  · intro n hn
    rw [hchannel, hchannel]
    refine h.proper b n ?_
    rw [toward, hself, hother] at hn
    exact hn
  · intro n hn
    rw [hchannel, hchannel]
    refine h.proper (!b) n ?_
    rw [toward, Bool.not_not, hself, hother] at hn
    rw [toward, Bool.not_not, hrest]
    rcases List.mem_append.mp hn with hn | hn
    · exact List.mem_append_left _ hn
    · exact List.mem_append_right _ (List.mem_cons_of_mem m hn)
  · have hproper := h.proper (!b) m ?_
    · rw [Bool.not_not] at hproper
      exact hproper
    · rw [toward, Bool.not_not, hrest]
      exact List.mem_append_right _ List.mem_cons_self

/-! ### How often a call is somewhere -/

def requests (s : RpcMail Msg) (b : Bool) (k : Nat) : Nat :=
  (s.toward !b).countP (isCall k) + (s !b).channel.pending.countP (serves k) +
    (s !b).channel.produced.countP fun r => serves k r.1

def sentOnce (s : RpcMail Msg) (b : Bool) (k : Nat) : Nat :=
  if ((s b).channel.progress k).sent then 1 else 0

theorem requests_place (s : RpcMail Msg) (b : Bool) (m : Envelope) (fate : Fate) (c : Bool)
    (k : Nat) : (s.place b m fate).requests c k =
      s.requests c k + if c = b ∧ isCall k m = true then 1 else 0 := by
  obtain ⟨_, _, hpeer⟩ := s.place_channel b m fate (!c)
  have hcall : ((!c) = !b) ↔ c = b := by cases b <;> cases c <;> simp
  unfold requests
  rw [countP_toward_place, hpeer]
  simp only [hcall]
  omega

theorem requests_setChannel_self (s : RpcMail Msg) (b : Bool) (e : RpcChannel Msg) (k : Nat) :
    (s.setChannel b e).requests b k = s.requests b k := by
  unfold requests toward
  rw [Bool.not_not, setChannel_self, setChannel_other]

theorem requests_setChannel_other (s : RpcMail Msg) (b : Bool) (e : RpcChannel Msg) (k : Nat) :
    (s.setChannel b e).requests (!b) k +
        ((s b).channel.inbox.countP (isCall k) + (s b).channel.pending.countP (serves k) +
          (s b).channel.produced.countP fun r => serves k r.1) =
      s.requests (!b) k + (e.inbox.countP (isCall k) + e.pending.countP (serves k) +
        e.produced.countP fun r => serves k r.1) := by
  unfold requests toward
  rw [Bool.not_not, setChannel_self, setChannel_other]
  simp only [List.countP_append]
  omega

theorem requests_setWaiting {rest : List Envelope} (h : (s b).waiting = m :: rest) (c : Bool)
    (k : Nat) : (s.setWaiting b rest).requests c k +
      (if c = b ∧ isCall k m = true then 1 else 0) = s.requests c k := by
  have hself : s.setWaiting b rest b = { s b with waiting := rest } := Function.update_self _ _ _
  have hother : s.setWaiting b rest (!b) = s !b := Function.update_of_ne (by simp) _ _
  revert c
  refine of_both b ?_ ?_
  · unfold requests toward
    rw [Bool.not_not, hself, hother]
    simp only [List.countP_append, h, List.countP_cons, true_and]
    omega
  · have hne : (!b) ≠ b := by simp
    unfold requests toward
    rw [Bool.not_not, hself, hother]
    simp only [hne, false_and, if_false]
    omega

theorem sentOnce_place (s : RpcMail Msg) (b : Bool) (m : Envelope) (fate : Fate) (c : Bool)
    (k : Nat) : (s.place b m fate).sentOnce c k = s.sentOnce c k := by
  obtain ⟨_, _, hc⟩ := s.place_channel b m fate c
  unfold sentOnce
  rw [hc]

theorem sentOnce_setWaiting (s : RpcMail Msg) (b : Bool) (waiting : List Envelope) (c : Bool)
    (k : Nat) : (s.setWaiting b waiting).sentOnce c k = s.sentOnce c k := by
  unfold sentOnce
  rw [show (s.setWaiting b waiting c).channel = (s c).channel from
    congrFun (channels_setWaiting s b waiting) c]

/- What the counts are: a call that was sent is in one place, and a service is called for it
at most once. -/
def Counted (s : RpcMail Msg) : Prop :=
  ∀ b, ∀ k < 2 ^ 64, s.places b k = s.sentOnce b k ∧ s.requests b k ≤ s.sentOnce b k

theorem Counted.keep (h : s.Counted) (hinbox : e.inbox = (s b).channel.inbox)
    (hreceived : e.received = (s b).channel.received)
    (hpending : e.pending = (s b).channel.pending)
    (hproduced : e.produced = (s b).channel.produced)
    (hsent : ∀ k < 2 ^ 64, (e.progress k).sent = ((s b).channel.progress k).sent) :
    (s.setChannel b e).Counted := by
  refine of_both b ?_ ?_
  · intro k hk
    have hone : (s.setChannel b e).sentOnce b k = s.sentOnce b k := by
      rw [sentOnce, setChannel_self, sentOnce, hsent k hk]
    rw [hone, places_keep hinbox hreceived hpending, requests_setChannel_self]
    exact h b k hk
  · intro k hk
    have hone : (s.setChannel b e).sentOnce (!b) k = s.sentOnce (!b) k := by
      rw [sentOnce, setChannel_other, sentOnce]
    have hrequests := s.requests_setChannel_other b e k
    rw [hinbox, hpending, hproduced] at hrequests
    rw [hone, places_keep hinbox hreceived hpending]
    have hcounts := h (!b) k hk
    exact ⟨hcounts.1, by omega⟩

end RpcMail

namespace RpcMail

variable {services : Bool → RpcServices Msg} {s : RpcMail Msg} {b : Bool} {m : Envelope}
  {e : RpcChannel Msg} {k : Nat}

/-! ### One step -/

structure Inv (proto : Protobuf Msg) (services : Bool → RpcServices Msg) (s : RpcMail Msg) :
    Prop where
  sane : Sane proto services s
  counted : s.Counted

theorem new_inv : Inv proto services (new : RpcMail Msg) where
  sane := by
    refine ⟨RpcChannel.new_inv, fun _ => RpcChannel.new_settled, ?_⟩
    intro b m hm
    cases hm
  counted := by
    intro b k hk
    exact ⟨rfl, Nat.le_refl 0⟩

theorem sentOnce_of_fresh (h : Sane proto services s) (hk : (s b).channel.calls.length ≤ k) :
    ((s b).channel.progress k).sent = false := by
  by_contra hne
  have hlt := ((h.settled b).sent k (by simpa using hne)).2
  omega

theorem Inv.allocate (h : Inv proto services s) (hlt : (s b).channel.calls.length < 2 ^ 64)
    (a : RpcCall Msg) : Inv proto services (s.setChannel b ((s b).channel.allocate a)) := by
  have hfresh := sentOnce_of_fresh h.sane (Nat.le_refl (s b).channel.calls.length)
  have hnew : callId (s b).channel.calls.length ∉ (s b).channel.received := by
    intro hmem
    have hcount := (h.counted b _ hlt).1
    have hpos := List.count_pos_iff.mpr hmem
    unfold sentOnce at hcount
    rw [hfresh, if_neg Bool.false_ne_true] at hcount
    unfold places at hcount
    omega
  refine ⟨h.sane.setChannel ((h.sane.linked b).allocate a)
    ((h.sane.settled b).allocate hlt hnew a) (fun _ hm => hm) (List.prefix_append _ _)
    (List.prefix_refl _), h.counted.keep rfl rfl rfl rfl ?_⟩
  intro k _
  by_cases hk : k = (s b).channel.calls.length
  · rw [hk, RpcChannel.allocate_progress, hfresh]
  · rw [RpcChannel.allocate_progress_of_ne hk]

theorem Inv.register (h : Inv proto services s) {a : RpcCall Msg}
    (ha : (s b).channel.calls[k]? = some a) (hreg : ((s b).channel.progress k).registered = none) :
    Inv proto services (s.setChannel b ((s b).channel.register k a)) := by
  refine ⟨h.sane.setChannel ((h.sane.linked b).register ha hreg)
    ((h.sane.settled b).register k a) (fun _ hm => hm) (List.prefix_refl _)
    (List.prefix_refl _), h.counted.keep rfl rfl rfl rfl ?_⟩
  intro j _
  by_cases hj : j = k
  · rw [hj, RpcChannel.register_progress]
  · rw [RpcChannel.register_progress_of_ne hj]

theorem Inv.send (h : Inv proto services s) {a : RpcCall Msg}
    (ha : (s b).channel.calls[k]? = some a)
    (hreg : ((s b).channel.progress k).registered ≠ none)
    (hsent : ((s b).channel.progress k).sent = false) (fate : Fate) :
    Inv proto services ((s.setChannel b ((s b).channel.markSent k)).place b
      ⟨a.message proto ((s b).channel.progress k).id, .call k⟩ fate) := by
  have hlinked := h.sane.linked b
  have hk := lt_of_getElem? ha
  have hself := s.setChannel_self b ((s b).channel.markSent k)
  have hother := s.setChannel_other b ((s b).channel.markSent k)
  have hsane : Sane proto services (s.setChannel b ((s b).channel.markSent k)) :=
    h.sane.setChannel (hlinked.markSent k) ((h.sane.settled b).markSent hreg hk)
      (fun _ hm => hm) (List.prefix_refl _) (List.prefix_refl _)
  refine ⟨hsane.place ?_ fate, ?_⟩
  · rw [hself]
    refine ⟨a, ha, ?_⟩
    rw [show ((s b).channel.progress k).id = callId k from hlinked.sound.ids k hk]
  · intro c j hj
    obtain ⟨hplaces, hrequests⟩ := h.counted c j hj
    have hanswer : isAnswer j ⟨a.message proto ((s b).channel.progress k).id, .call k⟩ = false := by
      simp [isAnswer]
    have hcall : isCall j ⟨a.message proto ((s b).channel.progress k).id, .call k⟩ = true ↔
        j = k := by
      simp [isCall, eq_comm]
    have hmark : (s.setChannel b ((s b).channel.markSent k)).sentOnce c j =
        s.sentOnce c j + if c = b ∧ j = k then 1 else 0 := by
      revert c
      refine of_both b ?_ ?_
      · intro _ _
        unfold sentOnce
        rw [hself]
        by_cases hjk : j = k
        · subst hjk
          have hmarked : ((s b).channel.markSent j).progress j =
              { (s b).channel.progress j with sent := true } :=
            Function.update_self _ _ _
          simp [hmarked, hsent]
        · have hmarked : ((s b).channel.markSent k).progress j = (s b).channel.progress j :=
            Function.update_of_ne hjk _ _
          simp [hmarked, hjk]
      · intro _ _
        unfold sentOnce
        rw [hother]
        simp
    have hsame : (s.setChannel b ((s b).channel.markSent k)).requests c j = s.requests c j := by
      revert c
      refine of_both b ?_ ?_
      · intro _ _ _
        exact s.requests_setChannel_self b _ j
      · intro _ _ _
        exact Nat.add_right_cancel (s.requests_setChannel_other b ((s b).channel.markSent k) j)
    rw [places_place, requests_place, sentOnce_place, hmark, hsame,
      places_keep (e := (s b).channel.markSent k) rfl rfl rfl]
    simp only [hcall, hanswer, Bool.false_eq_true, and_false, if_false]
    omega

theorem Inv.done (h : Inv proto services s) {i : Nat} {v : Invocation Msg} {response : Msg}
    (hv : (s b).channel.pending[i]? = some v)
    (htype : proto.typeName response = proto.typeName v.method.responsePrototype) (fate : Fate) :
    Inv proto services ((s.setChannel b ((s b).channel.produce i v response)).place b
      ⟨doneMessage proto response v.id, .service v.call⟩ fate) := by
  have hlinked := h.sane.linked b
  have hself := s.setChannel_self b ((s b).channel.produce i v response)
  have hother := s.setChannel_other b ((s b).channel.produce i v response)
  have hsane : Sane proto services (s.setChannel b ((s b).channel.produce i v response)) :=
    h.sane.setChannel (hlinked.produce hv htype) ((h.sane.settled b).frame rfl rfl rfl)
      (fun _ hm => hm) (List.prefix_refl _) (List.prefix_append _ _)
  refine ⟨hsane.place ?_ fate, ?_⟩
  · rw [hself]
    refine ⟨v, response, List.mem_append_right _ (List.mem_singleton.mpr rfl), rfl, ?_⟩
    rw [(hlinked.pending v (List.mem_of_getElem? hv)).1]
  · refine of_both b ?_ ?_
    · intro j hj
      have hplaces : (s.setChannel b ((s b).channel.produce i v response)).places b j =
          s.places b j :=
        Nat.add_right_cancel (s.places_setChannel_self b _ j)
      have hrequests := s.requests_setChannel_self b ((s b).channel.produce i v response) j
      have hcounts := h.counted b j hj
      have hone : (s.setChannel b ((s b).channel.produce i v response)).sentOnce b j =
          s.sentOnce b j := by
        unfold sentOnce
        rw [hself]
        rfl
      have hne : b ≠ !b := by simp
      rw [places_place, requests_place, sentOnce_place, hone]
      simp only [isCall, reduceCtorEq, decide_false, Bool.false_eq_true, and_false, if_false, hne,
        false_and]
      omega
    · intro j hj
      have hplaces := s.places_setChannel_other b ((s b).channel.produce i v response) j
      have hrequests := s.requests_setChannel_other b ((s b).channel.produce i v response) j
      have hcounts := h.counted (!b) j hj
      have hone : (s.setChannel b ((s b).channel.produce i v response)).sentOnce (!b) j =
          s.sentOnce (!b) j := by
        unfold sentOnce
        rw [hother]
      have hinbox : ((s b).channel.produce i v response).inbox = (s b).channel.inbox := rfl
      have hpending : ((s b).channel.produce i v response).pending =
          (s b).channel.pending.eraseIdx i := rfl
      have hproduced : ((s b).channel.produce i v response).produced =
          (s b).channel.produced ++ [(v, response)] := rfl
      have herased := countP_eraseIdx (serves j) hv
      have hanswer : isAnswer j ⟨doneMessage proto response v.id, .service v.call⟩ =
          serves j v := by
        simp [isAnswer, serves]
      rw [places_place, requests_place, sentOnce_place, hone]
      simp only [isCall, reduceCtorEq, decide_false, Bool.false_eq_true, and_false, if_false,
        hanswer, true_and]
      rw [hinbox, hpending] at hplaces
      rw [hinbox, hpending, hproduced, List.countP_append, List.countP_singleton] at hrequests
      dsimp only at hrequests
      omega

theorem Inv.flush (h : Inv proto services s) {rest : List Envelope}
    (hrest : (s b).waiting = m :: rest) (fate : Fate) :
    Inv proto services ((s.setWaiting b rest).place b m fate) := by
  obtain ⟨hsane, hm⟩ := h.sane.setWaiting hrest
  refine ⟨hsane.place ?_ fate, ?_⟩
  · have hchannel : ∀ c, (s.setWaiting b rest c).channel = (s c).channel :=
      congrFun (channels_setWaiting s b rest)
    rw [hchannel, hchannel]
    exact hm
  · intro c j hj
    have hplaces := places_setWaiting hrest c j
    have hrequests := requests_setWaiting hrest c j
    have hcounts := h.counted c j hj
    rw [places_place, requests_place, sentOnce_place, sentOnce_setWaiting]
    omega

theorem Sane.deliver (h : Sane proto services s) {inbox : List Envelope} {reply : Option Envelope}
    (hinbox : (s b).channel.inbox = m :: inbox)
    (he : { (s b).channel with inbox := inbox }.onRpcMessage proto (services b) m = .ok (e, reply))
    (hsettled : e.Settled proto (services !b)) (hrest : e.inbox = inbox) :
    Sane proto services (s.setChannel b e) := by
  obtain ⟨hlinked, hcalls, hproduced, _⟩ :=
    RpcChannel.Inv.deliver (s := s.channels) (b := b) h.linked hinbox he
  refine h.setChannel hlinked hsettled ?_ ?_ ?_
  · intro n hn
    rw [hrest] at hn
    rw [hinbox]
    exact List.mem_cons_of_mem m hn
  · rw [hcalls]
    exact List.prefix_refl _
  · rw [hproduced]
    exact List.prefix_refl _

theorem Counted.request (h : s.Counted) {inbox : List Envelope}
    (hinbox : (s b).channel.inbox = m :: inbox) (horigin : m.origin = .call k)
    {v : Invocation Msg} (hv : v.call = k) (hrest : e.inbox = inbox)
    (hreceived : e.received = (s b).channel.received)
    (hpending : e.pending = (s b).channel.pending ++ [v])
    (hproduced : e.produced = (s b).channel.produced)
    (hprogress : e.progress = (s b).channel.progress) : (s.setChannel b e).Counted := by
  refine of_both b ?_ ?_
  · intro j hj
    have hplaces := s.places_setChannel_self b e j
    have hanswer : isAnswer j m = false := by simp [isAnswer, horigin]
    rw [hinbox, hrest, hreceived, List.countP_cons, hanswer, if_neg Bool.false_ne_true] at hplaces
    rw [requests_setChannel_self, Nat.add_right_cancel hplaces, sentOnce, setChannel_self,
      hprogress]
    exact h b j hj
  · intro j hj
    have hplaces := s.places_setChannel_other b e j
    have hrequests := s.requests_setChannel_other b e j
    have hcounts := h (!b) j hj
    have hcall : isCall j m = serves j v := by simp [isCall, serves, horigin, hv]
    rw [hinbox, hrest, hpending, List.countP_cons, List.countP_append, List.countP_singleton,
      hcall] at hplaces
    rw [hinbox, hrest, hpending, hproduced, List.countP_cons, List.countP_append,
      List.countP_singleton, hcall] at hrequests
    have hone : (s.setChannel b e).sentOnce (!b) j = s.sentOnce (!b) j := by
      rw [sentOnce, setChannel_other, sentOnce]
    rw [hone]
    omega

theorem Counted.refuse (h : s.Counted) {inbox : List Envelope}
    (hinbox : (s b).channel.inbox = m :: inbox) (horigin : m.origin = .call k)
    (hrest : e.inbox = inbox) (hreceived : e.received = (s b).channel.received)
    (hpending : e.pending = (s b).channel.pending)
    (hproduced : e.produced = (s b).channel.produced)
    (hprogress : e.progress = (s b).channel.progress) {r : Envelope}
    (hreply : r.origin = .refusal k) (fate : Fate) :
    ((s.setChannel b e).place b r fate).Counted := by
  have hne : b ≠ !b := by simp
  have hcall : ∀ j, isCall j r = false := by
    intro j
    simp [isCall, hreply]
  refine of_both b ?_ ?_
  · intro j hj
    have hplaces := s.places_setChannel_self b e j
    have hanswer : isAnswer j m = false := by simp [isAnswer, horigin]
    rw [hinbox, hrest, hreceived, List.countP_cons, hanswer, if_neg Bool.false_ne_true] at hplaces
    have hone : (s.setChannel b e).sentOnce b j = s.sentOnce b j := by
      rw [sentOnce, setChannel_self, hprogress, sentOnce]
    rw [places_place, requests_place, sentOnce_place, hone, requests_setChannel_self,
      Nat.add_right_cancel hplaces, hcall]
    simp only [Bool.false_eq_true, and_false, if_false, hne, false_and, Nat.add_zero]
    exact h b j hj
  · intro j hj
    have hplaces := s.places_setChannel_other b e j
    have hrequests := s.requests_setChannel_other b e j
    have hcounts := h (!b) j hj
    have hasked : isCall j m = isAnswer j r := by simp [isCall, isAnswer, horigin, hreply]
    rw [hinbox, hrest, hpending, List.countP_cons, hasked] at hplaces
    rw [hinbox, hrest, hpending, hproduced, List.countP_cons, hasked] at hrequests
    have hone : (s.setChannel b e).sentOnce (!b) j = s.sentOnce (!b) j := by
      rw [sentOnce, setChannel_other, sentOnce]
    rw [places_place, requests_place, sentOnce_place, hone, hcall]
    simp only [Bool.false_eq_true, and_false, if_false, true_and]
    omega

theorem Counted.answer (h : s.Counted) {inbox : List Envelope} (hk : k < 2 ^ 64)
    (hinbox : (s b).channel.inbox = m :: inbox)
    (horigin : m.origin = .service k ∨ m.origin = .refusal k) (hrest : e.inbox = inbox)
    (hreceived : e.received = (s b).channel.received ++ [callId k])
    (hpending : e.pending = (s b).channel.pending)
    (hproduced : e.produced = (s b).channel.produced)
    (hsent : ∀ j, (e.progress j).sent = ((s b).channel.progress j).sent) :
    (s.setChannel b e).Counted := by
  refine of_both b ?_ ?_
  · intro j hj
    have hplaces := s.places_setChannel_self b e j
    have hanswer : isAnswer j m = true ↔ callId k = callId j := by
      have hid : callId k = callId j ↔ k = j := ⟨callId_inj hk hj, congrArg callId⟩
      rw [hid]
      rcases horigin with horigin | horigin <;> simp [isAnswer, horigin]
    have hcount : ([callId k] : List (BitVec 64)).count (callId j) =
        if isAnswer j m = true then 1 else 0 := by
      simp only [List.count_singleton, beq_iff_eq, hanswer]
    rw [hinbox, hrest, hreceived, List.countP_cons, List.count_append, hcount] at hplaces
    rw [requests_setChannel_self, sentOnce, setChannel_self, hsent]
    have hcounts := h b j hj
    unfold sentOnce at hcounts
    omega
  · intro j hj
    have hplaces := s.places_setChannel_other b e j
    have hrequests := s.requests_setChannel_other b e j
    have hcall : isCall j m = false := by
      rcases horigin with horigin | horigin <;> simp [isCall, horigin]
    rw [hinbox, hrest, hpending, List.countP_cons, hcall, if_neg Bool.false_ne_true] at hplaces
    rw [hinbox, hrest, hpending, hproduced, List.countP_cons, hcall,
      if_neg Bool.false_ne_true] at hrequests
    rw [Nat.add_right_cancel hplaces, Nat.add_right_cancel hrequests, sentOnce, setChannel_other]
    exact h (!b) j hj

theorem Inv.request (h : Inv proto services s) {inbox : List Envelope}
    (hinbox : (s b).channel.inbox = m :: inbox) {a : RpcCall Msg}
    (ha : (s !b).channel.calls[k]? = some a) (horigin : m.origin = .call k)
    (hm : m.message = a.message proto (callId k)) (fate : Fate) :
    ∃ t, step proto services s (.deliver b fate) = some (.ok t) ∧ Inv proto services t := by
  have htype : m.message.type = .REQUEST := by rw [hm]; rfl
  have hpopped : { (s b).channel with inbox := inbox }.Settled proto (services !b) :=
    (h.sane.settled b).frame rfl rfl rfl
  cases hd : dispatch proto (services b) m.message with
  | ok r =>
    obtain ⟨method, request⟩ := r
    have he : { (s b).channel with inbox := inbox }.onRpcMessage proto (services b) m =
        .ok ({ (s b).channel with
          inbox := inbox
          pending := (s b).channel.pending ++ [⟨m.message.id, k, method, request⟩] }, none) := by
      simp only [RpcChannel.onRpcMessage, htype, RpcChannel.onRequest, hd, horigin,
        Origin.subject]
    exact ⟨_, by simp only [step, hinbox, he],
      h.sane.deliver hinbox he (hpopped.frame rfl rfl rfl) rfl,
      h.counted.request hinbox horigin rfl rfl rfl rfl rfl rfl⟩
  | error error =>
    have hid : m.message.id = callId k := by rw [hm]; rfl
    have he : { (s b).channel with inbox := inbox }.onRpcMessage proto (services b) m =
        .ok ({ (s b).channel with inbox := inbox },
          some ⟨errorMessage error (callId k), .refusal k⟩) := by
      simp only [RpcChannel.onRpcMessage, htype, RpcChannel.onRequest, hd, horigin,
        Origin.subject, hid]
    have hsane := h.sane.deliver hinbox he hpopped rfl
    have hproper : Envelope.Proper proto (services b) ⟨errorMessage error (callId k), .refusal k⟩
        (s !b).channel.calls (s b).channel.calls (s b).channel.produced := by
      refine ⟨error, ⟨a, ha, ?_⟩, rfl⟩
      rw [← hm]
      exact hd
    have hcounted := h.counted.refuse (e := { (s b).channel with inbox := inbox })
      (r := ⟨errorMessage error (callId k), .refusal k⟩) hinbox horigin rfl rfl rfl rfl rfl rfl
      fate
    refine ⟨_, by simp only [step, hinbox, he], hsane.place ?_ fate, hcounted⟩
    rw [setChannel_self, setChannel_other]
    exact hproper

theorem Inv.waiting (h : Inv proto services s) (hk : k < (s b).channel.calls.length)
    (hm : m ∈ (s b).channel.inbox) (hanswer : isAnswer k m = true) : (s b).channel.Waiting k := by
  have hbound := (h.sane.settled b).bound
  have hplaces := (h.counted b k (by omega)).1
  have hone : 0 < ((s b).channel.inbox).countP (isAnswer k) :=
    List.countP_pos_iff.mpr ⟨m, hm, hanswer⟩
  unfold places toward sentOnce at hplaces
  have hinbox : ((s b).channel.inbox ++ ((s !b).waiting ++ (s !b).lost)).countP (isAnswer k) =
      (s b).channel.inbox.countP (isAnswer k) +
        ((s !b).waiting ++ (s !b).lost).countP (isAnswer k) :=
    List.countP_append
  rw [hinbox] at hplaces
  have hsent : ((s b).channel.progress k).sent = true := by
    by_contra hne
    rw [if_neg hne] at hplaces
    omega
  rw [if_pos hsent] at hplaces
  have hzero : (s b).channel.received.count (callId k) = 0 := by omega
  obtain ⟨n, hn⟩ := Option.ne_none_iff_exists'.mp ((h.sane.settled b).sent k hsent).1
  have hid : ((s b).channel.progress k).id = callId k := (h.sane.linked b).sound.ids k hk
  refine ⟨n, hn, ?_⟩
  rw [hid]
  intro hmem
  exact List.count_eq_zero.mp hzero (List.mem_of_mem_drop hmem)

theorem Inv.answer (h : Inv proto services s) {inbox : List Envelope}
    (hinbox : (s b).channel.inbox = m :: inbox) (hk : k < (s b).channel.calls.length)
    (horigin : m.origin = .service k ∨ m.origin = .refusal k)
    (htype : m.message.type = .RESPONSE) (hid : m.message.id = callId k)
    (hanswer : m.message.response.isSome ∨ m.message.error.isSome)
    (hcause : (∃ j, m.origin = .service j) ∨
      (∃ error, Refused proto (services !b) (s b).channel.calls k error) ∧
        m.message.response = none) (fate : Fate) :
    ∃ t, step proto services s (.deliver b fate) = some (.ok t) ∧ Inv proto services t := by
  have hpopped : { (s b).channel with inbox := inbox }.Settled proto (services !b) :=
    (h.sane.settled b).frame rfl rfl rfl
  have hbound := (h.sane.settled b).bound
  have hmem : m ∈ (s b).channel.inbox := by
    rw [hinbox]
    exact List.mem_cons_self
  have hw := h.waiting hk hmem (by rcases horigin with ho | ho <;> simp [isAnswer, ho])
  have ha : { (s b).channel with inbox := inbox }.calls[k]? = some (s b).channel.calls[k] :=
    List.getElem?_eq_getElem hk
  have hsound : { (s b).channel with inbox := inbox }.Sound :=
    (h.sane.linked b).sound.frame rfl rfl rfl rfl rfl
  obtain ⟨huntouched, hfound⟩ :=
    hsound.onResponse_waiting proto hbound ha hw hid hanswer
  have hsettled := hpopped.answered ha huntouched hcause
    (Function.update (s b).channel.outstandings (callId k) none)
  have he : { (s b).channel with inbox := inbox }.onRpcMessage proto (services b) m =
      .ok ({ (s b).channel with
        inbox := inbox
        outstandings := Function.update (s b).channel.outstandings (callId k) none
        received := (s b).channel.received ++ [callId k]
        progress := Function.update (s b).channel.progress k
          (settle proto ((s b).channel.progress k) (s b).channel.calls[k] m) }, none) := by
    simp only [RpcChannel.onRpcMessage, htype, hfound]
    rfl
  refine ⟨_, by simp only [step, hinbox, he], h.sane.deliver hinbox he hsettled rfl,
    h.counted.answer (by omega) hinbox horigin rfl rfl rfl rfl ?_⟩
  intro j
  by_cases hj : j = k
  · subst hj
    simp only [Function.update_self, RpcChannel.settle_sent]
  · simp only [Function.update_of_ne hj]

theorem Inv.deliver (h : Inv proto services s) {inbox : List Envelope}
    (hinbox : (s b).channel.inbox = m :: inbox) (fate : Fate) :
    ∃ t, step proto services s (.deliver b fate) = some (.ok t) ∧ Inv proto services t := by
  have hproper := h.sane.proper b m ?_
  · unfold Envelope.Proper at hproper
    split at hproper
    next k horigin =>
      obtain ⟨a, ha, hm⟩ := hproper
      exact h.request hinbox ha horigin hm fate
    next k horigin =>
      obtain ⟨v, response, hv, rfl, hm⟩ := hproper
      refine h.answer hinbox (h.sane.linked.call_lt b _ hv) (.inl horigin) ?_ ?_ ?_
        (.inl ⟨_, horigin⟩) fate
      · rw [hm]
        rfl
      · rw [hm]
        rfl
      · rw [hm]
        exact .inl rfl
    next k horigin =>
      obtain ⟨error, hrefused, hm⟩ := hproper
      have hk : k < (s b).channel.calls.length := by
        obtain ⟨a, ha, _⟩ := hrefused
        exact lt_of_getElem? ha
      refine h.answer hinbox hk (.inr horigin) ?_ ?_ ?_ (.inr ⟨⟨error, hrefused⟩, ?_⟩) fate
      · rw [hm]
        rfl
      · rw [hm]
        rfl
      · rw [hm]
        exact .inr rfl
      · rw [hm]
        rfl
    · exact hproper.elim
  · rw [toward, hinbox]
    exact List.mem_append_left _ List.mem_cons_self

/- Ids come again after 2^64 calls. -/
def Fresh (s : RpcMail Msg) : MailAct Msg → Prop
  | .allocate b _ => (s b).channel.calls.length < 2 ^ 64
  | _ => True

theorem Inv.step (h : Inv proto services s) {act : MailAct Msg} (hfresh : s.Fresh act)
    {x : Except Assertion (RpcMail Msg)} (hx : RpcMail.step proto services s act = some x) :
    ∃ t, x = .ok t ∧ Inv proto services t := by
  cases act with
  | allocate b a =>
    cases hx
    exact ⟨_, rfl, h.allocate hfresh a⟩
  | register b k =>
    simp only [RpcMail.step] at hx
    split at hx
    · cases hx
    next a ha =>
      split at hx
      next hreg =>
        cases hx
        exact ⟨_, rfl, h.register ha hreg⟩
      · cases hx
  | send b k fate =>
    simp only [RpcMail.step] at hx
    split at hx
    · cases hx
    next a ha =>
      split at hx
      next hready =>
        cases hx
        exact ⟨_, rfl, h.send ha hready.1 hready.2 fate⟩
      · cases hx
  | done b i response fate =>
    simp only [RpcMail.step] at hx
    split at hx
    · cases hx
    next v hv =>
      split at hx
      next htype =>
        cases hx
        exact ⟨_, rfl, h.done hv htype fate⟩
      · cases hx
  | flush b fate =>
    simp only [RpcMail.step] at hx
    split at hx
    · cases hx
    next m rest hrest =>
      split at hx
      · cases hx
      · cases hx
        exact ⟨_, rfl, h.flush hrest fate⟩
  | deliver b fate =>
    cases hinbox : (s b).channel.inbox with
    | nil =>
      simp only [RpcMail.step, hinbox] at hx
      cases hx
    | cons m inbox =>
      obtain ⟨t, ht, hinv⟩ := h.deliver hinbox fate
      cases ht.symm.trans hx
      exact ⟨t, rfl, hinv⟩

/-! ### Whole runs -/

/- Nothing of the call is on its way, or lost, or under way at a service. -/
def Finished (s : RpcMail Msg) (b : Bool) (k : Nat) : Prop :=
  (∀ m ∈ s.toward !b, m.origin ≠ .call k) ∧ (∀ v ∈ (s !b).channel.pending, v.call ≠ k) ∧
    ∀ m ∈ s.toward b, m.origin ≠ .service k ∧ m.origin ≠ .refusal k

theorem Inv.received (h : Inv proto services s) (hk : k < 2 ^ 64)
    (hsent : ((s b).channel.progress k).sent = true) (hfinished : s.Finished b k) :
    callId k ∈ (s b).channel.received := by
  obtain ⟨hcalls, hpending, hanswers⟩ := hfinished
  have hplaces := (h.counted b k hk).1
  have hcall : (s.toward !b).countP (isCall k) = 0 := by
    refine List.countP_eq_zero.mpr fun m hm => ?_
    simpa [isCall] using hcalls m hm
  have hserves : (s !b).channel.pending.countP (serves k) = 0 := by
    refine List.countP_eq_zero.mpr fun v hv => ?_
    simpa [serves] using hpending v hv
  have hanswer : (s.toward b).countP (isAnswer k) = 0 := by
    refine List.countP_eq_zero.mpr fun m hm => ?_
    simpa [isAnswer] using hanswers m hm
  unfold places sentOnce at hplaces
  rw [if_pos hsent, hcall, hserves, hanswer] at hplaces
  exact List.count_pos_iff.mp (by omega)

theorem Inv.ran (h : Inv proto services s) (hproto : proto.RoundTrips) {a : RpcCall Msg}
    (ha : (s b).channel.calls[k]? = some a) (htyped : Typed proto (services !b) a)
    (hruns : 0 < ((s b).channel.progress k).runs) :
    (∃ v response, (v, response) ∈ (s !b).channel.produced ∧ v.call = k ∧
      findMethod (services !b) a.service a.method = some v.method ∧ v.request = a.request ∧
      ((s b).channel.progress k).response = some response) ∨
    (∃ error, dispatch proto (services !b) (a.message proto (callId k)) = .error error) ∧
      ((s b).channel.progress k).response = a.response := by
  have hsettled := h.sane.settled b
  rcases hsettled.cause k a ha hruns with ⟨j, hj⟩ | ⟨⟨error, c, hc, hd⟩, hresponse⟩
  · exact .inl (h.sane.linked.answered hproto hsettled.bound ha htyped hj)
  · cases ha.symm.trans hc
    exact .inr ⟨⟨error, hd⟩, hresponse⟩

instance (s : RpcMail Msg) (act : MailAct Msg) : Decidable (s.Fresh act) := by
  cases act <;> unfold Fresh <;> infer_instance

instance (s : RpcMail Msg) (b : Bool) (k : Nat) : Decidable (s.Finished b k) := by
  unfold Finished
  infer_instance

/- A call that is served, with its messages waiting for the loops; one of a method that the
service does not have; and one whose request gets lost. -/
def threeFates : List (MailAct Bool) :=
  [.allocate false (RpcChannel.flip true), .register false 0, .send false 0 .waiting,
    .allocate false ⟨"Flags", "clear", true, some false, true⟩, .register false 1,
    .send false 1 .posted, .flush false .posted, .deliver true .posted, .deliver true .posted,
    .done true 0 false .waiting, .deliver false .lost,
    .allocate false (RpcChannel.flip false), .register false 2, .send false 2 .lost,
    .flush true .posted, .deliver false .lost]

end RpcMail

end TstMuduo.Net
