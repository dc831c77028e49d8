import TstMuduo.Net.RpcCalls

/-!
# Messages that wait and messages that are lost

Two channels whose messages reach the other end now, or when the loop of the connection comes to
them, or never. Each call that was sent is in one place: its request is on the way, its service
is under way, its answer is on the way, or its answer was received.
-/

namespace TstMuduo.Net
open TstMuduo.Lib
open RpcChannel (callId dispatch)

/- What becomes of a message when it is sent. -/
inductive Fate where
  | posted
  | waiting
  | lost
  deriving DecidableEq, Repr

/-- One end: its channel, its messages that wait, and those that never get away. What has been
posted to it is in the inbox of its channel. -/
structure MailEnd (Msg : Type) where
  channel : RpcChannel Msg
  waiting : List Envelope
  lost : List Envelope

abbrev RpcMail (Msg : Type) := Bool → MailEnd Msg

def RpcChannel.produce {Msg : Type} (e : RpcChannel Msg) (i : Nat) (v : Invocation Msg)
    (response : Msg) : RpcChannel Msg :=
  { e with
    pending := e.pending.eraseIdx i
    produced := e.produced ++ [(v, response)] }

namespace RpcMail

variable {Msg : Type}

def new : RpcMail Msg := fun _ => ⟨.new, [], []⟩

def channels (s : RpcMail Msg) : Bool → RpcChannel Msg := fun b => (s b).channel

def setChannel (s : RpcMail Msg) (b : Bool) (e : RpcChannel Msg) : RpcMail Msg :=
  Function.update s b { s b with channel := e }

def setWaiting (s : RpcMail Msg) (b : Bool) (waiting : List Envelope) : RpcMail Msg :=
  Function.update s b { s b with waiting := waiting }

def place (s : RpcMail Msg) (b : Bool) (m : Envelope) : Fate → RpcMail Msg
  | .posted => s.setChannel (!b) ((s !b).channel.post m)
  | .waiting => s.setWaiting b ((s b).waiting ++ [m])
  | .lost => Function.update s b { s b with lost := (s b).lost ++ [m] }

inductive MailAct (Msg : Type) where
  | allocate (side : Bool) (a : RpcCall Msg)
  | register (side : Bool) (k : Nat)
  | send (side : Bool) (k : Nat) (fate : Fate)
  | done (side : Bool) (i : Nat) (response : Msg) (fate : Fate)
  /- the loop comes to the first message that waits -/
  | flush (side : Bool) (fate : Fate)
  /- the next message is handed to `onRpcMessage`; the answer, if there is one, is sent -/
  | deliver (side : Bool) (fate : Fate)

def step (proto : Protobuf Msg) (services : Bool → RpcServices Msg) (s : RpcMail Msg) :
    MailAct Msg → Option (Except Assertion (RpcMail Msg))
  | .allocate b a => some (.ok (s.setChannel b ((s b).channel.allocate a)))
  | .register b k =>
    match (s b).channel.calls[k]? with
    | none => none
    | some a =>
      if ((s b).channel.progress k).registered = none then
        some (.ok (s.setChannel b ((s b).channel.register k a)))
      else none
  | .send b k fate =>
    match (s b).channel.calls[k]? with
    | none => none
    | some a =>
      let p := (s b).channel.progress k
      if p.registered ≠ none ∧ p.sent = false then
        some (.ok ((s.setChannel b ((s b).channel.markSent k)).place b
          ⟨a.message proto p.id, .call k⟩ fate))
      else none
  | .done b i response fate =>
    match (s b).channel.pending[i]? with
    | none => none
    | some v =>
      if proto.typeName response = proto.typeName v.method.responsePrototype then
        some (.ok ((s.setChannel b ((s b).channel.produce i v response)).place b
          ⟨doneMessage proto response v.id, .service v.call⟩ fate))
      else none
  | .flush b fate =>
    match (s b).waiting with
    | [] => none
    | m :: rest =>
      if fate = .waiting then none
      else some (.ok ((s.setWaiting b rest).place b m fate))
  | .deliver b fate =>
    match (s b).channel.inbox with
    | [] => none
    | m :: inbox =>
      match { (s b).channel with inbox := inbox }.onRpcMessage proto (services b) m with
      | .error failed => some (.error failed)
      | .ok (e, none) => some (.ok (s.setChannel b e))
      | .ok (e, some reply) => some (.ok ((s.setChannel b e).place b reply fate))

def machine (proto : Protobuf Msg) (services : Bool → RpcServices Msg) :
    Machine (RpcMail Msg) (MailAct Msg) Assertion where
  init := new
  step := step proto services

/-! ### Counting -/

def toward (s : RpcMail Msg) (b : Bool) : List Envelope :=
  (s b).channel.inbox ++ ((s !b).waiting ++ (s !b).lost)

def isCall (k : Nat) (m : Envelope) : Bool := decide (m.origin = .call k)

def isAnswer (k : Nat) (m : Envelope) : Bool :=
  decide (m.origin = .service k ∨ m.origin = .refusal k)

def serves (k : Nat) (v : Invocation Msg) : Bool := decide (v.call = k)

def places (s : RpcMail Msg) (b : Bool) (k : Nat) : Nat :=
  (s.toward !b).countP (isCall k) + (s !b).channel.pending.countP (serves k) +
    (s.toward b).countP (isAnswer k) + (s b).channel.received.count (callId k)

section

variable {s : RpcMail Msg} {b : Bool} {m : Envelope}

theorem setChannel_self (s : RpcMail Msg) (b : Bool) (e : RpcChannel Msg) :
    s.setChannel b e b = { s b with channel := e } :=
  Function.update_self _ _ _

theorem setChannel_other (s : RpcMail Msg) (b : Bool) (e : RpcChannel Msg) :
    s.setChannel b e (!b) = s !b :=
  Function.update_of_ne (by simp) _ _

theorem channels_setChannel (s : RpcMail Msg) (b : Bool) (e : RpcChannel Msg) :
    (s.setChannel b e).channels = Function.update s.channels b e := by
  funext c
  by_cases hc : c = b
  · rw [hc, channels, setChannel_self, Function.update_self]
  · rw [channels, setChannel, Function.update_of_ne hc, Function.update_of_ne hc]
    rfl

theorem channels_setWaiting (s : RpcMail Msg) (b : Bool) (waiting : List Envelope) :
    (s.setWaiting b waiting).channels = s.channels := by
  funext c
  by_cases hc : c = b
  · rw [hc, channels, setWaiting, Function.update_self]
    rfl
  · rw [channels, setWaiting, Function.update_of_ne hc]
    rfl

theorem place_channel (s : RpcMail Msg) (b : Bool) (m : Envelope) (fate : Fate) (c : Bool) :
    ∃ inbox mail, (s.place b m fate c).channel =
      { (s c).channel with inbox := inbox, mail := mail } := by
  cases fate with
  | posted =>
    by_cases hc : c = !b
    · exact ⟨_, _, by rw [hc, place, setChannel_self]; rfl⟩
    · exact ⟨_, _, by rw [place, setChannel, Function.update_of_ne hc]⟩
  | waiting =>
    refine ⟨(s c).channel.inbox, (s c).channel.mail, ?_⟩
    exact congrFun (channels_setWaiting s b ((s b).waiting ++ [m])) c
  | lost =>
    refine ⟨(s c).channel.inbox, (s c).channel.mail, ?_⟩
    by_cases hc : c = b
    · rw [hc, place, Function.update_self]
    · rw [place, Function.update_of_ne hc]

theorem countP_toward_place (p : Envelope → Bool) (s : RpcMail Msg) (b : Bool) (m : Envelope)
    (fate : Fate) (c : Bool) :
    ((s.place b m fate).toward c).countP p =
      (s.toward c).countP p + if c = (!b) ∧ p m = true then 1 else 0 := by
  cases fate <;> cases b <;> cases c <;> cases hp : p m <;>
    simp [place, toward, setChannel, setWaiting, RpcChannel.post, hp, Nat.add_assoc,
      Nat.add_comm, Nat.add_left_comm]

theorem mem_toward_place {s : RpcMail Msg} {b c : Bool} {m n : Envelope} {fate : Fate}
    (h : n ∈ (s.place b m fate).toward c) : n ∈ s.toward c ∨ (n = m ∧ c = !b) := by
  cases fate <;> cases b <;> cases c <;>
    simp only [place, toward, setChannel, setWaiting, RpcChannel.post, Function.update_apply,
      Bool.not_true, Bool.not_false, List.mem_append, List.mem_singleton, reduceIte,
      reduceCtorEq] at h ⊢ <;> tauto

theorem places_place (s : RpcMail Msg) (b : Bool) (m : Envelope) (fate : Fate) (c : Bool)
    (k : Nat) :
    (s.place b m fate).places c k = s.places c k +
      ((if c = b ∧ isCall k m = true then 1 else 0) +
        if c = (!b) ∧ isAnswer k m = true then 1 else 0) := by
  obtain ⟨_, _, hown⟩ := s.place_channel b m fate c
  obtain ⟨_, _, hpeer⟩ := s.place_channel b m fate (!c)
  have hcall : ((!c) = !b) ↔ c = b := by cases b <;> cases c <;> simp
  unfold places
  rw [countP_toward_place, countP_toward_place, hown, hpeer]
  simp only [hcall]
  omega

theorem places_setChannel_self (s : RpcMail Msg) (b : Bool) (e : RpcChannel Msg) (k : Nat) :
    (s.setChannel b e).places b k +
        ((s b).channel.inbox.countP (isAnswer k) + (s b).channel.received.count (callId k)) =
      s.places b k + (e.inbox.countP (isAnswer k) + e.received.count (callId k)) := by
  unfold places toward
  rw [Bool.not_not, setChannel_self, setChannel_other]
  simp only [List.countP_append]
  omega

theorem places_setChannel_other (s : RpcMail Msg) (b : Bool) (e : RpcChannel Msg) (k : Nat) :
    (s.setChannel b e).places (!b) k +
        ((s b).channel.inbox.countP (isCall k) + (s b).channel.pending.countP (serves k)) =
      s.places (!b) k + (e.inbox.countP (isCall k) + e.pending.countP (serves k)) := by
  unfold places toward
  rw [Bool.not_not, setChannel_self, setChannel_other]
  simp only [List.countP_append]
  omega

theorem places_setWaiting {m : Envelope} {rest : List Envelope} (h : (s b).waiting = m :: rest)
    (c : Bool) (k : Nat) :
    (s.setWaiting b rest).places c k +
        ((if c = b ∧ isCall k m = true then 1 else 0) +
          if c = (!b) ∧ isAnswer k m = true then 1 else 0) = s.places c k := by
  have hself : s.setWaiting b rest b = { s b with waiting := rest } := Function.update_self _ _ _
  have hother : s.setWaiting b rest (!b) = s !b := Function.update_of_ne (by simp) _ _
  unfold places toward
  by_cases hc : c = b
  · have hne : c ≠ !b := by
      rw [hc]
      simp
    subst hc
    rw [Bool.not_not, hself, hother]
    simp only [List.countP_append, h, List.countP_cons, true_and, hne, false_and, if_false]
    omega
  · have hcb : c = !b := by cases b <;> cases c <;> simp at hc ⊢
    subst hcb
    rw [Bool.not_not, hself, hother]
    simp only [List.countP_append, h, List.countP_cons, true_and, hc, false_and, if_false]
    omega

theorem places_keep {e : RpcChannel Msg} (hinbox : e.inbox = (s b).channel.inbox)
    (hreceived : e.received = (s b).channel.received)
    (hpending : e.pending = (s b).channel.pending) (c : Bool) (k : Nat) :
    (s.setChannel b e).places c k = s.places c k := by
  have hself := s.places_setChannel_self b e k
  have hother := s.places_setChannel_other b e k
  rw [hinbox, hreceived] at hself
  rw [hinbox, hpending] at hother
  by_cases hc : c = b
  · rw [hc]
    omega
  · have hcb : c = !b := by cases b <;> cases c <;> simp at hc ⊢
    rw [hcb]
    omega

end

end RpcMail

end TstMuduo.Net
