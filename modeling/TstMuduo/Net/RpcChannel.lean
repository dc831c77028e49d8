import Mathlib.Logic.Function.Basic
import TstMuduo.Net.Basic

/-!
# Remote calls (muduo/net/protorpc/RpcChannel.cc)

Two channels, one at each end of a connection, whose messages arrive in order. `CallMethod`
takes its three steps apart, since other threads come between them: the id, the entry
in `outstandings_`, and the message.

What the code does not keep is written down beside it: who sent a message and for which
call, which ids have come in a RESPONSE, and what the services have produced.
-/

namespace TstMuduo.Net
open TstMuduo.Lib

inductive MessageType where
  | REQUEST
  | RESPONSE
  | ERROR
  deriving DecidableEq, Repr

/- `ErrorCode` of `rpc.proto`. -/
inductive RpcErrorCode where
  | NO_ERROR
  | WRONG_PROTO
  | NO_SERVICE
  | NO_METHOD
  | INVALID_REQUEST
  | INVALID_RESPONSE
  | TIMEOUT
  deriving DecidableEq, Repr

structure RpcMessage where
  type : MessageType
  id : BitVec 64
  service : Option String
  method : Option String
  request : Option Bytes
  response : Option Bytes
  error : Option RpcErrorCode
  deriving DecidableEq, Repr

/-- What the channel uses of protobuf: the type of a message, its bytes, and what the bytes
make of an object that parses them. -/
structure Protobuf (Msg : Type) where
  typeName : Msg → String
  serializeAsString : Msg → Bytes
  parseFromString : Msg → Bytes → Bool × Msg

/- An object that parses the bytes of a message of its own type is that message then. -/
def Protobuf.RoundTrips {Msg : Type} (proto : Protobuf Msg) : Prop :=
  ∀ object m, proto.typeName object = proto.typeName m →
    proto.parseFromString object (proto.serializeAsString m) = (true, m)

structure RpcMethod (Msg : Type) where
  requestPrototype : Msg
  responsePrototype : Msg

/- `services_`: by name a service, and by name its methods. -/
abbrev RpcServices (Msg : Type) := Option (String → Option (String → Option (RpcMethod Msg)))

/-- The arguments of `CallMethod`. The response object and the closure may be null. -/
structure RpcCall (Msg : Type) where
  service : String
  method : String
  request : Msg
  response : Option Msg
  done : Bool
  deriving DecidableEq, Repr

/- `OutstandingCall`: whose response object and whose closure. -/
structure OutstandingCall where
  response : Option Nat
  done : Option Nat
  deriving DecidableEq, Repr

/- Where a message comes from; the calls are those of the end that made them. -/
inductive Origin where
  | call (k : Nat)
  | service (k : Nat)
  | refusal (k : Nat)
  | stray
  deriving DecidableEq, Repr

/- The call that a message was sent for. -/
def Origin.subject : Origin → Nat
  | .call k => k
  | .service k => k
  | .refusal k => k
  | .stray => 0

structure Envelope where
  message : RpcMessage
  origin : Origin
  deriving DecidableEq, Repr

/-- How far a call has come: its id, how many RESPONSEs had been received when it was
registered, whether it was sent, its response object, how often its closure was run and
what message made it run. -/
structure Progress (Msg : Type) where
  id : BitVec 64
  registered : Option Nat
  sent : Bool
  response : Option Msg
  runs : Nat
  cause : Option Origin

/- A service that is under way and has not run its done closure. -/
structure Invocation (Msg : Type) where
  id : BitVec 64
  call : Nat
  method : RpcMethod Msg
  request : Msg

/-- One end: the channel, its calls in the order of their ids, the messages that are on
their way to it, all that were ever sent to it, the ids of the RESPONSEs it has received,
its services that are under way, and what those that are done have produced. -/
structure RpcChannel (Msg : Type) where
  id : BitVec 64
  outstandings : BitVec 64 → Option OutstandingCall
  calls : List (RpcCall Msg)
  progress : Nat → Progress Msg
  inbox : List Envelope
  mail : List Envelope
  received : List (BitVec 64)
  pending : List (Invocation Msg)
  produced : List (Invocation Msg × Msg)

variable {Msg : Type}

/- The entry of `outstandings_` for the `k`th call. -/
def RpcCall.out (a : RpcCall Msg) (k : Nat) : OutstandingCall where
  response := a.response.map fun _ => k
  done := if a.done then some k else none

/- The message of `CallMethod` (`RpcChannel.cc:45`). -/
def RpcCall.message (proto : Protobuf Msg) (a : RpcCall Msg) (id : BitVec 64) : RpcMessage where
  type := .REQUEST
  id := id
  service := some a.service
  method := some a.method
  request := some (proto.serializeAsString a.request)
  response := none
  error := none

/- The message of `doneCallback` (`RpcChannel.cc:159`). -/
def doneMessage (proto : Protobuf Msg) (response : Msg) (id : BitVec 64) : RpcMessage where
  type := .RESPONSE
  id := id
  service := none
  method := none
  request := none
  response := some (proto.serializeAsString response)
  error := none

/- The message of `onRpcMessage` for a request that reaches no service (`RpcChannel.cc:145`). -/
def errorMessage (error : RpcErrorCode) (id : BitVec 64) : RpcMessage where
  type := .RESPONSE
  id := id
  service := none
  method := none
  request := none
  response := none
  error := some error

namespace RpcChannel

def new : RpcChannel Msg where
  id := 0
  outstandings := fun _ => none
  calls := []
  progress := fun _ => ⟨0, none, false, none, 0, none⟩
  inbox := []
  mail := []
  received := []
  pending := []
  produced := []

def allocate (e : RpcChannel Msg) (a : RpcCall Msg) : RpcChannel Msg :=
  { e with
    id := e.id + 1
    calls := e.calls ++ [a]
    progress := Function.update e.progress e.calls.length
      ⟨e.id + 1, none, false, a.response, 0, none⟩ }

/- `outstandings_[id] = out` of `CallMethod`. -/
def register (e : RpcChannel Msg) (k : Nat) (a : RpcCall Msg) : RpcChannel Msg :=
  { e with
    outstandings := Function.update e.outstandings (e.progress k).id (some (a.out k))
    progress := Function.update e.progress k
      { e.progress k with registered := some e.received.length } }

theorem allocate_progress (e : RpcChannel Msg) (a : RpcCall Msg) :
    (e.allocate a).progress e.calls.length = ⟨e.id + 1, none, false, a.response, 0, none⟩ :=
  Function.update_self _ _ _

theorem allocate_progress_of_ne {e : RpcChannel Msg} {k : Nat} (hk : k ≠ e.calls.length)
    (a : RpcCall Msg) : (e.allocate a).progress k = e.progress k :=
  Function.update_of_ne hk _ _

theorem register_progress (e : RpcChannel Msg) (k : Nat) (a : RpcCall Msg) :
    (e.register k a).progress k = { e.progress k with registered := some e.received.length } :=
  Function.update_self _ _ _

theorem register_progress_of_ne {j k : Nat} (hj : j ≠ k) (e : RpcChannel Msg) (a : RpcCall Msg) :
    (e.register k a).progress j = e.progress j :=
  Function.update_of_ne hj _ _

def post (e : RpcChannel Msg) (m : Envelope) : RpcChannel Msg :=
  { e with inbox := e.inbox ++ [m], mail := e.mail ++ [m] }

def markSent (e : RpcChannel Msg) (k : Nat) : RpcChannel Msg :=
  { e with progress := Function.update e.progress k { e.progress k with sent := true } }

/- `out.response->ParseFromString(message.response())`. -/
def parse (proto : Protobuf Msg) (progress : Nat → Progress Msg) (k : Nat) (bytes : Bytes) :
    Nat → Progress Msg :=
  Function.update progress k
    { progress k with
      response := (progress k).response.map fun object => (proto.parseFromString object bytes).2 }

/- `out.done->Run()`. -/
def run (progress : Nat → Progress Msg) (k : Nat) (origin : Origin) : Nat → Progress Msg :=
  Function.update progress k
    { progress k with runs := (progress k).runs + 1, cause := some origin }

/- What `onRpcMessage` does with the entry it has taken out (`RpcChannel.cc:91`). -/
def finish (proto : Protobuf Msg) (progress : Nat → Progress Msg) (out : OutstandingCall)
    (m : Envelope) : Nat → Progress Msg :=
  match out.response with
  | none => progress
  | some k =>
    let parsed :=
      match m.message.response with
      | some bytes => parse proto progress k bytes
      | none => progress
    match out.done with
    | some j => run parsed j m.origin
    | none => parsed

/- The branch of `onRpcMessage` for a RESPONSE (`RpcChannel.cc:75`). -/
def onResponse (proto : Protobuf Msg) (e : RpcChannel Msg) (m : Envelope) :
    Except Assertion (RpcChannel Msg) := do
  check (m.message.response.isSome ∨ m.message.error.isSome) .rpcEmptyResponse
  let out := (e.outstandings m.message.id).getD ⟨none, none⟩
  return { e with
    outstandings := Function.update e.outstandings m.message.id none
    received := e.received ++ [m.message.id]
    progress := finish proto e.progress out m }

/- Which method a REQUEST calls with what, or the error it is answered with
(`RpcChannel.cc:104`). -/
def dispatch (proto : Protobuf Msg) (services : RpcServices Msg) (message : RpcMessage) :
    Except RpcErrorCode (RpcMethod Msg × Msg) :=
  match services with
  | none => .error .NO_SERVICE
  | some table =>
    match table (message.service.getD "") with
    | none => .error .NO_SERVICE
    | some findMethodByName =>
      match findMethodByName (message.method.getD "") with
      | none => .error .NO_METHOD
      | some method =>
        let (parsed, request) :=
          proto.parseFromString method.requestPrototype (message.request.getD [])
        if parsed then .ok (method, request) else .error .INVALID_REQUEST

/- The branch of `onRpcMessage` for a REQUEST: the service is under way, or an answer goes
back. -/
def onRequest (proto : Protobuf Msg) (services : RpcServices Msg) (e : RpcChannel Msg)
    (m : Envelope) : RpcChannel Msg × Option Envelope :=
  match dispatch proto services m.message with
  | .ok (method, request) =>
    ({ e with
        pending := e.pending ++ [⟨m.message.id, m.origin.subject, method, request⟩] }, none)
  | .error error =>
    (e, some ⟨errorMessage error m.message.id, .refusal (m.origin.subject)⟩)

/- `onRpcMessage` (`RpcChannel.cc:67`), with the message that it sends. -/
def onRpcMessage (proto : Protobuf Msg) (services : RpcServices Msg) (e : RpcChannel Msg)
    (m : Envelope) : Except Assertion (RpcChannel Msg × Option Envelope) :=
  match m.message.type with
  | .RESPONSE => do return (← e.onResponse proto m, none)
  | .REQUEST => .ok (e.onRequest proto services m)
  | .ERROR => .ok (e, none)

/-! ### Steps -/

inductive RpcAct (Msg : Type) where
  /- the three steps of `CallMethod` -/
  | allocate (side : Bool) (a : RpcCall Msg)
  | register (side : Bool) (k : Nat)
  | send (side : Bool) (k : Nat)
  /- the next message is handed to `onRpcMessage` -/
  | deliver (side : Bool)
  /- a service runs its done closure -/
  | done (side : Bool) (i : Nat) (response : Msg)
  /- RESPONSE messages that no channel sent, or sent once -/
  | stray (side : Bool) (message : RpcMessage)
  | duplicate (side : Bool) (i : Nat)

def step (proto : Protobuf Msg) (services : Bool → RpcServices Msg) (s : Bool → RpcChannel Msg) :
    RpcAct Msg → Option (Except Assertion (Bool → RpcChannel Msg))
  | .allocate b a => some (.ok (Function.update s b ((s b).allocate a)))
  | .register b k =>
    match (s b).calls[k]? with
    | none => none
    | some a =>
      if ((s b).progress k).registered = none then
        some (.ok (Function.update s b ((s b).register k a)))
      else none
  | .send b k =>
    match (s b).calls[k]? with
    | none => none
    | some a =>
      if ((s b).progress k).registered ≠ none ∧ ((s b).progress k).sent = false then
        let m : Envelope := ⟨a.message proto ((s b).progress k).id, .call k⟩
        some (.ok (Function.update (Function.update s b ((s b).markSent k)) (!b) ((s !b).post m)))
      else none
  | .deliver b =>
    match (s b).inbox with
    | [] => none
    | m :: inbox =>
      match { s b with inbox := inbox }.onRpcMessage proto (services b) m with
      | .error failed => some (.error failed)
      | .ok (e, none) => some (.ok (Function.update s b e))
      | .ok (e, some reply) =>
        some (.ok (Function.update (Function.update s b e) (!b) ((s !b).post reply)))
  | .done b i response =>
    match (s b).pending[i]? with
    | none => none
    | some v =>
      if proto.typeName response = proto.typeName v.method.responsePrototype then
        let e := { s b with
          pending := (s b).pending.eraseIdx i
          produced := (s b).produced ++ [(v, response)] }
        let m : Envelope := ⟨doneMessage proto response v.id, .service v.call⟩
        some (.ok (Function.update (Function.update s b e) (!b) ((s !b).post m)))
      else none
  | .stray b message =>
    if message.type = .RESPONSE then
      some (.ok (Function.update s b ((s b).post ⟨message, .stray⟩)))
    else none
  | .duplicate b i =>
    match (s b).mail[i]? with
    | none => none
    | some m =>
      if m.message.type = .RESPONSE then some (.ok (Function.update s b ((s b).post m)))
      else none

def machine (proto : Protobuf Msg) (services : Bool → RpcServices Msg) :
    Machine (Bool → RpcChannel Msg) (RpcAct Msg) Assertion where
  init := fun _ => new
  step := step proto services

/-! ### One end -/

def callId (k : Nat) : BitVec 64 := .ofNat 64 (k + 1)

theorem callId_inj {j k : Nat} (hj : j < 2 ^ 64) (hk : k < 2 ^ 64) (h : callId j = callId k) :
    j = k := by
  have hnat : (j + 1) % 2 ^ 64 = (k + 1) % 2 ^ 64 := by
    have htoNat := congrArg BitVec.toNat h
    unfold callId at htoNat
    rw [BitVec.toNat_ofNat, BitVec.toNat_ofNat] at htoNat
    exact htoNat
  omega

/- The call is registered, and no RESPONSE with its id was received since. -/
def Waiting (e : RpcChannel Msg) (k : Nat) : Prop :=
  ∃ n, (e.progress k).registered = some n ∧ (e.progress k).id ∉ e.received.drop n

/- The response object is as the caller gave it, and the closure was not run. -/
structure Untouched (p : Progress Msg) (a : RpcCall Msg) : Prop where
  response : p.response = a.response
  runs : p.runs = 0
  cause : p.cause = none

/-- Every entry of `outstandings_` belongs to a call that waits, and no closure is run
twice. Up to the wrap of the counter every call that waits has its entry. -/
structure Sound (e : RpcChannel Msg) : Prop where
  counter : e.id = .ofNat 64 e.calls.length
  ids : ∀ k < e.calls.length, (e.progress k).id = callId k
  entry : ∀ id out, e.outstandings id = some out → ∃ k a, e.calls[k]? = some a ∧ e.Waiting k ∧
    (e.progress k).id = id ∧ out = a.out k ∧ Untouched (e.progress k) a
  fresh : ∀ k a, e.calls[k]? = some a → (e.progress k).registered = none →
    Untouched (e.progress k) a
  once : ∀ k, (e.progress k).runs ≤ 1
  marks : ∀ k n, (e.progress k).registered = some n → n ≤ e.received.length
  complete : e.calls.length ≤ 2 ^ 64 → ∀ k a, e.calls[k]? = some a → e.Waiting k →
    e.outstandings (e.progress k).id = some (a.out k)

variable {e : RpcChannel Msg} {a : RpcCall Msg} {k : Nat} {m : Envelope} {proto : Protobuf Msg}

theorem lt_of_getElem? {α : Type} {l : List α} {k : Nat} {x : α} (h : l[k]? = some x) :
    k < l.length :=
  (List.getElem?_eq_some_iff.mp h).1

theorem new_sound : (new : RpcChannel Msg).Sound where
  counter := rfl
  ids k hk := absurd hk (Nat.not_lt_zero k)
  entry id out h := by cases h
  fresh k a h := by cases h
  once k := Nat.zero_le 1
  marks k n h := by cases h
  complete _ k a h := by cases h

theorem Sound.ids_inj (h : e.Sound) (hlen : e.calls.length ≤ 2 ^ 64) {j k : Nat}
    (hj : j < e.calls.length) (hk : k < e.calls.length)
    (hid : (e.progress j).id = (e.progress k).id) : j = k := by
  rw [h.ids j hj, h.ids k hk] at hid
  exact callId_inj (by omega) (by omega) hid

theorem Sound.frame (h : e.Sound) {e' : RpcChannel Msg} (hid : e'.id = e.id)
    (hout : e'.outstandings = e.outstandings) (hcalls : e'.calls = e.calls)
    (hprogress : e'.progress = e.progress) (hreceived : e'.received = e.received) :
    e'.Sound := by
  cases e
  cases e'
  cases hid
  cases hout
  cases hcalls
  cases hprogress
  cases hreceived
  exact ⟨h.counter, h.ids, h.entry, h.fresh, h.once, h.marks, h.complete⟩

theorem Sound.allocate (h : e.Sound) (a : RpcCall Msg) : (e.allocate a).Sound := by
  have hnew := e.allocate_progress a
  have hid : e.id + 1 = callId e.calls.length := by
    rw [h.counter]
    unfold callId
    rw [BitVec.ofNat_add]
    rfl
  have hlen : (e.allocate a).calls.length = e.calls.length + 1 := List.length_append
  -- a call of the new list is an old one, or the new one
  have hcalls : ∀ k c, (e.allocate a).calls[k]? = some c →
      (k ≠ e.calls.length ∧ e.calls[k]? = some c) ∨ (k = e.calls.length ∧ c = a) := by
    intro k c hk
    have hk' : (e.calls ++ [a])[k]? = some c := hk
    rw [List.getElem?_append] at hk'
    split at hk'
    next hlt => exact .inl ⟨by omega, hk'⟩
    next hge =>
      have hlast := lt_of_getElem? hk
      rw [hlen] at hlast
      have hz : k - e.calls.length = 0 := by omega
      rw [hz] at hk'
      cases hk'
      exact .inr ⟨by omega, rfl⟩
  have hwait : ∀ k, k ≠ e.calls.length → ((e.allocate a).Waiting k ↔ e.Waiting k) := by
    intro k hk
    unfold Waiting
    rw [allocate_progress_of_ne hk]
    rfl
  constructor
  · rw [hlen]
    exact hid
  · intro k hk
    rw [hlen] at hk
    by_cases hkl : k = e.calls.length
    · rw [hkl, hnew]
      exact hid
    · rw [allocate_progress_of_ne hkl]
      exact h.ids k (by omega)
  · intro id out hout
    obtain ⟨k, c, hk, hw, hrest⟩ := h.entry id out hout
    have hne : k ≠ e.calls.length := Nat.ne_of_lt (lt_of_getElem? hk)
    refine ⟨k, c, ?_, (hwait k hne).mpr hw, ?_⟩
    · exact (List.getElem?_append_left (lt_of_getElem? hk)).trans hk
    · rw [allocate_progress_of_ne hne]
      exact hrest
  · intro k c hk hreg
    rcases hcalls k c hk with ⟨hne, hk⟩ | ⟨rfl, rfl⟩
    · rw [allocate_progress_of_ne hne] at hreg ⊢
      exact h.fresh k c hk hreg
    · rw [hnew]
      exact ⟨rfl, rfl, rfl⟩
  · intro k
    by_cases hkl : k = e.calls.length
    · rw [hkl, hnew]
      exact Nat.zero_le 1
    · rw [allocate_progress_of_ne hkl]
      exact h.once k
  · intro k n hreg
    by_cases hkl : k = e.calls.length
    · rw [hkl, hnew] at hreg
      cases hreg
    · rw [allocate_progress_of_ne hkl] at hreg
      exact h.marks k n hreg
  · intro hbound k c hk hw
    rw [hlen] at hbound
    rcases hcalls k c hk with ⟨hne, hk⟩ | ⟨rfl, rfl⟩
    · rw [allocate_progress_of_ne hne]
      exact h.complete (by omega) k c hk ((hwait k hne).mp hw)
    · obtain ⟨n, hn, _⟩ := hw
      rw [hnew] at hn
      cases hn

theorem Sound.register (h : e.Sound) (ha : e.calls[k]? = some a)
    (hreg : (e.progress k).registered = none) : (e.register k a).Sound := by
  have hnew := e.register_progress k a
  have hid : ∀ j, ((e.register k a).progress j).id = (e.progress j).id := by
    intro j
    by_cases hj : j = k
    · rw [hj, hnew]
    · rw [register_progress_of_ne hj]
  have hwait : ∀ j, j ≠ k → ((e.register k a).Waiting j ↔ e.Waiting j) := by
    intro j hj
    unfold Waiting
    rw [register_progress_of_ne hj]
    rfl
  have huntouched := h.fresh k a ha hreg
  constructor
  · exact h.counter
  · intro j hj
    rw [hid]
    exact h.ids j hj
  · intro id out hout
    by_cases hk : id = (e.progress k).id
    · rw [hk] at hout ⊢
      have hout' := (Function.update_self _ _ _).symm.trans hout
      cases hout'
      refine ⟨k, a, ha, ⟨e.received.length, by rw [hnew], ?_⟩, hid k, rfl, ?_⟩
      · rw [show (e.register k a).received = e.received from rfl, List.drop_length]
        exact List.not_mem_nil
      · rw [hnew]
        exact ⟨huntouched.response, huntouched.runs, huntouched.cause⟩
    · have hout' := (Function.update_of_ne hk _ _).symm.trans hout
      obtain ⟨j, c, hj, hw, hjid, hrest⟩ := h.entry id out hout'
      have hne : j ≠ k := by
        intro hjk
        exact hk (by rw [← hjid, hjk])
      refine ⟨j, c, hj, (hwait j hne).mpr hw, ?_⟩
      rw [register_progress_of_ne hne]
      exact ⟨hjid, hrest⟩
  · intro j c hj hjreg
    by_cases hjk : j = k
    · rw [hjk, hnew] at hjreg
      cases hjreg
    · rw [register_progress_of_ne hjk] at hjreg ⊢
      exact h.fresh j c hj hjreg
  · intro j
    by_cases hjk : j = k
    · rw [hjk, hnew]
      exact h.once k
    · rw [register_progress_of_ne hjk]
      exact h.once j
  · intro j n hjreg
    by_cases hjk : j = k
    · rw [hjk, hnew] at hjreg
      cases hjreg
      exact Nat.le_refl _
    · rw [register_progress_of_ne hjk] at hjreg
      exact h.marks j n hjreg
  · intro hbound j c hj hw
    rw [hid]
    by_cases hjk : j = k
    · subst hjk
      cases ha.symm.trans hj
      exact Function.update_self _ _ _
    · have hne : (e.progress j).id ≠ (e.progress k).id := by
        intro heq
        exact hjk (h.ids_inj hbound (lt_of_getElem? hj) (lt_of_getElem? ha) heq)
      refine (Function.update_of_ne hne _ _).trans ?_
      exact h.complete hbound j c hj ((hwait j hjk).mp hw)

/- What a RESPONSE makes of the call that was waiting for it. -/
def settle (proto : Protobuf Msg) (p : Progress Msg) (a : RpcCall Msg) (m : Envelope) :
    Progress Msg :=
  match a.response with
  | none => p
  | some _ =>
    { p with
      response :=
        match m.message.response with
        | some bytes => p.response.map fun object => (proto.parseFromString object bytes).2
        | none => p.response
      runs := if a.done then p.runs + 1 else p.runs
      cause := if a.done then some m.origin else p.cause }

theorem finish_out (proto : Protobuf Msg) (progress : Nat → Progress Msg) (a : RpcCall Msg)
    (k : Nat) (m : Envelope) :
    finish proto progress (a.out k) m =
      Function.update progress k (settle proto (progress k) a m) := by
  unfold finish settle RpcCall.out
  cases a.response with
  | none => exact (Function.update_eq_self k progress).symm
  | some object =>
    cases a.done with
    | true =>
      cases m.message.response with
      | none => rfl
      | some bytes =>
        show run (parse proto progress k bytes) k m.origin = _
        unfold run parse
        rw [Function.update_self, Function.update_idem]
        rfl
    | false =>
      cases m.message.response with
      | none => exact (Function.update_eq_self k progress).symm
      | some bytes => rfl

theorem settle_id (proto : Protobuf Msg) (p : Progress Msg) (a : RpcCall Msg) (m : Envelope) :
    (settle proto p a m).id = p.id := by
  unfold settle
  split <;> rfl

theorem settle_registered (proto : Protobuf Msg) (p : Progress Msg) (a : RpcCall Msg)
    (m : Envelope) : (settle proto p a m).registered = p.registered := by
  unfold settle
  split <;> rfl

theorem settle_runs (proto : Protobuf Msg) (p : Progress Msg) (a : RpcCall Msg) (m : Envelope) :
    (settle proto p a m).runs ≤ p.runs + 1 := by
  unfold settle
  split
  · exact Nat.le_succ _
  · show (if a.done then p.runs + 1 else p.runs) ≤ p.runs + 1
    split <;> omega

theorem Sound.receive (h : e.Sound) (id : BitVec 64) {progress : Nat → Progress Msg}
    (hid : ∀ j, (progress j).id = (e.progress j).id)
    (hreg : ∀ j, (progress j).registered = (e.progress j).registered)
    (hkeep : ∀ j, (e.progress j).id ≠ id ∨ (e.progress j).registered = none →
      progress j = e.progress j)
    (honce : ∀ j, (progress j).runs ≤ 1) :
    ({ e with
      outstandings := Function.update e.outstandings id none
      received := e.received ++ [id]
      progress := progress } : RpcChannel Msg).Sound := by
  have hdrop : ∀ j n, (e.progress j).registered = some n →
      (e.received ++ [id]).drop n = e.received.drop n ++ [id] := by
    intro j n hn
    exact List.drop_append_of_le_length (h.marks j n hn)
  constructor
  · exact h.counter
  · intro j hj
    exact (hid j).trans (h.ids j hj)
  · intro i out hout
    have hne : i ≠ id := by
      intro hi
      rw [hi] at hout
      cases (Function.update_self id none e.outstandings).symm.trans hout
    have hout' := (Function.update_of_ne hne none e.outstandings).symm.trans hout
    obtain ⟨j, c, hj, ⟨n, hn, hmem⟩, hji, hrest⟩ := h.entry i out hout'
    have hsame := hkeep j (.inl (by rw [hji]; exact hne))
    refine ⟨j, c, hj, ⟨n, (hreg j).trans hn, ?_⟩, (hid j).trans hji, ?_⟩
    · show (progress j).id ∉ (e.received ++ [id]).drop n
      rw [hid j, hdrop j n hn, List.mem_append, List.mem_singleton, hji]
      rw [hji] at hmem
      exact not_or.mpr ⟨hmem, hne⟩
    · show out = c.out j ∧ Untouched (progress j) c
      rw [hsame]
      exact hrest
  · intro j c hj hjreg
    have hnone := (hreg j).symm.trans hjreg
    show Untouched (progress j) c
    rw [hkeep j (.inr hnone)]
    exact h.fresh j c hj hnone
  · exact honce
  · intro j n hn
    have hle := h.marks j n ((hreg j).symm.trans hn)
    show n ≤ (e.received ++ [id]).length
    rw [List.length_append]
    omega
  · intro hbound j c hj hw
    obtain ⟨n, hn, hmem⟩ := hw
    have hn' := (hreg j).symm.trans hn
    have hmem' : (progress j).id ∉ (e.received ++ [id]).drop n := hmem
    rw [hid j, hdrop j n hn', List.mem_append, List.mem_singleton] at hmem'
    obtain ⟨hold, hne⟩ := not_or.mp hmem'
    show Function.update e.outstandings id none (progress j).id = some (c.out j)
    rw [hid j, Function.update_of_ne hne]
    exact h.complete hbound j c hj ⟨n, hn', hold⟩

theorem Sound.onResponse_cases (h : e.Sound) {e' : RpcChannel Msg}
    (he : e.onResponse proto m = .ok e') :
    ∃ progress, e' = { e with
        outstandings := Function.update e.outstandings m.message.id none
        received := e.received ++ [m.message.id]
        progress := progress } ∧
      (progress = e.progress ∨ ∃ k a, e.calls[k]? = some a ∧ e.Waiting k ∧
        (e.progress k).id = m.message.id ∧ Untouched (e.progress k) a ∧
        progress = Function.update e.progress k (settle proto (e.progress k) a m)) := by
  obtain ⟨_, _, he⟩ := bind_eq_ok he
  cases he
  refine ⟨_, rfl, ?_⟩
  cases hout : e.outstandings m.message.id with
  | none => exact .inl rfl
  | some out =>
    obtain ⟨k, a, ha, hw, hid, rfl, huntouched⟩ := h.entry _ out hout
    exact .inr ⟨k, a, ha, hw, hid, huntouched, finish_out proto e.progress a k m⟩

theorem Sound.onResponse (h : e.Sound) {e' : RpcChannel Msg}
    (he : e.onResponse proto m = .ok e') : e'.Sound := by
  obtain ⟨progress, rfl, hprogress⟩ := h.onResponse_cases he
  rcases hprogress with rfl | ⟨k, a, ha, hw, hid, huntouched, rfl⟩
  · exact h.receive _ (fun _ => rfl) (fun _ => rfl) (fun _ _ => rfl) h.once
  · have hold : ∀ j, j ≠ k → Function.update e.progress k (settle proto (e.progress k) a m) j =
        e.progress j := by
      intro j hj
      exact Function.update_of_ne hj _ _
    have hnew : Function.update e.progress k (settle proto (e.progress k) a m) k =
        settle proto (e.progress k) a m :=
      Function.update_self _ _ _
    refine h.receive _ ?_ ?_ ?_ ?_
    · intro j
      by_cases hj : j = k
      · rw [hj, hnew, settle_id]
      · rw [hold j hj]
    · intro j
      by_cases hj : j = k
      · rw [hj, hnew, settle_registered]
      · rw [hold j hj]
    · intro j hne
      refine hold j ?_
      rintro rfl
      obtain ⟨n, hn, _⟩ := hw
      rcases hne with hne | hnone
      · exact hne hid
      · cases hn.symm.trans hnone
    · intro j
      by_cases hj : j = k
      · have hruns := settle_runs proto (e.progress k) a m
        rw [huntouched.runs] at hruns
        rw [hj, hnew]
        exact hruns
      · rw [hold j hj]
        exact h.once j

theorem markSent_progress (e : RpcChannel Msg) (k j : Nat) :
    ∃ sent, (e.markSent k).progress j = { e.progress j with sent := sent } := by
  by_cases hj : j = k
  · subst hj
    exact ⟨true, Function.update_self _ _ _⟩
  · exact ⟨(e.progress j).sent, Function.update_of_ne hj _ _⟩

theorem Sound.markSent (h : e.Sound) (k : Nat) : (e.markSent k).Sound := by
  have hwait : ∀ j, (e.markSent k).Waiting j ↔ e.Waiting j := by
    intro j
    obtain ⟨sent, hj⟩ := markSent_progress e k j
    unfold Waiting
    rw [hj]
    rfl
  constructor
  · exact h.counter
  · intro j hj
    obtain ⟨sent, hjp⟩ := markSent_progress e k j
    rw [hjp]
    exact h.ids j hj
  · intro id out hout
    obtain ⟨j, c, hj, hw, hid, hrest, hu⟩ := h.entry id out hout
    obtain ⟨sent, hjp⟩ := markSent_progress e k j
    refine ⟨j, c, hj, (hwait j).mpr hw, ?_⟩
    rw [hjp]
    exact ⟨hid, hrest, hu.response, hu.runs, hu.cause⟩
  · intro j c hj hreg
    obtain ⟨sent, hjp⟩ := markSent_progress e k j
    rw [hjp] at hreg ⊢
    have hu := h.fresh j c hj hreg
    exact ⟨hu.response, hu.runs, hu.cause⟩
  · intro j
    obtain ⟨sent, hjp⟩ := markSent_progress e k j
    rw [hjp]
    exact h.once j
  · intro j n hreg
    obtain ⟨sent, hjp⟩ := markSent_progress e k j
    rw [hjp] at hreg
    exact h.marks j n hreg
  · intro hbound j c hj hw
    obtain ⟨sent, hjp⟩ := markSent_progress e k j
    rw [hjp]
    exact h.complete hbound j c hj ((hwait j).mp hw)

end RpcChannel

end TstMuduo.Net
