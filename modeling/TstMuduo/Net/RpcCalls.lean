import TstMuduo.Net.RpcChannel

/-!
# Calls and their responses

What is on its way between the two ends, and what the services have under way, always
belongs to a call that was made: so a response that a service sent finds, by its id, the
call it was made for.
-/

namespace TstMuduo.Net
open TstMuduo.Lib
open RpcChannel (callId dispatch)

variable {Msg : Type} {proto : Protobuf Msg} {services : RpcServices Msg} {m : Envelope}

/-- The invocation is for a call of the other end: it has its id, and its request and
method are what that call's message dispatches to. -/
def Invocation.Valid (proto : Protobuf Msg) (services : RpcServices Msg) (v : Invocation Msg)
    (calls : List (RpcCall Msg)) : Prop :=
  v.id = callId v.call ∧ ∃ a, calls[v.call]? = some a ∧
    dispatch proto services (a.message proto (callId v.call)) = .ok (v.method, v.request)

/- The message is what its origin says, for the other end's calls and products. -/
def Envelope.Genuine (proto : Protobuf Msg) (m : Envelope) (calls : List (RpcCall Msg))
    (produced : List (Invocation Msg × Msg)) : Prop :=
  match m.origin with
  | .call k => ∃ a, calls[k]? = some a ∧ m.message = a.message proto (callId k)
  | .service k => ∃ v response, (v, response) ∈ produced ∧ v.call = k ∧
      m.message = doneMessage proto response (callId k)
  | .refusal _ => m.message.type = .RESPONSE
  | .stray => m.message.type = .RESPONSE

theorem getElem?_mono {α : Type} {l l' : List α} {k : Nat} {x : α} (hl : l <+: l')
    (h : l[k]? = some x) : l'[k]? = some x := by
  obtain ⟨hlt, rfl⟩ := List.getElem?_eq_some_iff.mp h
  exact List.prefix_iff_getElem?.mp hl k hlt

theorem Invocation.Valid.mono {v : Invocation Msg} {calls calls' : List (RpcCall Msg)}
    (hcalls : calls <+: calls') (h : v.Valid proto services calls) :
    v.Valid proto services calls' := by
  obtain ⟨hid, a, ha, hd⟩ := h
  exact ⟨hid, a, getElem?_mono hcalls ha, hd⟩

theorem Envelope.Genuine.mono {calls calls' : List (RpcCall Msg)}
    {produced produced' : List (Invocation Msg × Msg)} (hcalls : calls <+: calls')
    (hproduced : produced <+: produced') (h : m.Genuine proto calls produced) :
    m.Genuine proto calls' produced' := by
  unfold Envelope.Genuine at h ⊢
  split at h
  · obtain ⟨a, ha, hm⟩ := h
    exact ⟨a, getElem?_mono hcalls ha, hm⟩
  · obtain ⟨v, response, hv, hk, hm⟩ := h
    exact ⟨v, response, hproduced.subset hv, hk, hm⟩
  · exact h
  · exact h

namespace RpcChannel

def Answered (proto : Protobuf Msg) (e : RpcChannel Msg) (k : Nat)
    (produced : List (Invocation Msg × Msg)) : Prop :=
  ∃ a object v response, e.calls[k]? = some a ∧ a.response = some object ∧
    (v, response) ∈ produced ∧ v.call = k ∧
    (e.progress k).response =
      some (proto.parseFromString object (proto.serializeAsString response)).2

/-- What holds of one end and of what it has from the other. -/
structure Linked (proto : Protobuf Msg) (services : RpcServices Msg) (e peer : RpcChannel Msg) :
    Prop where
  sound : e.Sound
  inbox : ∀ m ∈ e.inbox, m ∈ e.mail
  mail : ∀ m ∈ e.mail, m.Genuine proto peer.calls peer.produced
  pending : ∀ v ∈ e.pending, v.Valid proto services peer.calls
  produced : ∀ r ∈ e.produced, r.1.Valid proto services peer.calls ∧
    proto.typeName r.2 = proto.typeName r.1.method.responsePrototype
  causes : e.calls.length ≤ 2 ^ 64 → ∀ k j, (e.progress k).cause = some (.service j) →
    e.Answered proto k peer.produced

variable {e peer peer' : RpcChannel Msg} {a : RpcCall Msg} {k : Nat}

theorem Answered.mono {k : Nat} {produced produced' : List (Invocation Msg × Msg)}
    (hproduced : produced <+: produced') (h : e.Answered proto k produced) :
    e.Answered proto k produced' := by
  obtain ⟨a, object, v, response, ha, ho, hv, hk, hr⟩ := h
  exact ⟨a, object, v, response, ha, ho, hproduced.subset hv, hk, hr⟩

theorem Linked.mono (h : Linked proto services e peer) (hcalls : peer.calls <+: peer'.calls)
    (hproduced : peer.produced <+: peer'.produced) : Linked proto services e peer' where
  sound := h.sound
  inbox := h.inbox
  mail m hm := (h.mail m hm).mono hcalls hproduced
  pending v hv := (h.pending v hv).mono hcalls
  produced r hr := ⟨(h.produced r hr).1.mono hcalls, (h.produced r hr).2⟩
  causes hbound k j hk := (h.causes hbound k j hk).mono hproduced

theorem Linked.keep (h : Linked proto services e peer) {e' : RpcChannel Msg} (hsound : e'.Sound)
    (hinbox : ∀ m ∈ e'.inbox, m ∈ e.inbox) (hmail : e'.mail = e.mail)
    (hpending : e'.pending = e.pending) (hproduced : e'.produced = e.produced)
    (hcalls : e.calls <+: e'.calls)
    (hcause : ∀ k j, (e'.progress k).cause = some (.service j) →
      (e.progress k).cause = some (.service j) ∧
      (e'.progress k).response = (e.progress k).response) :
    Linked proto services e' peer where
  sound := hsound
  inbox m hm := by
    rw [hmail]
    exact h.inbox m (hinbox m hm)
  mail := by
    rw [hmail]
    exact h.mail
  pending := by
    rw [hpending]
    exact h.pending
  produced := by
    rw [hproduced]
    exact h.produced
  causes hbound k j hk := by
    obtain ⟨hold, hresponse⟩ := hcause k j hk
    have hlen := hcalls.length_le
    obtain ⟨a, object, v, response, ha, ho, hv, hvk, hr⟩ := h.causes (by omega) k j hold
    exact ⟨a, object, v, response, getElem?_mono hcalls ha, ho, hv, hvk, hresponse.trans hr⟩

theorem Linked.allocate (h : Linked proto services e peer) (a : RpcCall Msg) :
    Linked proto services (e.allocate a) peer := by
  refine h.keep (h.sound.allocate a) (fun _ hm => hm) rfl rfl rfl (List.prefix_append _ _) ?_
  intro k j hk
  by_cases hkl : k = e.calls.length
  · rw [hkl, allocate_progress] at hk
    cases hk
  · rw [allocate_progress_of_ne hkl] at hk ⊢
    exact ⟨hk, rfl⟩

theorem Linked.register (h : Linked proto services e peer) (ha : e.calls[k]? = some a)
    (hreg : (e.progress k).registered = none) : Linked proto services (e.register k a) peer := by
  refine h.keep (h.sound.register ha hreg) (fun _ hm => hm) rfl rfl rfl (List.prefix_refl _) ?_
  intro i j hi
  by_cases hik : i = k
  · rw [hik, register_progress] at hi ⊢
    exact ⟨hi, rfl⟩
  · rw [register_progress_of_ne hik] at hi ⊢
    exact ⟨hi, rfl⟩

theorem Linked.markSent (h : Linked proto services e peer) (k : Nat) :
    Linked proto services (e.markSent k) peer := by
  refine h.keep (h.sound.markSent k) (fun _ hm => hm) rfl rfl rfl (List.prefix_refl _) ?_
  intro i j hi
  obtain ⟨sent, hsent⟩ := markSent_progress e k i
  rw [hsent] at hi ⊢
  exact ⟨hi, rfl⟩

theorem Linked.post (h : Linked proto services e peer)
    (hm : m.Genuine proto peer.calls peer.produced) : Linked proto services (e.post m) peer where
  sound := h.sound.frame rfl rfl rfl rfl rfl
  inbox n hn := by
    rcases List.mem_append.mp hn with hn | hn
    · exact List.mem_append_left _ (h.inbox n hn)
    · exact List.mem_append_right _ hn
  mail n hn := by
    rcases List.mem_append.mp hn with hn | hn
    · exact h.mail n hn
    · rw [List.mem_singleton.mp hn]
      exact hm
  pending := h.pending
  produced := h.produced
  causes := h.causes

theorem settle_cause {p : Progress Msg} (hp : Untouched p a) {origin : Origin}
    (h : (settle proto p a m).cause = some origin) :
    m.origin = origin ∧ ∃ object, a.response = some object ∧
      ∀ bytes, m.message.response = some bytes →
        (settle proto p a m).response = some (proto.parseFromString object bytes).2 := by
  have hresponse := hp.response
  unfold settle at h ⊢
  cases ho : a.response with
  | none =>
    rw [ho] at h
    cases hp.cause.symm.trans h
  | some object =>
    rw [ho] at h hresponse
    cases hd : a.done with
    | false =>
      rw [hd] at h
      cases hp.cause.symm.trans h
    | true =>
      rw [hd] at h
      cases h
      refine ⟨rfl, object, rfl, ?_⟩
      intro bytes hbytes
      simp only [hbytes, hresponse, Option.map_some]

theorem Linked.onResponse (h : Linked proto services e peer)
    (hm : m.Genuine proto peer.calls peer.produced)
    (hpeer : ∀ r ∈ peer.produced, r.1.call < e.calls.length) {e' : RpcChannel Msg}
    (he : e.onResponse proto m = .ok e') : Linked proto services e' peer := by
  have hsound := h.sound.onResponse he
  obtain ⟨progress, rfl, hprogress⟩ := h.sound.onResponse_cases he
  refine ⟨hsound, h.inbox, h.mail, h.pending, h.produced, ?_⟩
  intro (hbound : e.calls.length ≤ 2 ^ 64) k j hk
  rcases hprogress with rfl | ⟨i, a, ha, _, hid, huntouched, rfl⟩
  · exact h.causes hbound k j hk
  · by_cases hki : k = i
    · subst hki
      have hnew : Function.update e.progress k (settle proto (e.progress k) a m) k =
          settle proto (e.progress k) a m :=
        Function.update_self _ _ _
      have hcause := (congrArg Progress.cause hnew).symm.trans hk
      obtain ⟨horigin, object, ho, hparsed⟩ := settle_cause huntouched hcause
      unfold Envelope.Genuine at hm
      rw [horigin] at hm
      obtain ⟨v, response, hv, hvj, hmsg⟩ := hm
      have hklt := lt_of_getElem? ha
      have hjlt : j < e.calls.length := hvj ▸ hpeer _ hv
      have hkj : k = j := by
        rw [h.sound.ids k hklt, hmsg] at hid
        exact callId_inj (by omega) (by omega) hid
      refine ⟨a, object, v, response, ha, ho, hv, hvj.trans hkj.symm, ?_⟩
      refine (congrArg Progress.response hnew).trans (hparsed _ ?_)
      rw [hmsg]
      rfl
    · have hold : Function.update e.progress i (settle proto (e.progress i) a m) k = e.progress k :=
        Function.update_of_ne hki _ _
      have hcause : (e.progress k).cause = some (.service j) :=
        (congrArg Progress.cause hold).symm.trans hk
      obtain ⟨c, object, v, response, hc, ho, hv, hvk, hr⟩ := h.causes hbound k j hcause
      exact ⟨c, object, v, response, hc, ho, hv, hvk,
        (congrArg Progress.response hold).trans hr⟩

theorem Linked.onRequest (h : Linked proto services e peer)
    (hm : m.Genuine proto peer.calls peer.produced) (htype : m.message.type = .REQUEST) :
    Linked proto services (e.onRequest proto services m).1 peer ∧
      ∀ calls produced, ∀ reply ∈ (e.onRequest proto services m).2,
        Envelope.Genuine proto reply calls produced := by
  unfold RpcChannel.onRequest
  split
  next method request hd =>
    refine ⟨⟨h.sound.frame rfl rfl rfl rfl rfl, h.inbox, h.mail, ?_, h.produced, h.causes⟩, ?_⟩
    · intro v hv
      rcases List.mem_append.mp hv with hv | hv
      · exact h.pending v hv
      · rw [List.mem_singleton.mp hv]
        unfold Envelope.Genuine at hm
        cases horigin : m.origin with
        | call k =>
          rw [horigin] at hm
          obtain ⟨a, ha, hmsg⟩ := hm
          rw [hmsg] at hd ⊢
          exact ⟨rfl, a, ha, hd⟩
        | service k =>
          rw [horigin] at hm
          obtain ⟨_, _, _, _, hmsg⟩ := hm
          rw [hmsg] at htype
          cases htype
        | refusal k =>
          rw [horigin] at hm
          cases htype.symm.trans hm
        | stray =>
          rw [horigin] at hm
          cases htype.symm.trans hm
    · intro calls produced reply hreply
      cases hreply
  · refine ⟨h, ?_⟩
    intro calls produced reply hreply
    cases hreply
    rfl

theorem Linked.produce (h : Linked proto services e peer) {i : Nat} {v : Invocation Msg}
    (hv : e.pending[i]? = some v) {response : Msg}
    (htype : proto.typeName response = proto.typeName v.method.responsePrototype) :
    Linked proto services
      { e with
        pending := e.pending.eraseIdx i
        produced := e.produced ++ [(v, response)] } peer where
  sound := h.sound.frame rfl rfl rfl rfl rfl
  inbox := h.inbox
  mail := h.mail
  pending w hw := h.pending w (List.mem_of_mem_eraseIdx hw)
  produced r hr := by
    rcases List.mem_append.mp hr with hr | hr
    · exact h.produced r hr
    · rw [List.mem_singleton.mp hr]
      exact ⟨h.pending v (List.mem_of_getElem? hv), htype⟩
  causes := h.causes

/-! ### One step -/

section

variable {services : Bool → RpcServices Msg} {s t : Bool → RpcChannel Msg} {b : Bool}

def Inv (proto : Protobuf Msg) (services : Bool → RpcServices Msg) (s : Bool → RpcChannel Msg) :
    Prop :=
  ∀ b, Linked proto (services b) (s b) (s !b)

theorem new_inv : Inv proto services fun _ => new := by
  intro b
  refine ⟨new_sound, ?_, ?_, ?_, ?_, ?_⟩
  · intro m hm
    cases hm
  · intro m hm
    cases hm
  · intro v hv
    cases hv
  · intro r hr
    cases hr
  · intro _ k j hk
    cases hk

theorem Inv.update (h : Inv proto services s) {e : RpcChannel Msg}
    (he : Linked proto (services b) e (s !b)) (hcalls : (s b).calls <+: e.calls)
    (hproduced : (s b).produced <+: e.produced) : Inv proto services (Function.update s b e) := by
  intro c
  have hne : (!b) ≠ b := by simp
  by_cases hcb : c = b
  · rw [hcb, Function.update_self, Function.update_of_ne hne]
    exact he
  · have hc : (!c) = b := by
      cases c <;> cases b <;> simp at hcb ⊢
    have hpeer := h c
    rw [Function.update_of_ne hcb, hc, Function.update_self]
    rw [hc] at hpeer
    exact hpeer.mono hcalls hproduced

theorem Inv.post (h : Inv proto services s)
    (hm : m.Genuine proto (s !b).calls (s !b).produced) :
    Inv proto services (Function.update s b ((s b).post m)) :=
  h.update ((h b).post hm) (List.prefix_refl _) (List.prefix_refl _)

theorem Inv.send (h : Inv proto services s) {e : RpcChannel Msg}
    (he : Linked proto (services b) e (s !b)) (hcalls : (s b).calls <+: e.calls)
    (hproduced : (s b).produced <+: e.produced) (hm : m.Genuine proto e.calls e.produced) :
    Inv proto services (Function.update (Function.update s b e) (!b) ((s !b).post m)) := by
  have hne : (!b) ≠ b := by simp
  have hother : Function.update s b e (!b) = s !b := Function.update_of_ne hne _ _
  have hsend := (h.update he hcalls hproduced).post (b := !b) (m := m)
  rw [Bool.not_not, Function.update_self, hother] at hsend
  exact hsend hm

theorem Linked.pop (h : Linked proto (services b) e peer) {inbox : List Envelope}
    (hinbox : e.inbox = m :: inbox) : Linked proto (services b) { e with inbox := inbox } peer := by
  have hsound : { e with inbox := inbox }.Sound := h.sound.frame rfl rfl rfl rfl rfl
  refine h.keep hsound ?_ rfl rfl rfl (List.prefix_refl _) (fun _ _ hk => ⟨hk, rfl⟩)
  intro n hn
  rw [hinbox]
  exact List.mem_cons_of_mem _ hn

theorem Inv.call_lt (h : Inv proto services s) (b : Bool) :
    ∀ r ∈ (s !b).produced, r.1.call < (s b).calls.length := by
  intro r hr
  have hpeer := h (!b)
  rw [Bool.not_not] at hpeer
  obtain ⟨⟨_, a, ha, _⟩, _⟩ := hpeer.produced r hr
  exact lt_of_getElem? ha

theorem onResponse_calls {e' : RpcChannel Msg} (he : e.onResponse proto m = .ok e') :
    e'.calls = e.calls ∧ e'.produced = e.produced := by
  obtain ⟨_, _, he⟩ := bind_eq_ok he
  cases he
  exact ⟨rfl, rfl⟩

theorem onRequest_calls (proto : Protobuf Msg) (e : RpcChannel Msg) (services : RpcServices Msg)
    (m : Envelope) :
    (e.onRequest proto services m).1.calls = e.calls ∧
      (e.onRequest proto services m).1.produced = e.produced := by
  unfold onRequest
  split
  · exact ⟨rfl, rfl⟩
  · exact ⟨rfl, rfl⟩

theorem Inv.deliver (h : Inv proto services s) {inbox : List Envelope}
    (hinbox : (s b).inbox = m :: inbox) {e : RpcChannel Msg} {reply : Option Envelope}
    (he : { s b with inbox := inbox }.onRpcMessage proto (services b) m = .ok (e, reply)) :
    Linked proto (services b) e (s !b) ∧ e.calls = (s b).calls ∧ e.produced = (s b).produced ∧
      ∀ calls produced, ∀ r ∈ reply, Envelope.Genuine proto r calls produced := by
  have hpop := (h b).pop hinbox
  have hgenuine : m.Genuine proto (s !b).calls (s !b).produced := by
    refine (h b).mail m ((h b).inbox m ?_)
    rw [hinbox]
    exact List.mem_cons_self
  unfold onRpcMessage at he
  split at he
  · obtain ⟨e', he', hr⟩ := bind_eq_ok he
    cases hr
    obtain ⟨hcalls, hproduced⟩ := onResponse_calls he'
    refine ⟨hpop.onResponse hgenuine (h.call_lt b) he', hcalls, hproduced, ?_⟩
    intro calls produced r hr
    cases hr
  next htype =>
    have hreq := hpop.onRequest hgenuine htype
    have hcalls := onRequest_calls proto { s b with inbox := inbox } (services b) m
    rw [Except.ok.inj he] at hreq hcalls
    exact ⟨hreq.1, hcalls.1, hcalls.2, hreq.2⟩
  · cases he
    refine ⟨hpop, rfl, rfl, ?_⟩
    intro calls produced r hr
    cases hr

theorem Inv.step (h : Inv proto services s) {act : RpcAct Msg}
    (ht : RpcChannel.step proto services s act = some (.ok t)) : Inv proto services t := by
  cases act with
  | allocate b a =>
    cases ht
    exact h.update ((h b).allocate a) (List.prefix_append _ _) (List.prefix_refl _)
  | register b k =>
    simp only [RpcChannel.step] at ht
    split at ht
    · cases ht
    next a ha =>
      split at ht
      next hreg =>
        cases ht
        exact h.update ((h b).register ha hreg) (List.prefix_refl _) (List.prefix_refl _)
      · cases ht
  | send b k =>
    simp only [RpcChannel.step] at ht
    split at ht
    · cases ht
    next a ha =>
      split at ht
      · cases ht
        refine h.send ((h b).markSent k) (List.prefix_refl _) (List.prefix_refl _) ?_
        refine ⟨a, ha, ?_⟩
        rw [(h b).sound.ids k (lt_of_getElem? ha)]
      · cases ht
  | deliver b =>
    simp only [RpcChannel.step] at ht
    split at ht
    · cases ht
    next m inbox hinbox =>
      split at ht
      · cases ht
      next e he =>
        cases ht
        obtain ⟨hlinked, hcalls, hproduced, _⟩ := h.deliver hinbox he
        exact h.update hlinked (hcalls ▸ List.prefix_refl _) (hproduced ▸ List.prefix_refl _)
      next e reply he =>
        cases ht
        obtain ⟨hlinked, hcalls, hproduced, hreply⟩ := h.deliver hinbox he
        exact h.send hlinked (hcalls ▸ List.prefix_refl _) (hproduced ▸ List.prefix_refl _)
          (hreply _ _ reply rfl)
  | done b i response =>
    simp only [RpcChannel.step] at ht
    split at ht
    · cases ht
    next v hv =>
      split at ht
      next htype =>
        cases ht
        refine h.send ((h b).produce hv htype) (List.prefix_refl _) (List.prefix_append _ _) ?_
        refine ⟨v, response, List.mem_append_right _ (List.mem_singleton.mpr rfl), rfl, ?_⟩
        rw [((h b).pending v (List.mem_of_getElem? hv)).1]
      · cases ht
  | stray b message =>
    simp only [RpcChannel.step] at ht
    split at ht
    next htype =>
      cases ht
      exact h.post htype
    · cases ht
  | duplicate b i =>
    simp only [RpcChannel.step] at ht
    split at ht
    · cases ht
    next m hm =>
      split at ht
      · cases ht
        exact h.post ((h b).mail m (List.mem_of_getElem? hm))
      · cases ht

end

/-! ### Whole runs -/

def findMethod (services : RpcServices Msg) (service method : String) :
    Option (RpcMethod Msg) :=
  services.bind fun table => (table service).bind fun findMethodByName => findMethodByName method

/- The caller's request and response object are of the method's types. -/
def Typed (proto : Protobuf Msg) (services : RpcServices Msg) (a : RpcCall Msg) : Prop :=
  ∀ method, findMethod services a.service a.method = some method →
    proto.typeName method.requestPrototype = proto.typeName a.request ∧
    ∀ object, a.response = some object →
      proto.typeName object = proto.typeName method.responsePrototype

theorem dispatch_message {id : BitVec 64} {method : RpcMethod Msg} {request : Msg}
    (h : dispatch proto services (a.message proto id) = .ok (method, request)) :
    findMethod services a.service a.method = some method ∧
      proto.parseFromString method.requestPrototype (proto.serializeAsString a.request) =
        (true, request) := by
  unfold dispatch at h
  split at h
  · cases h
  next table =>
    split at h
    · cases h
    next findMethodByName hfind =>
      split at h
      · cases h
      next found hfound =>
        dsimp only at h
        split at h
        next hparsed =>
          cases h
          refine ⟨?_, ?_⟩
          · show (table a.service).bind _ = _
            rw [show table a.service = some findMethodByName from hfind]
            exact hfound
          · exact Prod.ext hparsed rfl
        · cases h

section

variable {services : Bool → RpcServices Msg} {t : Bool → RpcChannel Msg} {b : Bool}

theorem Inv.answered (h : Inv proto services t) (hproto : proto.RoundTrips)
    (hbound : (t b).calls.length ≤ 2 ^ 64) {j : Nat} (ha : (t b).calls[k]? = some a)
    (htyped : Typed proto (services !b) a)
    (hcause : ((t b).progress k).cause = some (.service j)) :
    ∃ v response, (v, response) ∈ (t !b).produced ∧ v.call = k ∧
      findMethod (services !b) a.service a.method = some v.method ∧ v.request = a.request ∧
      ((t b).progress k).response = some response := by
  obtain ⟨c, object, v, response, hc, ho, hv, rfl, hr⟩ := (h b).causes hbound k j hcause
  cases ha.symm.trans hc
  have hpeer := h (!b)
  rw [Bool.not_not] at hpeer
  obtain ⟨⟨_, c, hc, hd⟩, htype⟩ := hpeer.produced _ hv
  cases ha.symm.trans hc
  obtain ⟨hfind, hparse⟩ := dispatch_message hd
  obtain ⟨hreq, hres⟩ := htyped _ hfind
  rw [hproto _ _ hreq] at hparse
  rw [hproto _ _ ((hres object ho).trans htype.symm)] at hr
  exact ⟨v, response, hv, rfl, hfind, (congrArg Prod.snd hparse).symm, hr⟩

end

def flagProto : Protobuf Bool where
  typeName _ := "Flag"
  serializeAsString on := [0x08, if on then 1 else 0]
  parseFromString object
    | [0x08, v] => (true, v != 0)
    | _ => (false, object)

def flagServices : Bool → RpcServices Bool
  | false => none
  | true => some fun service =>
    if service = "Flags" then
      some fun method => if method = "flip" then some ⟨false, false⟩ else none
    else none

def flip (on : Bool) : RpcCall Bool := ⟨"Flags", "flip", on, some false, true⟩

/- Two calls whose requests, responses and registrations come in different orders; the first
response comes twice. -/
def crossed : List (RpcAct Bool) :=
  [.allocate false (flip true), .allocate false (flip false), .register false 1, .send false 1,
    .register false 0, .send false 0, .deliver true, .deliver true, .done true 1 false,
    .done true 0 true, .deliver false, .duplicate false 0, .deliver false, .deliver false]

theorem run_allocate (proto : Protobuf Msg) (services : Bool → RpcServices Msg) (a : RpcCall Msg)
    (n : Nat) (s : Bool → RpcChannel Msg) :
    (machine proto services).run s (List.replicate n (.allocate false a)) =
      some (.ok (Function.update s false ((fun e => e.allocate a)^[n] (s false)))) := by
  induction n generalizing s with
  | zero =>
    rw [List.replicate_zero, Function.iterate_zero_apply, Function.update_eq_self]
    rfl
  | succ n ih =>
    rw [List.replicate_succ]
    show (machine proto services).run (Function.update s false ((s false).allocate a)) _ = _
    rw [ih, Function.update_self, Function.update_idem, Function.iterate_succ_apply]

structure Unregistered (e : RpcChannel Msg) (a : RpcCall Msg) (n : Nat) : Prop where
  sound : e.Sound
  calls : e.calls = List.replicate n a
  received : e.received = []
  registered : ∀ k, (e.progress k).registered = none

theorem unregistered_allocate (a : RpcCall Msg) (n : Nat) :
    Unregistered ((fun e => e.allocate a)^[n] new) a n := by
  induction n with
  | zero => exact ⟨new_sound, rfl, rfl, fun _ => rfl⟩
  | succ n ih =>
    rw [Function.iterate_succ_apply']
    refine ⟨ih.sound.allocate a, ?_, ih.received, ?_⟩
    · show ((fun e => e.allocate a)^[n] new).calls ++ [a] = _
      rw [ih.calls, List.replicate_succ']
    · intro k
      generalize (fun e => e.allocate a)^[n] new = e at ih ⊢
      by_cases hk : k = e.calls.length
      · rw [hk, allocate_progress]
      · rw [allocate_progress_of_ne hk]
        exact ih.registered k

theorem step_register {services : Bool → RpcServices Msg} {s : Bool → RpcChannel Msg} {b : Bool}
    (ha : (s b).calls[k]? = some a) (hreg : ((s b).progress k).registered = none) :
    step proto services s (.register b k) =
      some (.ok (Function.update s b ((s b).register k a))) := by
  simp only [step, ha, hreg, if_true]

theorem wrapped_entry (proto : Protobuf Msg) (services : Bool → RpcServices Msg)
    (a : RpcCall Msg) {n : Nat} (hid : callId n = callId 0) (hn : n ≠ 0) :
    ∃ t, (machine proto services).run (fun _ => new)
        (List.replicate (n + 1) (.allocate false a) ++ [.register false 0, .register false n]) =
          some (.ok t) ∧
      (t false).calls[0]? = some a ∧ (t false).received = [] ∧
      ((t false).progress 0).registered ≠ none ∧
      (t false).outstandings ((t false).progress 0).id = some (a.out n) := by
  have hu := unregistered_allocate a (n + 1)
  rw [Machine.run_append (run_allocate proto services a (n + 1) _)]
  generalize (fun e => e.allocate a)^[n + 1] new = e at hu ⊢
  have hlen : e.calls.length = n + 1 := by
    rw [hu.calls, List.length_replicate]
  have hcalls : ∀ k, k ≤ n → e.calls[k]? = some a := by
    intro k hk
    rw [hu.calls, List.getElem?_replicate, if_pos (by omega)]
  have hlater : ((e.register 0 a).progress n).registered = none := by
    rw [register_progress_of_ne hn]
    exact hu.registered n
  have hids : (e.progress n).id = (e.progress 0).id := by
    rw [hu.sound.ids n (by omega), hu.sound.ids 0 (by omega), hid]
  have hrun : ∀ s : Bool → RpcChannel Msg, s false = e →
      (machine proto services).run s [.register false 0, .register false n] =
        some (.ok (Function.update s false ((e.register 0 a).register n a))) := by
    intro s hs
    have hfirst : step proto services s (.register false 0) =
        some (.ok (Function.update s false (e.register 0 a))) := by
      rw [← hs] at hcalls ⊢
      exact step_register (hcalls 0 (Nat.zero_le n)) (by rw [hs]; exact hu.registered 0)
    have hsecond : step proto services (Function.update s false (e.register 0 a))
        (.register false n) =
          some (.ok (Function.update s false ((e.register 0 a).register n a))) := by
      have hself : Function.update s false (e.register 0 a) false = e.register 0 a :=
        Function.update_self _ _ _
      rw [step_register (a := a) (by rw [hself]; exact hcalls n (Nat.le_refl n))
        (by rw [hself]; exact hlater), hself, Function.update_idem]
    simp only [Machine.run, machine, hfirst, hsecond]
  refine ⟨_, hrun _ (Function.update_self _ _ _), ?_⟩
  rw [Function.update_self]
  have hzero : ((e.register 0 a).register n a).progress 0 =
      { e.progress 0 with registered := some e.received.length } := by
    rw [register_progress_of_ne (Ne.symm hn), register_progress]
  refine ⟨hcalls 0 (Nat.zero_le n), hu.received, ?_, ?_⟩
  · rw [hzero]
    exact Option.some_ne_none _
  · rw [hzero]
    show Function.update _ ((e.register 0 a).progress n).id _ (e.progress 0).id = _
    rw [register_progress_of_ne hn, hids, Function.update_self]

/- `outstandings_` has the registered calls whose id never came in a RESPONSE. -/
def HoldsUnanswered (e : RpcChannel Msg) : Prop :=
  ∀ id out, e.outstandings id = some out ↔
    ∃ k a, e.calls[k]? = some a ∧ (e.progress k).registered ≠ none ∧ (e.progress k).id = id ∧
      id ∉ e.received ∧ out = a.out k

end RpcChannel

end TstMuduo.Net
