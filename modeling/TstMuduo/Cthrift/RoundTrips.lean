import TstMuduo.Cthrift.ClientFrames
import TstMuduo.Cthrift.ServerFrames

/-!
# From a call to its response (cthrift/cthrift_client_worker.cc, cthrift_svr.cc)

A client worker and a server on one connection. The bytes of the requests and of the responses
are under way, in order, and arrive in pieces of any length. The server hands the frames to
its worker loops, which run `Process` at their own pace, so that the responses come back in
another order than the requests went out.
-/

namespace TstMuduo.Cthrift
open TstMuduo.Lib TstMuduo.Net

/-- Both ends and what is under way between them. `history` is what has happened in the loop
of the client's worker, `calls` are the requests that have been sent, `ran` counts the functors
that each loop of the server has run, and `answers` has the requests that were answered, with
their responses. -/
structure Link where
  client : ClientConn
  history : List ClientWorker.Act
  calls : List (SharedContext × Frame)
  requests : Bytes
  server : SvrConn
  ran : Nat → Nat
  answers : List (Bytes × Frame)
  responses : Bytes
  up : Bool

inductive LinkFault where
  | client (f : Fault)
  | server (f : SvrFault)
  | hangs
  deriving DecidableEq, Repr

/- `ran` is set by `process`, `chunk`s are the first bytes that are under way. -/
inductive LinkAct where
  /- the loop of the client's worker -/
  | call (c : SharedContext) (request : Frame)
  | clientReceive (n : Nat)
  | giveUp (obj : Nat)
  | delContextMapByID (str_id : String)
  | timewheelKick
  | asyncCallback
  /- the connection's loop in the server, and its timer -/
  | serverReceive (n : Nat)
  | serverKick
  | initWorkerThreadPos
  /- a worker loop of the server: what the service answers -/
  | process (worker : Nat) (response : Option Frame)
  /- the connection is no longer up -/
  | down

namespace Link

/- A new connection. -/
def new : Link where
  client := ClientConn.start .new
  history := []
  calls := []
  requests := []
  server := SvrConn.start 0
  ran := fun _ => 0
  answers := []
  responses := []
  up := true

def register (c : SharedContext) : ClientWorker.Act :=
  if c.async_flag then .asyncSendReq c else .sendTransportReq c

def act (s : Link) (a : ClientWorker.Act) (worker : ClientWorker) : Link :=
  { s with client := { s.client with worker := worker }, history := s.history ++ [a] }

/- `SendTransportReq` and `AsyncSendReq` on this connection: an empty request is not sent. -/
def call (s : Link) (c : SharedContext) (request : Frame) : Link :=
  if request.body = [] then s
  else
    let worker := if c.async_flag then s.client.worker.registerAsync c
      else s.client.worker.registerSync c
    { s.act (register c) worker with
      calls := s.calls ++ [(c, request)]
      requests := s.requests ++ request.wire }

def fresh (s : Link) (client : ClientConn) : List ClientWorker.Act :=
  (client.handled.drop s.client.handled.length).map .receive

/- `CthriftClientWorker::OnMsg`, after the next `n` bytes have come in. -/
def clientReceive (s : Link) (n : Nat) : Option (Except LinkFault Link) :=
  match ClientConn.receive .new s.client [s.responses.take n] with
  | .error f => some (.error (.client f))
  | .ok none => none
  | .ok (some client) => some (.ok { s with
      client := client
      history := s.history ++ s.fresh client
      responses := s.responses.drop n })

/- `CthriftSvr::OnMsg`, after the next `n` bytes have come in. A turn that comes to no other state
is repeated for ever. -/
def serverReceive (workerThreadNum : Int) (s : Link) (n : Nat) : Option (Except LinkFault Link) :=
  match s.server.buffer.append (s.requests.take n) with
  | .error a => some (.error (.server (.assertion a)))
  | .ok buffer =>
    match SvrConn.onMsg workerThreadNum (buffer.readableBytes + 2)
        { s.server with buffer := buffer } with
    | .error f => some (.error (.server f))
    | .ok none => some (.error .hangs)
    | .ok (some server) => some (.ok { s with server := server, requests := s.requests.drop n })

def functors (s : Link) (worker : Nat) : List Bytes :=
  (s.server.processed.filter fun x => x.1 = worker).map Prod.snd

/- `Process` (`cthrift_svr.cc:311`): without a connection or a request it returns at once; a
service that throws, or that has no response, leaves nothing to send. -/
def process (s : Link) (worker : Nat) (request : Bytes) (response : Option Frame) : Link :=
  let t := { s with ran := Function.update s.ran worker (s.ran worker + 1) }
  if s.up = false ∨ request = [] then t
  else
    match response with
    | none => t
    | some f =>
      if f.body = [] then t
      else { t with
        answers := s.answers ++ [(request, f)]
        responses := s.responses ++ f.wire }

def step (workerThreadNum : Int) (s : Link) : LinkAct → Option (Except LinkFault Link)
  | .call c request => if s.up then some (.ok (s.call c request)) else none
  | .clientReceive n => s.clientReceive n
  | .giveUp obj => some (.ok (s.act (.giveUp obj)
      { s.client.worker with expired := obj :: s.client.worker.expired }))
  | .delContextMapByID str_id =>
    some (.ok (s.act (.delContextMapByID str_id) (s.client.worker.erase str_id)))
  | .timewheelKick => some (.ok (s.act .timewheelKick s.client.worker.timewheelKick))
  | .asyncCallback =>
    match s.client.worker.callbacks with
    | [] => none
    | _ :: later => some (.ok (s.act .asyncCallback { s.client.worker with callbacks := later }))
  | .serverReceive n => s.serverReceive workerThreadNum n
  | .serverKick => some (.ok { s with server := { s.server with kicks := s.server.kicks + 1 } })
  | .initWorkerThreadPos => some (.ok { s with server := { s.server with workerThreadPos := 0 } })
  | .process worker response =>
    (s.functors worker)[s.ran worker]?.map fun request => .ok (s.process worker request response)
  | .down => some (.ok { s with up := false })

def machine (workerThreadNum : Int) : Machine Link LinkAct LinkFault where
  init := new
  step := step workerThreadNum

/-! ### What the two ends rely on -/

def idOf (body : Bytes) : Option String :=
  match CthriftTBinaryProtocol.new.getSeqID ⟨body⟩ with
  | .ok id => if 0 < id.toInt then some (lexicalCast id.toInt) else none
  | .error _ => none

def reached (s : Link) (n : Nat) : Bytes :=
  let sent := stream (s.calls.map Prod.snd)
  sent.take (sent.length - (s.requests.drop n).length)

/-- While the connection is in the wheel, no piece ends inside a request or just before one. -/
def AtBoundary (s : Link) (n : Nat) : Prop :=
  s.server.kicks < kI8TimeWheelGridNum → (framing.rest (s.reached n)).length < 4

/-- Every request has the id of its context in its header, and no two have the same; a
response repeats the id of its request; and the server's frame loop ends. -/
def Proper (s : Link) : LinkAct → Prop
  | .call c request => idOf request.body = some c.str_id ∧ ∀ x ∈ s.calls, x.1.str_id ≠ c.str_id
  | .serverReceive n => s.AtBoundary n
  | .process worker (some f) =>
    ∀ request ∈ (s.functors worker)[s.ran worker]?, idOf f.body = idOf request
  | _ => True

instance (s : Link) : (a : LinkAct) → Decidable (s.Proper a)
  | .call c request => inferInstanceAs
      (Decidable (idOf request.body = some c.str_id ∧ ∀ x ∈ s.calls, x.1.str_id ≠ c.str_id))
  | .process worker (some f) => inferInstanceAs
      (Decidable (∀ request ∈ (s.functors worker)[s.ran worker]?, idOf f.body = idOf request))
  | .serverReceive _ => inferInstanceAs (Decidable (_ → _))
  | .process _ none => isTrue trivial
  | .clientReceive _ | .giveUp _ | .delContextMapByID _ | .timewheelKick | .asyncCallback
  | .serverKick | .initWorkerThreadPos | .down => isTrue trivial

end Link

/-! ### The client's worker -/

namespace ClientWorker

/-- The transport of a synchronous request has given up, or since its registration the timeout
of its id has come, or it has been carried once around the wheel. -/
def Dropped (h : List Act) (c : SharedContext) : Prop :=
  c.async_flag = false ∧ .giveUp c.obj ∈ h ∨
    ∃ pre a post, h = pre ++ a :: post ∧ a.registers = some c ∧
      (.delContextMapByID c.str_id ∈ post ∨ a = .asyncSendReq c ∧ kI8TimeWheelNum ≤ kicks post)

/-- Every request is outstanding, completed or dropped. -/
structure Finished (h : List Act) (w : ClientWorker) : Prop where
  expired : ∀ obj ∈ w.expired, .giveUp obj ∈ h
  ends : ∀ c, (∃ a ∈ h, a.registers = some c) →
    Outstanding .new h c ∨ (∃ k ∈ w.completed, k.context = c) ∨ Dropped h c

variable {h : List Act} {w v : ClientWorker} {a : Act} {c : SharedContext}

theorem kicks_append (g h : List Act) : kicks (g ++ h) = kicks g + kicks h := List.count_append

theorem Dropped.snoc (hd : Dropped h c) (a : Act) : Dropped (h ++ [a]) c := by
  rcases hd with ⟨hflag, hd⟩ | ⟨pre, r, post, rfl, hr, hd⟩
  · exact .inl ⟨hflag, List.mem_append_left _ hd⟩
  · refine .inr ⟨pre, r, post ++ [a], List.append_assoc .., hr, ?_⟩
    rcases hd with hd | ⟨hra, hk⟩
    · exact .inl (List.mem_append_left _ hd)
    · refine .inr ⟨hra, ?_⟩
      rw [kicks_append]
      exact Nat.le_trans hk (Nat.le_add_right _ _)

theorem outstanding_or_removed (ho : Outstanding .new h c) (a : Act) :
    Outstanding .new (h ++ [a]) c ∨ a.Removes .new c ∨ Dropped (h ++ [a]) c := by
  by_cases hrem : a.Removes .new c
  · exact .inr (.inl hrem)
  · obtain ⟨pre, r, post, rfl, hr, hall, hk⟩ := ho
    by_cases hlate : r = .asyncSendReq c ∧ kI8TimeWheelNum ≤ kicks post + kicks [a]
    · refine .inr (.inr (.inr ⟨pre, r, post ++ [a], List.append_assoc .., hr, .inr ⟨hlate.1, ?_⟩⟩))
      rw [kicks_append]
      exact hlate.2
    · refine .inl (outstanding_snoc.mpr (.inr ⟨hrem, pre, r, post, rfl, hr, hall, ?_⟩))
      intro hra
      exact Nat.lt_of_not_le fun hle => hlate ⟨hra, hle⟩

theorem destroyAll_frame (cs : List SharedContext) (w : ClientWorker) :
    (cs.foldl destroyCnxtEntry w).expired = w.expired ∧
      (cs.foldl destroyCnxtEntry w).completed = w.completed := by
  induction cs generalizing w with
  | nil => exact ⟨rfl, rfl⟩
  | cons c cs ih =>
    have hone : (w.destroyCnxtEntry c).expired = w.expired ∧
        (w.destroyCnxtEntry c).completed = w.completed := by
      unfold destroyCnxtEntry
      split
      · exact ⟨rfl, rfl⟩
      · exact ⟨rfl, rfl⟩
    obtain ⟨he, hc⟩ := ih (w.destroyCnxtEntry c)
    exact ⟨he.trans hone.1, hc.trans hone.2⟩

theorem timewheelKick_frame (w : ClientWorker) :
    w.timewheelKick.expired = w.expired ∧ w.timewheelKick.completed = w.completed := by
  unfold timewheelKick
  split
  · exact ⟨rfl, rfl⟩
  · exact destroyAll_frame _ _

theorem Finished.snoc (hf : Finished h w)
    (hexp : ∀ obj ∈ v.expired, obj ∈ w.expired ∨ a = .giveUp obj)
    (hcomp : ∀ k ∈ w.completed, k ∈ v.completed)
    (hrem : ∀ c, Outstanding .new h c → a.Removes .new c →
      (∃ k ∈ v.completed, k.context = c) ∨ Dropped (h ++ [a]) c) : Finished (h ++ [a]) v where
  expired obj hobj := by
    rcases hexp obj hobj with hold | rfl
    · exact List.mem_append_left _ (hf.expired obj hold)
    · exact List.mem_append_right _ List.mem_cons_self
  ends c hc := by
    obtain ⟨b, hb, hreg⟩ := hc
    rcases List.mem_append.mp hb with hb | hb
    · rcases hf.ends c ⟨b, hb, hreg⟩ with ho | ⟨k, hk, hkc⟩ | hd
      · rcases outstanding_or_removed ho a with ho' | hr | hd
        · exact .inl ho'
        · exact .inr (hrem c ho hr)
        · exact .inr (.inr hd)
      · exact .inr (.inl ⟨k, hcomp k hk, hkc⟩)
      · exact .inr (.inr (hd.snoc a))
    · rw [List.mem_singleton.mp hb] at hreg
      exact .inl (outstanding_snoc.mpr (.inl hreg))

theorem Finished.receive (hf : Finished h w) (hi : Inv .new h w) {body : Bytes} {shutdown : Bool}
    (hm : w.handleThriftMsg .new body = .ok (v, shutdown)) : Finished (h ++ [.receive body]) v := by
  obtain ⟨id, hid, hcases⟩ := handleThriftMsg_cases hm
  have hnone (hv : v = w) (hno : ∀ c, Outstanding .new h c → ¬ (Act.receive body).Removes .new c) :
      Finished (h ++ [.receive body]) v := by
    rw [hv]
    exact hf.snoc (fun _ hobj => .inl hobj) (fun _ hk => hk) fun c ho hr => absurd hr (hno c ho)
  rcases hcases with ⟨hneg, hv, -⟩ | ⟨hpos, -, ⟨hl, hv⟩ | ⟨c, hl, hv⟩⟩
  · refine hnone hv ?_
    rintro c - ⟨id', hid', hpos, -⟩
    cases hid.symm.trans hid'
    omega
  · refine hnone hv ?_
    rintro c ho ⟨id', hid', -, hown⟩
    cases hid.symm.trans hid'
    rw [hown, (hi.map c).mpr ho] at hl
    cases hl
  · have hexp : v.expired = w.expired := by
      rw [hv]
      show (w.respond c id body).expired = w.expired
      unfold respond
      split
      · rfl
      · split
        · rfl
        · rfl
    have hcomp : v.completed = (w.respond c id body).completed := by
      rw [hv]
      rfl
    refine hf.snoc ?_ ?_ ?_
    · intro obj hobj
      rw [hexp] at hobj
      exact .inl hobj
    · intro k hk
      rw [hcomp]
      rcases respond_completed w c id body with hsame | hmore
      · rw [hsame]
        exact hk
      · rw [hmore]
        exact List.mem_append_left _ hk
    · rintro d ho ⟨id', hid', -, hown⟩
      cases hid.symm.trans hid'
      have hd : w.map_id_sharedcontextsp.lookup d.str_id = some d := (hi.map d).mpr ho
      rw [← hown, hl] at hd
      cases hd
      rw [hcomp]
      by_cases hsync : c.async_flag = false ∧ c.obj ∈ w.expired
      · exact .inr (.inl ⟨hsync.1, List.mem_append_left _ (hf.expired _ hsync.2)⟩)
      · refine .inl ⟨⟨c, id, body⟩, ?_, rfl⟩
        have hmore : (w.respond c id body).completed = w.completed ++ [⟨c, id, body⟩] := by
          unfold respond
          split
          · rfl
          next hasync =>
            have hflag : c.async_flag = false := Bool.not_eq_true _ ▸ hasync
            rw [if_neg fun hobj => hsync ⟨hflag, hobj⟩]
        rw [hmore]
        exact List.mem_append_right _ List.mem_cons_self

theorem Finished.step (hf : Finished h w) (hi : Inv .new h w)
    (hs : ClientWorker.step .new w a = some (.ok v)) : Finished (h ++ [a]) v := by
  cases a with
  | sendTransportReq c | asyncSendReq c =>
    cases hs
    exact hf.snoc (fun _ hobj => .inl hobj) (fun _ hk => hk) fun d _ hr => by cases hr
  | receive body =>
    have hmap : (w.handleThriftMsg .new body).map Prod.fst = .ok v := Option.some.inj hs
    cases hm : w.handleThriftMsg .new body with
    | error e =>
      rw [hm] at hmap
      cases hmap
    | ok r =>
      rw [hm] at hmap
      cases hmap
      exact hf.receive hi hm
  | giveUp obj =>
    cases hs
    refine hf.snoc ?_ (fun _ hk => hk) fun d _ hr => by cases hr
    intro o ho
    rcases List.mem_cons.mp ho with rfl | ho
    · exact .inr rfl
    · exact .inl ho
  | delContextMapByID s =>
    cases hs
    refine hf.snoc (fun _ hobj => .inl hobj) (fun _ hk => hk) ?_
    intro d ho hr
    have hs : s = d.str_id := hr
    obtain ⟨pre, r, post, rfl, hreg, -⟩ := ho
    rw [hs]
    exact .inr (.inr ⟨pre, r, post ++ [.delContextMapByID d.str_id], List.append_assoc .., hreg,
      .inl (List.mem_append_right _ List.mem_cons_self)⟩)
  | timewheelKick =>
    cases hs
    obtain ⟨hexp, hcomp⟩ := timewheelKick_frame w
    refine hf.snoc ?_ ?_ fun d _ hr => by cases hr
    · intro obj hobj
      rw [hexp] at hobj
      exact .inl hobj
    · intro k hk
      rw [hcomp]
      exact hk
  | asyncCallback =>
    simp only [ClientWorker.step] at hs
    split at hs
    · cases hs
    · cases hs
      exact hf.snoc (fun _ hobj => .inl hobj) (fun _ hk => hk) fun d _ hr => by cases hr

end ClientWorker

/-! ### The frame loop of the server -/

namespace SvrConn

variable {num : Int} {fuel : Nat} {s t : SvrConn} {c : ConnContext}

theorem loop_ne_error (hn : 1 ≤ num) (f : SvrFault) : loop num fuel s c ≠ .error f := by
  induction fuel generalizing s c with
  | zero =>
    intro h
    cases h
  | succ fuel ih =>
    cases hst : c.enum_state with
    | kExpectFrameSize =>
      simp only [loop, hst]
      by_cases h4 : 4 ≤ s.buffer.readableBytes
      · obtain ⟨r, hr, -⟩ := readInt32_spec s.buffer h4
        rw [if_pos h4, hr]
        exact ih
      · rw [if_neg h4]
        intro h
        cases h
    | kExpectFrame =>
      simp only [loop, hst]
      by_cases hfull : sizeT c.i32_want_size ≤ s.buffer.readableBytes
      · obtain ⟨u, hu, -⟩ := dispatch_spec s c.i32_want_size hfull hn
        rw [if_pos hfull, hu]
        simp only [ok_bind]
        split
        · intro h
          cases h
        · exact ih
      · rw [if_neg hfull]
        exact ih

theorem loop_processed (h : loop num fuel s c = .ok (some t)) : s.processed <+: t.processed := by
  induction fuel generalizing s c with
  | zero => cases h
  | succ fuel ih =>
    cases hst : c.enum_state with
    | kExpectFrameSize =>
      simp only [loop, hst] at h
      by_cases h4 : 4 ≤ s.buffer.readableBytes
      · obtain ⟨r, hr, -⟩ := readInt32_spec s.buffer h4
        rw [if_pos h4, hr] at h
        exact ih (s := { s with buffer := r }) h
      · rw [if_neg h4] at h
        cases h
        exact List.prefix_refl _
    | kExpectFrame =>
      simp only [loop, hst] at h
      by_cases hfull : sizeT c.i32_want_size ≤ s.buffer.readableBytes
      · rw [if_pos hfull] at h
        obtain ⟨u, hu, hrest⟩ := bind_eq_ok h
        have hmore : s.processed <+: u.processed := by
          unfold dispatch at hu
          split at hu
          · cases hu
          · obtain ⟨b, -, hb⟩ := bind_eq_ok hu
            cases hb
            exact List.prefix_append _ _
        refine hmore.trans ?_
        unfold insertTimeWheel at hrest
        split at hrest
        next hw =>
          split at hw
          · cases hw
          · cases hrest
            exact List.prefix_refl _
        next v hw =>
          split at hw
          · cases hw
            exact ih (s := { u with kicks := 0 }) hrest
          · cases hw
      · rw [if_neg hfull] at h
        exact ih h

theorem onMsg_processed (h : onMsg num fuel s = .ok (some t)) : s.processed <+: t.processed := by
  unfold onMsg insertTimeWheel at h
  split at h
  · cases h
    exact List.prefix_refl _
  · split at h
    · cases h
      exact List.prefix_refl _
    next u hu =>
      split at hu
      · cases hu
        exact loop_processed (s := { s with kicks := 0 }) h
      · cases hu

theorem onMsg_ne_error (hn : 1 ≤ num) (f : SvrFault) : onMsg num fuel s ≠ .error f := by
  unfold onMsg
  split
  · intro h
    cases h
  · split
    · intro h
      cases h
    · exact loop_ne_error hn f

end SvrConn

/-! ### The client's end -/

namespace Link
open ClientWorker (Act Outstanding Inv Finished DistinctIds)

variable {calls : List (SharedContext × Frame)} {h : List Act} {w v : ClientWorker}
  {handled : List Bytes} {body : Bytes} {c : SharedContext} {a : Act}

theorem idOf_eq_some {i : String} : idOf body = some i ↔
    ∃ id : BitVec 32, CthriftTBinaryProtocol.new.getSeqID ⟨body⟩ = .ok id ∧ 0 < id.toInt ∧
      lexicalCast id.toInt = i := by
  unfold idOf
  constructor
  · intro he
    split at he
    next id hid =>
      split at he
      next hpos => exact ⟨id, hid, hpos, Option.some.inj he⟩
      · cases he
    · cases he
  · rintro ⟨id, hid, hpos, rfl⟩
    rw [hid]
    exact if_pos hpos

theorem removes_receive : (Act.receive body).Removes .new c ↔ idOf body = some c.str_id :=
  idOf_eq_some.symm

def Distinct (calls : List (SharedContext × Frame)) : Prop :=
  (calls.map fun x => x.1.str_id).Nodup

theorem Distinct.ids (hd : Distinct calls) (hregs : h.filterMap Act.registers =
    calls.map Prod.fst) : DistinctIds h := by
  unfold DistinctIds
  rw [hregs]
  exact List.pairwise_map.mpr (List.pairwise_map.mp hd)

/-- The history of the worker belongs to these calls, and it has handled these frames; a
request whose response has come is no longer outstanding. -/
structure Tracks (calls : List (SharedContext × Frame)) (h : List Act) (w : ClientWorker)
    (handled : List Bytes) : Prop where
  regs : h.filterMap Act.registers = calls.map Prod.fst
  inv : Inv .new h w
  finished : Finished h w
  received : ∀ body, .receive body ∈ h → body ∈ handled
  gone : ∀ body ∈ handled, ∀ x ∈ calls, idOf body = some x.1.str_id → ¬ Outstanding .new h x.1

theorem Tracks.distinctIds (ht : Tracks calls h w handled) (hd : Distinct calls) :
    DistinctIds h := hd.ids ht.regs

theorem Tracks.registered (ht : Tracks calls h w handled) {x : SharedContext × Frame}
    (hx : x ∈ calls) : ∃ a ∈ h, a.registers = some x.1 := by
  have hmem : x.1 ∈ h.filterMap Act.registers := by
    rw [ht.regs]
    exact List.mem_map_of_mem hx
  exact List.mem_filterMap.mp hmem

theorem distinctIds_snoc (hd : DistinctIds h) (hr : a.registers = none) :
    DistinctIds (h ++ [a]) := by
  unfold DistinctIds
  rw [List.filterMap_append, List.filterMap_cons_none hr, List.filterMap_nil, List.append_nil]
  exact hd

theorem Tracks.snoc (ht : Tracks calls h w handled) (hd : Distinct calls)
    (hr : a.registers = none) (hs : ClientWorker.step .new w a = some (.ok v))
    {more : List Bytes} (hreceived : ∀ body, a = .receive body → body ∈ more)
    (hgone : ∀ body ∈ more, body ∈ handled ∨ a = .receive body) (hmore : handled ⊆ more) :
    Tracks calls (h ++ [a]) v more where
  regs := by
    rw [List.filterMap_append, List.filterMap_cons_none hr, List.filterMap_nil, List.append_nil]
    exact ht.regs
  inv := ht.inv.step (distinctIds_snoc (ht.distinctIds hd) hr) hs
  finished := ht.finished.step ht.inv hs
  received body hb := by
    rcases List.mem_append.mp hb with hb | hb
    · exact hmore (ht.received body hb)
    · exact hreceived body (List.mem_singleton.mp hb).symm
  gone body hb x hx hid := by
    rcases hgone body hb with hold | rfl
    · exact ClientWorker.not_outstanding_snoc (distinctIds_snoc (ht.distinctIds hd) hr)
        (ht.registered hx) (ht.gone body hold x hx hid)
    · rw [ClientWorker.outstanding_snoc_of_ne (by simp)]
      rintro (hreg | ⟨-, hno⟩)
      · cases hreg
      · exact hno (removes_receive.mpr hid)

theorem Tracks.receive (ht : Tracks calls h w handled) (hd : Distinct calls) {shutdown : Bool}
    (hm : w.handleThriftMsg .new body = .ok (v, shutdown)) :
    Tracks calls (h ++ [.receive body]) v (handled ++ [body]) := by
  refine ht.snoc hd rfl ?_ ?_ ?_ (List.subset_append_left _ _)
  · show some ((w.handleThriftMsg .new body).map Prod.fst) = _
    rw [hm]
    rfl
  · intro b hb
    cases hb
    exact List.mem_append_right _ List.mem_cons_self
  · intro b hb
    rcases List.mem_append.mp hb with hb | hb
    · exact .inl hb
    · rw [List.mem_singleton.mp hb]
      exact .inr rfl

theorem Tracks.handleAll (ht : Tracks calls h w handled) (hd : Distinct calls)
    {bodies : List Bytes} {m n : Nat}
    (hall : ClientConn.handleAll .new (w, m) bodies = .ok (v, n)) :
    Tracks calls (h ++ bodies.map .receive) v (handled ++ bodies) := by
  induction bodies generalizing h w handled m with
  | nil =>
    cases hall
    rw [List.map_nil, List.append_nil, List.append_nil]
    exact ht
  | cons body bodies ih =>
    obtain ⟨⟨u, shutdown⟩, hu, hrest⟩ := bind_eq_ok hall
    have hone := ht.receive hd hu
    have hlater := ih hone hrest
    rw [List.append_assoc, List.append_assoc] at hlater
    exact hlater

/-- A new request: no frame with its id has come. -/
theorem Tracks.call (ht : Tracks calls h w handled) {request : Frame}
    (hd : Distinct (calls ++ [(c, request)]))
    (hfresh : ∀ body ∈ handled, idOf body ≠ some c.str_id)
    (hs : ClientWorker.step .new w (register c) = some (.ok v)) :
    Tracks (calls ++ [(c, request)]) (h ++ [register c]) v handled := by
  have hr : (register c).registers = some c := by
    unfold register
    split
    · rfl
    · rfl
  have hregs : (h ++ [register c]).filterMap Act.registers =
      (calls ++ [(c, request)]).map Prod.fst := by
    rw [List.filterMap_append, List.filterMap_cons_some hr, ht.regs, List.map_append]
    rfl
  have hids : DistinctIds (h ++ [register c]) := hd.ids hregs
  refine ⟨hregs, ht.inv.step hids hs, ht.finished.step ht.inv hs, ?_, ?_⟩
  · intro body hb
    rcases List.mem_append.mp hb with hb | hb
    · exact ht.received body hb
    · have he := List.mem_singleton.mp hb
      unfold register at he
      split at he
      · cases he
      · cases he
  · intro body hb x hx hid
    rcases List.mem_append.mp hx with hx | hx
    · exact ClientWorker.not_outstanding_snoc hids (ht.registered hx) (ht.gone body hb x hx hid)
    · rw [List.mem_singleton.mp hx] at hid
      exact absurd hid (hfresh body hb)

/-! ### Both ends -/

variable {s t : Link}

/-- At both ends, what has arrived and what is under way are what was sent. A server whose
connection has left the wheel only keeps what arrives. -/
structure Kept (s : Link) : Prop where
  toServer : ∃ got held, s.server.processed.map Prod.snd = framing.frames got ∧
    s.server.Remains (framing.rest got ++ held) ∧
    (s.server.kicks < kI8TimeWheelGridNum → held = []) ∧
    got ++ held ++ s.requests = stream (s.calls.map Prod.snd)
  toClient : ∃ got, s.client.handled = framing.frames got ∧
    s.client.Remains (framing.rest got) ∧ got ++ s.responses = stream (s.answers.map Prod.snd)

structure LinkInv (s : Link) : Prop where
  distinct : Distinct s.calls
  ids : ∀ x ∈ s.calls, idOf x.2.body = some x.1.str_id
  tracks : Tracks s.calls s.history s.client.worker s.client.handled
  kept : s.Kept
  echoes : ∀ x ∈ s.answers, idOf x.2.body = idOf x.1
  ran : ∀ x ∈ s.answers, ∃ worker, x.1 ∈ (s.functors worker).take (s.ran worker)
  once : (s.answers.map Prod.fst).Nodup

theorem new_inv : new.LinkInv where
  distinct := List.Pairwise.nil
  ids _ hx := by cases hx
  tracks := {
    regs := rfl
    inv := ClientWorker.inv_new .new
    finished := {
      expired := fun _ hobj => by cases hobj
      ends := fun _ hc => by
        obtain ⟨_, ha, -⟩ := hc
        cases ha }
    received := fun _ hb => by cases hb
    gone := fun _ hb => by cases hb }
  kept := {
    toServer := ⟨[], [], rfl, ⟨_, rfl, (Buffer.contents_eq_nil _).mpr rfl⟩, fun _ => rfl, rfl⟩
    toClient := ⟨[], rfl, ClientConn.remains_start .new, rfl⟩ }
  echoes _ hx := by cases hx
  ran _ hx := by cases hx
  once := List.nodup_nil

theorem frames_of_stream {fs : List Frame} {got later : Bytes} (h : got ++ later = stream fs) :
    framing.frames got <+: fs.map Frame.body := by
  obtain ⟨done, todo, hfs, hframes, -⟩ := split_stream fs (show got <+: stream fs from ⟨later, h⟩)
  rw [hframes, hfs, List.map_append]
  exact List.prefix_append _ _

theorem Kept.processed_prefix (hk : s.Kept) :
    s.server.processed.map Prod.snd <+: s.calls.map fun x => x.2.body := by
  obtain ⟨got, held, hproc, -, -, hwire⟩ := hk.toServer
  rw [List.append_assoc] at hwire
  have hp := frames_of_stream hwire
  rw [hproc]
  rwa [List.map_map] at hp

theorem Kept.handled_prefix (hk : s.Kept) :
    s.client.handled <+: s.answers.map fun x => x.2.body := by
  obtain ⟨got, hhandled, -, hwire⟩ := hk.toClient
  have hp := frames_of_stream hwire
  rw [hhandled]
  rwa [List.map_map] at hp

theorem LinkInv.bodies_nodup (hi : s.LinkInv) : (s.calls.map fun x => x.2.body).Nodup := by
  have hpair := List.pairwise_map.mp hi.distinct
  refine List.pairwise_map.mpr (hpair.imp_of_mem ?_)
  intro x y hx hy hne hbody
  have hid := hi.ids x hx
  rw [hbody, hi.ids y hy] at hid
  exact hne (Option.some.inj hid).symm

theorem LinkInv.processed_nodup (hi : s.LinkInv) : (s.server.processed.map Prod.snd).Nodup :=
  hi.bodies_nodup.sublist hi.kept.processed_prefix.sublist

theorem mem_functors {worker : Nat} {request : Bytes} :
    request ∈ s.functors worker ↔ (worker, request) ∈ s.server.processed := by
  unfold functors
  rw [List.mem_map]
  constructor
  · rintro ⟨⟨u, q⟩, hx, rfl⟩
    obtain ⟨hmem, hu⟩ := List.mem_filter.mp hx
    have hw : u = worker := of_decide_eq_true hu
    rw [← hw]
    exact hmem
  · intro hmem
    exact ⟨_, List.mem_filter.mpr ⟨hmem, decide_eq_true rfl⟩, rfl⟩

theorem LinkInv.call_of_functor (hi : s.LinkInv) {worker : Nat} {request : Bytes}
    (hr : request ∈ s.functors worker) : ∃ x ∈ s.calls, x.2.body = request := by
  have hmem : request ∈ s.server.processed.map Prod.snd :=
    List.mem_map_of_mem (mem_functors.mp hr)
  exact List.mem_map.mp (hi.kept.processed_prefix.subset hmem)

theorem LinkInv.call_of_answer (hi : s.LinkInv) {x : Bytes × Frame} (hx : x ∈ s.answers) :
    ∃ y ∈ s.calls, y.2.body = x.1 ∧ idOf x.2.body = some y.1.str_id := by
  obtain ⟨worker, hw⟩ := hi.ran x hx
  obtain ⟨y, hy, hbody⟩ := hi.call_of_functor (List.mem_of_mem_take hw)
  refine ⟨y, hy, hbody, ?_⟩
  rw [hi.echoes x hx, ← hbody]
  exact hi.ids y hy

theorem LinkInv.call_of_handled (hi : s.LinkInv) (hb : body ∈ s.client.handled) :
    ∃ x ∈ s.answers, x.2.body = body ∧ ∃ y ∈ s.calls, y.2.body = x.1 ∧
      idOf body = some y.1.str_id := by
  obtain ⟨x, hx, rfl⟩ := List.mem_map.mp (hi.kept.handled_prefix.subset hb)
  obtain ⟨y, hy, hbody, hid⟩ := hi.call_of_answer hx
  exact ⟨x, hx, rfl, y, hy, hbody, hid⟩

theorem Distinct.eq_of_id (hd : Distinct calls) {x y : SharedContext × Frame} (hx : x ∈ calls)
    (hy : y ∈ calls) (he : x.1.str_id = y.1.str_id) : x = y :=
  List.inj_on_of_nodup_map hd hx hy he

/-! ### What each action does -/

theorem LinkInv.act (hi : s.LinkInv) (hr : a.registers = none) (hne : ∀ body, a ≠ .receive body)
    (hs : ClientWorker.step .new s.client.worker a = some (.ok w)) : (s.act a w).LinkInv where
  distinct := hi.distinct
  ids := hi.ids
  tracks := hi.tracks.snoc hi.distinct hr hs (fun body he => absurd he (hne body))
    (fun _ hb => .inl hb) (List.Subset.refl _)
  kept := ⟨hi.kept.toServer, hi.kept.toClient⟩
  echoes := hi.echoes
  ran := hi.ran
  once := hi.once

theorem stream_snoc (fs : List Frame) (f : Frame) : stream (fs ++ [f]) = stream fs ++ f.wire := by
  unfold stream
  rw [List.flatMap_append, List.flatMap_singleton]

theorem LinkInv.call (hi : s.LinkInv) {request : Frame}
    (hid : idOf request.body = some c.str_id) (hnew : ∀ x ∈ s.calls, x.1.str_id ≠ c.str_id) :
    (s.call c request).LinkInv := by
  unfold Link.call
  split
  · exact hi
  · have hd : Distinct (s.calls ++ [(c, request)]) := by
      unfold Distinct
      rw [List.map_append, List.nodup_append]
      refine ⟨hi.distinct, List.nodup_singleton _, ?_⟩
      intro i hmem j hj he
      obtain ⟨x, hx, rfl⟩ := List.mem_map.mp hmem
      rw [List.mem_singleton.mp hj] at he
      exact hnew x hx he
    have hfresh : ∀ body ∈ s.client.handled, idOf body ≠ some c.str_id := by
      intro body hb he
      obtain ⟨-, -, -, y, hy, -, hyid⟩ := hi.call_of_handled hb
      exact hnew y hy (Option.some.inj (hyid.symm.trans he))
    refine ⟨hd, ?_, ?_, ⟨?_, hi.kept.toClient⟩, hi.echoes, hi.ran, hi.once⟩
    · intro x hx
      rcases List.mem_append.mp hx with hx | hx
      · exact hi.ids x hx
      · rw [List.mem_singleton.mp hx]
        exact hid
    · refine hi.tracks.call hd hfresh ?_
      unfold register
      split
      · rfl
      · rfl
    · obtain ⟨got, held, hproc, hrem, hheld, hwire⟩ := hi.kept.toServer
      refine ⟨got, held, hproc, hrem, hheld, ?_⟩
      show got ++ held ++ (s.requests ++ request.wire) = stream ((s.calls ++ [_]).map Prod.snd)
      rw [List.map_append, ← List.append_assoc, hwire]
      exact (stream_snoc _ _).symm

theorem LinkInv.clientReceive (hi : s.LinkInv) {n : Nat} {x : Except LinkFault Link}
    (hx : s.clientReceive n = some x) : ∃ t, x = .ok t ∧ t.LinkInv := by
  obtain ⟨got, hhandled, hrem, hwire⟩ := hi.kept.toClient
  obtain ⟨hframes, hrest⟩ := framing.split_append got (s.responses.take n)
  have hwire' : got ++ s.responses.take n ++ s.responses.drop n =
      stream (s.answers.map Prod.snd) := by
    rw [List.append_assoc, List.take_append_drop]
    exact hwire
  have hread : ∀ body ∈ framing.frames (framing.rest got ++ s.responses.take n),
      CthriftTBinaryProtocol.new.Readable body := by
    intro body hb
    have hmem : body ∈ framing.frames (got ++ s.responses.take n) := by
      rw [hframes]
      exact List.mem_append_right _ hb
    have hans := (frames_of_stream hwire').subset hmem
    rw [List.map_map] at hans
    obtain ⟨y, hy, rfl⟩ := List.mem_map.mp hans
    obtain ⟨z, -, -, hid⟩ := hi.call_of_answer hy
    obtain ⟨id, hok, -⟩ := idOf_eq_some.mp hid
    exact (CthriftTBinaryProtocol.getSeqID_returns_iff _ _).mp ⟨id, hok⟩
  obtain ⟨r, hr⟩ := (ClientConn.handleAll_returns_iff
    (s.client.worker, s.client.shutdowns) _).mpr hread
  have hspec := ClientConn.receive_spec (p := .new) [s.responses.take n] s.client
    (framing.rest got) hrem (framing.front_rest got)
  rw [List.flatten_singleton, hr] at hspec
  obtain ⟨client, hclient, hworker, -, hh, hr'⟩ := hspec
  have hstep : s.clientReceive n = some (.ok { s with
      client := client
      history := s.history ++ s.fresh client
      responses := s.responses.drop n }) := by
    unfold Link.clientReceive
    rw [hclient]
  cases hstep.symm.trans hx
  have hfresh : s.fresh client =
      (framing.frames (framing.rest got ++ s.responses.take n)).map .receive := by
    unfold fresh
    rw [hh, List.drop_left]
  refine ⟨_, rfl, hi.distinct, hi.ids, ?_, ⟨hi.kept.toServer, got ++ s.responses.take n, ?_, ?_,
    hwire'⟩, hi.echoes, hi.ran, hi.once⟩
  · show Tracks s.calls (s.history ++ s.fresh client) client.worker client.handled
    rw [hfresh, hh, hworker]
    exact hi.tracks.handleAll hi.distinct hr
  · rw [hframes, hh, hhandled]
  · rw [hrest]
    exact hr'

theorem take_functors (hp : s.server.processed <+: t.server.processed) (worker n : Nat) :
    (s.functors worker).take n ⊆ (t.functors worker).take n := by
  have hf : s.functors worker <+: t.functors worker := (hp.filter _).map _
  obtain ⟨later, hlater⟩ := hf
  rw [← hlater, List.take_append]
  exact List.subset_append_left _ _

theorem reached_eq {before : Bytes} {n : Nat}
    (h : before ++ s.requests = stream (s.calls.map Prod.snd)) :
    s.reached n = before ++ s.requests.take n := by
  have hsplit : before ++ s.requests.take n ++ s.requests.drop n =
      stream (s.calls.map Prod.snd) := by
    rw [List.append_assoc, List.take_append_drop]
    exact h
  have hlen := congrArg List.length hsplit
  rw [List.length_append] at hlen
  unfold reached
  rw [← hsplit]
  refine List.take_left' ?_
  rw [hsplit, ← hlen, Nat.add_sub_cancel_right]

theorem LinkInv.serverReceive {num : Int} (hn : 1 ≤ num) (hi : s.LinkInv) {n : Nat}
    (hb : s.AtBoundary n) {x : Except LinkFault Link} (hx : s.serverReceive num n = some x) :
    ∃ t, x = .ok t ∧ t.LinkInv := by
  obtain ⟨got, held, hproc, hrem, hheld, hwire⟩ := hi.kept.toServer
  have hreached := reached_eq (n := n) hwire
  obtain ⟨b, happ, -⟩ := s.server.buffer.append_spec (s.requests.take n)
  have hends : ∃ server, SvrConn.onMsg num (b.readableBytes + 2) { s.server with buffer := b } =
      .ok (some server) := by
    by_cases hk : s.server.kicks < kI8TimeWheelGridNum
    · have hshort := hb hk
      rw [hreached, hheld hk, List.append_nil] at hshort
      rw [hheld hk, List.append_nil] at hrem
      exact (SvrConn.onMsg_ends_iff hn hk hproc hrem happ).mpr hshort
    · exact ⟨_, SvrConn.onMsg_expired hk hrem⟩
  obtain ⟨server, hcall⟩ := hends
  have hreturns : SvrConn.Returns num s.server (s.requests.take n) server := ⟨b, _, happ, hcall⟩
  have hmore : s.server.processed <+: server.processed :=
    SvrConn.onMsg_processed (s := { s.server with buffer := b }) hcall
  have hwire' (now : Bytes) (hnow : now = got ++ held ++ s.requests.take n) :
      now ++ s.requests.drop n = stream (s.calls.map Prod.snd) := by
    rw [hnow, List.append_assoc, List.take_append_drop]
    exact hwire
  unfold Link.serverReceive at hx
  simp only [happ, hcall] at hx
  cases hx
  refine ⟨_, rfl, hi.distinct, hi.ids, hi.tracks, ⟨?_, hi.kept.toClient⟩, hi.echoes, ?_, hi.once⟩
  · by_cases hk : s.server.kicks < kI8TimeWheelGridNum
    · have hnil := hheld hk
      rw [hnil, List.append_nil] at hrem
      obtain ⟨-, hafter⟩ := SvrConn.returns_iff num (s.requests.take n) hk hproc hrem
      obtain ⟨htp, htr, -⟩ := hafter server hreturns
      refine ⟨got ++ s.requests.take n, [], htp, ?_, fun _ => rfl, ?_⟩
      · rw [List.append_nil]
        exact htr
      · refine hwire' _ ?_
        rw [hnil, List.append_nil, List.append_nil]
    · obtain ⟨-, hafter⟩ := SvrConn.returns_expired num (s.requests.take n) hk hrem
      obtain ⟨htp, htk, htr⟩ := hafter server hreturns
      refine ⟨got, held ++ s.requests.take n, ?_, ?_, ?_, ?_⟩
      · rw [htp]
        exact hproc
      · rw [← List.append_assoc]
        exact htr
      · intro hlt
        rw [htk] at hlt
        exact absurd hlt hk
      · refine hwire' _ ?_
        rw [List.append_assoc]
  · intro y hy
    obtain ⟨worker, hw⟩ := hi.ran y hy
    exact ⟨worker, take_functors (t := { s with server := server }) hmore worker _ hw⟩

theorem LinkInv.hangs {num : Int} (hn : 1 ≤ num) (hi : s.LinkInv) {n : Nat}
    (hb : ¬ s.AtBoundary n) : s.serverReceive num n = some (.error .hangs) := by
  obtain ⟨got, held, hproc, hrem, hheld, hwire⟩ := hi.kept.toServer
  obtain ⟨hk, hlong⟩ := Classical.not_imp.mp hb
  rw [reached_eq hwire, hheld hk, List.append_nil] at hlong
  rw [hheld hk, List.append_nil] at hrem
  obtain ⟨b, happ, -⟩ := s.server.buffer.append_spec (s.requests.take n)
  have hends := SvrConn.onMsg_ends_iff hn hk hproc hrem happ
  unfold Link.serverReceive
  simp only [happ]
  cases hcall : SvrConn.onMsg num (b.readableBytes + 2) { s.server with buffer := b } with
  | error f => exact absurd hcall (SvrConn.onMsg_ne_error hn f)
  | ok r =>
    cases r with
    | none => rfl
    | some server => exact absurd (hends.mp ⟨server, hcall⟩) hlong

theorem ran_mono (ran : Nat → Nat) (worker u : Nat) :
    ran u ≤ Function.update ran worker (ran worker + 1) u := by
  by_cases hu : u = worker
  · rw [hu, Function.update_self]
    exact Nat.le_succ _
  · rw [Function.update_of_ne hu]

theorem LinkInv.unanswered (hi : s.LinkInv) {worker : Nat} {request : Bytes}
    (hr : (s.functors worker)[s.ran worker]? = some request) :
    request ∉ s.answers.map Prod.fst := by
  intro hm
  obtain ⟨x, hx, rfl⟩ := List.mem_map.mp hm
  obtain ⟨u, hu⟩ := hi.ran x hx
  have hmem := mem_functors.mp (List.mem_of_mem_take hu)
  have hmem' := mem_functors.mp (List.mem_of_getElem? hr)
  have hsame := List.inj_on_of_nodup_map hi.processed_nodup hmem hmem' rfl
  cases hsame
  have hnodup : (s.functors worker).Nodup :=
    hi.processed_nodup.sublist ((List.filter_sublist).map _)
  obtain ⟨i, hlt, hget⟩ := List.mem_take_iff_getElem.mp hu
  obtain ⟨hlt', hget'⟩ := List.getElem?_eq_some_iff.mp hr
  have heq := (hnodup.getElem_inj_iff).mp (hget.trans hget'.symm)
  omega

theorem LinkInv.process (hi : s.LinkInv) {worker : Nat} {request : Bytes} {response : Option Frame}
    (hr : (s.functors worker)[s.ran worker]? = some request)
    (hecho : ∀ f ∈ response, idOf f.body = idOf request) :
    (s.process worker request response).LinkInv := by
  have hran (x : Bytes × Frame) (hx : x ∈ s.answers) : ∃ u, x.1 ∈ (s.functors u).take
      (Function.update s.ran worker (s.ran worker + 1) u) := by
    obtain ⟨u, hu⟩ := hi.ran x hx
    exact ⟨u, List.take_subset_take_left _ (ran_mono s.ran worker u) hu⟩
  have hidle : LinkInv { s with ran := Function.update s.ran worker (s.ran worker + 1) } :=
    ⟨hi.distinct, hi.ids, hi.tracks, ⟨hi.kept.toServer, hi.kept.toClient⟩, hi.echoes, hran, hi.once⟩
  unfold Link.process
  split
  · exact hidle
  · cases response with
    | none => exact hidle
    | some f =>
      simp only
      split
      · exact hidle
      · refine ⟨hi.distinct, hi.ids, hi.tracks, ⟨hi.kept.toServer, ?_⟩, ?_, ?_, ?_⟩
        · obtain ⟨got, hhandled, hrem, hwire⟩ := hi.kept.toClient
          refine ⟨got, hhandled, hrem, ?_⟩
          show got ++ (s.responses ++ f.wire) = stream ((s.answers ++ [_]).map Prod.snd)
          rw [List.map_append, ← List.append_assoc, hwire]
          exact (stream_snoc _ _).symm
        · intro x hx
          rcases List.mem_append.mp hx with hx | hx
          · exact hi.echoes x hx
          · rw [List.mem_singleton.mp hx]
            exact hecho f rfl
        · intro x hx
          rcases List.mem_append.mp hx with hx | hx
          · exact hran x hx
          · rw [List.mem_singleton.mp hx]
            refine ⟨worker, ?_⟩
            show request ∈ (s.functors worker).take (Function.update s.ran worker _ worker)
            rw [Function.update_self]
            refine List.mem_of_getElem? (i := s.ran worker) ?_
            rw [List.getElem?_take_of_lt (Nat.lt_succ_self _)]
            exact hr
        · rw [List.map_append, List.nodup_append]
          refine ⟨hi.once, List.nodup_singleton _, ?_⟩
          intro q hq q' hq' he
          rw [he, List.mem_singleton.mp hq'] at hq
          exact hi.unanswered hr hq

theorem LinkInv.step {num : Int} (hn : 1 ≤ num) (hi : s.LinkInv) {a : LinkAct} (hp : s.Proper a)
    {x : Except LinkFault Link} (hx : Link.step num s a = some x) : ∃ t, x = .ok t ∧ t.LinkInv := by
  cases a with
  | call c request =>
    simp only [Link.step] at hx
    split at hx
    · cases hx
      exact ⟨_, rfl, hi.call hp.1 hp.2⟩
    · cases hx
  | clientReceive n => exact hi.clientReceive hx
  | giveUp obj =>
    cases hx
    exact ⟨_, rfl, hi.act (a := .giveUp obj) rfl (fun _ he => by cases he) rfl⟩
  | delContextMapByID str_id =>
    cases hx
    exact ⟨_, rfl, hi.act (a := .delContextMapByID str_id) rfl (fun _ he => by cases he) rfl⟩
  | timewheelKick =>
    cases hx
    exact ⟨_, rfl, hi.act (a := .timewheelKick) rfl (fun _ he => by cases he) rfl⟩
  | asyncCallback =>
    simp only [Link.step] at hx
    split at hx
    · cases hx
    next f later hc =>
      cases hx
      refine ⟨_, rfl, hi.act (a := .asyncCallback) rfl (fun _ he => by cases he) ?_⟩
      unfold ClientWorker.step
      rw [hc]
  | serverReceive n => exact hi.serverReceive hn hp hx
  | serverKick =>
    cases hx
    obtain ⟨got, held, hproc, hrem, hheld, hwire⟩ := hi.kept.toServer
    refine ⟨_, rfl, hi.distinct, hi.ids, hi.tracks, ⟨⟨got, held, hproc, hrem, ?_, hwire⟩,
      hi.kept.toClient⟩, hi.echoes, hi.ran, hi.once⟩
    exact fun hk => hheld (Nat.lt_of_succ_lt hk)
  | initWorkerThreadPos =>
    cases hx
    exact ⟨_, rfl, hi.distinct, hi.ids, hi.tracks, ⟨hi.kept.toServer, hi.kept.toClient⟩,
      hi.echoes, hi.ran, hi.once⟩
  | process worker response =>
    obtain ⟨request, hr, rfl⟩ := Option.map_eq_some_iff.mp hx
    refine ⟨_, rfl, hi.process hr ?_⟩
    intro f hf
    cases hf
    exact hp request hr
  | down =>
    cases hx
    exact ⟨_, rfl, hi.distinct, hi.ids, hi.tracks, ⟨hi.kept.toServer, hi.kept.toClient⟩,
      hi.echoes, hi.ran, hi.once⟩

/-! ### Runs -/

/-- Every request reaches a worker loop once and in order, and is answered at most once;
responses come back in the order in which they were sent. A call is completed at most once,
and with a response to its own request. Where everything has arrived, every request has been
handed on, and every call whose request was answered has been completed, unless it was
dropped. -/
structure Sound (s : Link) : Prop where
  processed : s.server.processed.map Prod.snd <+: s.calls.map fun x => x.2.body
  once : (s.answers.map Prod.fst).Nodup
  handled : s.client.handled <+: s.answers.map fun x => x.2.body
  completed : (s.client.worker.completed.map Completion.context).Nodup
  own : ∀ k ∈ s.client.worker.completed, ∃ request response, (k.context, request) ∈ s.calls ∧
    (request.body, response) ∈ s.answers ∧ response.body = k.body
  arrived : s.requests = [] → s.server.kicks < kI8TimeWheelGridNum →
    s.server.processed.map Prod.snd = s.calls.map fun x => x.2.body
  returned : s.responses = [] → ∀ c request response, (c, request) ∈ s.calls →
    (request.body, response) ∈ s.answers →
    (∃ k ∈ s.client.worker.completed, k.context = c ∧ k.body = response.body) ∨
      ClientWorker.Dropped s.history c

theorem frames_stream (fs : List Frame) : framing.frames (stream fs) = fs.map Frame.body := by
  obtain ⟨done, todo, hfs, hframes, hxs, hnext⟩ := split_stream fs (List.prefix_refl _)
  rcases hnext with ⟨rfl, -⟩ | ⟨f, later, rfl, -, hlt⟩
  · rw [hframes, hfs, List.append_nil]
  · have hlen := congrArg List.length hxs
    rw [hfs] at hlen hlt
    unfold stream at hlen hlt
    rw [List.flatMap_append, List.flatMap_cons] at hlen hlt
    simp only [List.length_append] at hlen
    omega

theorem LinkInv.own (hi : s.LinkInv) {k : Completion} (hk : k ∈ s.client.worker.completed) :
    ∃ request response, (k.context, request) ∈ s.calls ∧ (request.body, response) ∈ s.answers ∧
      response.body = k.body := by
  obtain ⟨hseq, hpos, hid, hrecv⟩ := hi.tracks.inv.completed.own k hk
  obtain ⟨⟨q, response⟩, hx, hbody, ⟨d, request⟩, hy, hq, hdid⟩ :=
    hi.call_of_handled (hi.tracks.received _ hrecv)
  have hsame : idOf k.body = some k.context.str_id := idOf_eq_some.mpr ⟨_, hseq, hpos, hid⟩
  obtain ⟨b, hb, hreg⟩ := (hi.tracks.inv.completed.done k hk).1
  have hmem : k.context ∈ s.history.filterMap Act.registers := List.mem_filterMap.mpr ⟨b, hb, hreg⟩
  rw [hi.tracks.regs] at hmem
  obtain ⟨z, hz, hzc⟩ := List.mem_map.mp hmem
  have heq : z = (d, request) := by
    refine hi.distinct.eq_of_id hz hy ?_
    rw [hzc]
    exact Option.some.inj (hsame.symm.trans hdid)
  refine ⟨request, response, ?_, ?_, hbody⟩
  · rw [← hzc, heq]
    exact hy
  · rw [show request.body = q from hq]
    exact hx

theorem LinkInv.arrived (hi : s.LinkInv) (hr : s.requests = [])
    (hk : s.server.kicks < kI8TimeWheelGridNum) :
    s.server.processed.map Prod.snd = s.calls.map fun x => x.2.body := by
  obtain ⟨got, held, hproc, -, hheld, hwire⟩ := hi.kept.toServer
  rw [hheld hk, hr, List.append_nil, List.append_nil] at hwire
  rw [hproc, hwire, frames_stream, List.map_map]
  rfl

theorem LinkInv.returned (hi : s.LinkInv) (hr : s.responses = []) {request response : Frame}
    (hc : (c, request) ∈ s.calls) (ha : (request.body, response) ∈ s.answers) :
    (∃ k ∈ s.client.worker.completed, k.context = c ∧ k.body = response.body) ∨
      ClientWorker.Dropped s.history c := by
  obtain ⟨got, hhandled, -, hwire⟩ := hi.kept.toClient
  rw [hr, List.append_nil] at hwire
  have hmem : response.body ∈ s.client.handled := by
    rw [hhandled, hwire, frames_stream]
    exact List.mem_map_of_mem (List.mem_map_of_mem ha)
  have hid : idOf response.body = some c.str_id := (hi.echoes _ ha).trans (hi.ids _ hc)
  rcases hi.tracks.finished.ends c (hi.tracks.registered hc) with ho | ⟨k, hk, rfl⟩ | hd
  · exact absurd ho (hi.tracks.gone _ hmem _ hc hid)
  · refine .inl ⟨k, hk, rfl, ?_⟩
    -- the response is the only one to that request
    obtain ⟨request', response', hc', ha', hbody⟩ := hi.own hk
    have hcall := hi.distinct.eq_of_id hc' hc rfl
    cases hcall
    have hans := List.inj_on_of_nodup_map hi.once ha' ha rfl
    cases hans
    exact hbody.symm
  · exact .inr hd

theorem LinkInv.sound (hi : s.LinkInv) : s.Sound where
  processed := hi.kept.processed_prefix
  once := hi.once
  handled := hi.kept.handled_prefix
  completed := hi.tracks.inv.completed.once
  own _ hk := hi.own hk
  arrived := hi.arrived
  returned hr _ _ _ hc ha := hi.returned hr hc ha

def echo (messageType : Byte) (id : BitVec 32) : Frame where
  body := [128, 1, 0, messageType, 0, 0, 0, 4, 101, 99, 104, 111] ++ hostToNetwork32 id
  fits := by
    rw [List.length_append, length_hostToNetwork32]
    show 12 + 4 < 2 ^ 31
    decide

/- Three calls on two worker loops: the second one is answered first, and its response arrives
in two pieces; the first one times out before its response is there. -/
def threeCalls : List LinkAct :=
  [.call ⟨0, "7", false⟩ (echo 1 7), .call ⟨1, "8", true⟩ (echo 1 8), .serverReceive 40,
    .process 1 (some (echo 2 8)), .clientReceive 13, .giveUp 0, .delContextMapByID "7",
    .process 0 (some (echo 2 7)), .clientReceive 27, .call ⟨2, "9", false⟩ (echo 1 9),
    .serverReceive 20, .process 0 (some (echo 2 9)), .clientReceive 20, .asyncCallback]

/- The first piece ends in the body of the request. -/
example : (machine 1).run new [.call ⟨0, "7", false⟩ (echo 1 7), .serverReceive 10] =
    some (.error .hangs) :=
  Machine.run_of_failsWith (by decide +kernel)

end Link

end TstMuduo.Cthrift
