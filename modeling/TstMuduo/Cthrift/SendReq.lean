import TstMuduo.Cthrift.ChooseConn

/-!
# Sending a request (cthrift/cthrift_client_worker.cc)

`SendTransportReq` sends a synchronous request and `AsyncSendReq` an asynchronous one. Both get
the bytes from a function of the shared context, choose a connection and register the context
after they have sent.
-/

namespace TstMuduo.Cthrift
open TstMuduo.Lib TstMuduo.Net

variable {D : Type} [Double D]

/-- The context of a request with its buffers: a missing write buffer is a transport that is
gone. A `TMemoryBuffer` counts its bytes in a `uint32_t`. -/
structure Request where
  context : SharedContext
  sp_write_tmembuf : Option TMemoryBuffer
  sp_send_tmembuf : Option TMemoryBuffer

/- `getBuffer` and the head and body that both functions append to the send buffer. -/
def frameOf (buf : TMemoryBuffer) : Option Bytes :=
  let u32_len : BitVec 32 := .ofNat 32 buf.unread.length
  if u32_len = 0 then none
  else some (hostToNetwork32 u32_len ++ buf.unread.take u32_len.toNat)

/- `GetWriteBuf` (`cthrift_transport.h:145`): the returned number, and the send buffer. -/
def Request.getWriteBuf (r : Request) : Int × Bytes :=
  match r.sp_write_tmembuf with
  | none => (-1, [])
  | some buf =>
    match frameOf buf with
    | none => (-1, [])
    | some send_buf => (0, send_buf)

/- `GetAsyncWriteBuf` (`cthrift_transport.h:126`): it returns 1 for success. -/
def Request.getAsyncWriteBuf (r : Request) : Int × Bytes :=
  match r.sp_send_tmembuf with
  | none => (-1, [])
  | some buf =>
    match frameOf buf with
    | none => (-1, [])
    | some send_buf => (1, send_buf)

inductive SendFault where
  | pool (e : PoolFault)
  | nullPointer
  deriving DecidableEq, Repr

/- The worker, with everything that a connected connection was given to send, by the number of
its client. -/
structure SendWorker (D : Type) where
  pool : SvrPool D
  worker : ClientWorker
  sent : List (Nat × Bytes)

namespace SendWorker

/- `TcpConnection::send(Buffer*)` drops the bytes unless it is connected. -/
def send (w : SendWorker D) (client : Nat) (conn : TcpConn) (send_buf : Bytes) : SendWorker D :=
  if conn.connected then { w with sent := w.sent ++ [(client, send_buf)] } else w

/- The common text of the two functions, after the send buffer was filled. -/
def sendBuf (w : SendWorker D) (rand1 rand2 : Nat) (send_buf : Bytes)
    (register : ClientWorker → ClientWorker) : Except SendFault (SendWorker D) :=
  match w.pool.chooseNextReadyConn rand1 rand2 with
  | .error e => .error (.pool e)
  | .ok (pool, ret, wp_tcpcli) =>
    let w := { w with pool := pool }
    if ret ≠ 0 then .ok w
    else
      match pool.lock wp_tcpcli with
      | none => .error .nullPointer
      | some client =>
        match pool.connection client with
        | none => .error .nullPointer
        | some conn =>
          match pool.map_ipport_spconninfo.lookup conn.ipport with
          | none => .ok w
          | some _ =>
            match conn.context with
            | .empty => .ok w
            | .other => .ok (w.send client conn send_buf)
            | .worker _ =>
              .ok { w.send client conn send_buf with worker := register w.worker }

/- `SendTransportReq` (`cthrift_client_worker.cc:931`). -/
def sendTransportReq (w : SendWorker D) (rand1 rand2 : Nat) (r : Request) :
    Except SendFault (SendWorker D) :=
  if 0 ≠ r.getWriteBuf.1 then .ok w
  else w.sendBuf rand1 rand2 r.getWriteBuf.2 fun worker => worker.registerSync r.context

/- `AsyncSendReq` (`cthrift_client_worker.cc:1056`). -/
def asyncSendReq (w : SendWorker D) (rand1 rand2 : Nat) (r : Request) :
    Except SendFault (SendWorker D) :=
  if 0 ≠ r.getAsyncWriteBuf.1 then .ok w
  else w.sendBuf rand1 rand2 r.getAsyncWriteBuf.2 fun worker => worker.registerAsync r.context

/-- A serialized request: its unread bytes are no more than a `TMemoryBuffer` holds. -/
structure Serialized where
  bytes : Bytes
  fits : bytes.length < 2 ^ 32

def Serialized.wire (b : Serialized) : Bytes :=
  hostToNetwork32 (.ofNat 32 b.bytes.length) ++ b.bytes

def Serialized.request (b : Serialized) (c : SharedContext) : Request where
  context := c
  sp_write_tmembuf := some ⟨b.bytes⟩
  sp_send_tmembuf := some ⟨b.bytes⟩

/-- The call has sent the request on the connection of the client, and nothing else, and the
context is registered under its id. -/
def SentOn (w : SendWorker D) (client : Nat) (c : SharedContext) (b : Serialized)
    (x : Except SendFault (SendWorker D)) : Prop :=
  ∃ t, x = .ok t ∧ t.sent = w.sent ++ [(client, b.wire)] ∧
    t.worker.map_id_sharedcontextsp = w.worker.map_id_sharedcontextsp.insert c.str_id c

def Idle (w : SendWorker D) (x : Except SendFault (SendWorker D)) : Prop :=
  ∃ t, x = .ok t ∧ t.sent = w.sent ∧
    t.worker.map_id_sharedcontextsp = w.worker.map_id_sharedcontextsp

/-- What both calls are to do with a request, if a client can be chosen. -/
def Agree (w : SendWorker D) (rand1 rand2 : Nat) (c : SharedContext) (b : Serialized) : Prop :=
  if b.bytes = [] then
    w.Idle (w.sendTransportReq rand1 rand2 (b.request c)) ∧
      w.Idle (w.asyncSendReq rand1 rand2 (b.request c))
  else ∀ pool client, w.pool.chooseNextReadyConn rand1 rand2 = .ok (pool, 0, some client) →
    w.SentOn client c b (w.sendTransportReq rand1 rand2 (b.request c)) ∧
      w.SentOn client c b (w.asyncSendReq rand1 rand2 (b.request c))

variable {w : SendWorker D} {b : Serialized}

theorem frameOf_empty (h : b.bytes = []) : frameOf ⟨b.bytes⟩ = none := by
  rw [h]
  rfl

theorem frameOf_nonempty (h : b.bytes ≠ []) : frameOf ⟨b.bytes⟩ = some b.wire := by
  have hpos : 0 < b.bytes.length := List.length_pos_of_ne_nil h
  have hnat : (BitVec.ofNat 32 b.bytes.length).toNat = b.bytes.length := by
    rw [BitVec.toNat_ofNat, Nat.mod_eq_of_lt b.fits]
  have hne : BitVec.ofNat 32 b.bytes.length ≠ 0 := by
    intro hz
    rw [hz] at hnat
    exact Nat.lt_irrefl _ (hnat ▸ hpos)
  simp only [frameOf, if_neg hne, hnat, List.take_length]
  rfl

theorem asyncSendReq_returns (w : SendWorker D) (rand1 rand2 : Nat) (r : Request) :
    w.asyncSendReq rand1 rand2 r = .ok w := by
  have hret : 0 ≠ r.getAsyncWriteBuf.1 := by
    unfold Request.getAsyncWriteBuf
    split
    · decide
    · split
      · decide
      · exact Int.zero_ne_one
  exact if_pos hret

theorem sendTransportReq_sends {rand1 rand2 client : Nat} {pool : SvrPool D} {conn : TcpConn}
    {info : ConnInfo D} {ctx : ConnContext4Worker} (hb : b.bytes ≠ [])
    (hchoose : w.pool.chooseNextReadyConn rand1 rand2 = .ok (pool, 0, some client))
    (halive : pool.lock (some client) = some client)
    (hconn : pool.connection client = some conn) (hup : conn.connected = true)
    (hknown : pool.map_ipport_spconninfo.lookup conn.ipport = some info)
    (hctx : conn.context = .worker ctx) (c : SharedContext) :
    w.SentOn client c b (w.sendTransportReq rand1 rand2 (b.request c)) := by
  have hbuf : (b.request c).getWriteBuf = (0, b.wire) := by
    simp only [Request.getWriteBuf, Serialized.request, frameOf_nonempty hb]
  simp only [sendTransportReq, hbuf, sendBuf, hchoose, halive, hconn, hknown, hctx, send, hup]
  exact ⟨_, rfl, rfl, rfl⟩

/-- In every state in which a connection can be chosen, the two calls do what they are to do
exactly with the empty request. -/
theorem sends_agree_iff_empty (w : SendWorker D) (rand1 rand2 : Nat) (pool : SvrPool D)
    (client : Nat) (c : SharedContext) (b : Serialized)
    (hchoose : w.pool.chooseNextReadyConn rand1 rand2 = .ok (pool, 0, some client)) :
    w.Agree rand1 rand2 c b ↔ b.bytes = [] := by
  unfold Agree
  split
  next hb =>
    apply iff_of_true _ hb
    refine ⟨⟨w, ?_, rfl, rfl⟩, ⟨w, asyncSendReq_returns w rand1 rand2 _, rfl, rfl⟩⟩
    simp only [sendTransportReq, Request.getWriteBuf, Serialized.request, frameOf_empty hb]
    rfl
  next hb =>
    apply iff_of_false _ hb
    intro hagree
    obtain ⟨-, t, ht, hsent, -⟩ := hagree pool client hchoose
    rw [asyncSendReq_returns] at ht
    cases ht
    exact absurd (List.append_right_eq_self.mp hsent.symm) (List.cons_ne_nil _ _)

/- A worker with one connection that is ready. -/
def sampleWorker : SendWorker Rat where
  pool := {
    map_ipport_sgservice := ∅
    map_ipport_spconninfo := (∅ : AList fun _ : String => ConnInfo Rat).insert "10.0.0.1:9000"
      ⟨SvrPool.sampleService "10.0.0.1" 9000, some 0, some 0⟩
    weights := Multimap.empty.insert weightSort 10 (some 0)
    clients := 1
    connection := fun _ => some ⟨"10.0.0.1", 9000, true, .worker .new⟩ }
  worker := .new
  sent := []

def sampleContext : SharedContext := ⟨0, "7", true⟩

theorem sampleWorker_chooses :
    ∃ pool, sampleWorker.pool.chooseNextReadyConn 7 7 = .ok (pool, 0, some 0) := by
  have hret : (sampleWorker.pool.chooseNextReadyConn 7 7).toOption.map Prod.snd =
      some (0, some 0) := by
    decide +kernel
  cases hx : sampleWorker.pool.chooseNextReadyConn 7 7 with
  | error e =>
    rw [hx] at hret
    cases hret
  | ok x =>
    rw [hx] at hret
    exact ⟨x.1, by rw [← Option.some.inj hret]⟩

theorem sends_agree_sample :
    (∃ pool, sampleWorker.pool.chooseNextReadyConn 7 7 = .ok (pool, 0, some 0)) ∧
      sampleWorker.Agree 7 7 sampleContext ⟨[], by decide⟩ := by
  obtain ⟨pool, hpool⟩ := sampleWorker_chooses
  exact ⟨⟨pool, hpool⟩,
    (sends_agree_iff_empty sampleWorker 7 7 pool 0 sampleContext ⟨[], by decide⟩ hpool).mpr rfl⟩

/-- A request of three bytes is not sent by the asynchronous call. -/
theorem asyncSendReq_drops :
    ¬ sampleWorker.Agree 7 7 sampleContext ⟨[1, 2, 3], by decide⟩ := by
  intro h
  obtain ⟨pool, hpool⟩ := sampleWorker_chooses
  obtain ⟨-, t, ht, hsent, -⟩ := h pool 0 hpool
  cases ht
  cases hsent

end SendWorker

end TstMuduo.Cthrift
