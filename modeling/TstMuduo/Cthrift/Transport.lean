import TstMuduo.Cthrift.SendReq

/-!
# The write buffer of a transport (cthrift/cthrift_transport.cc)

One thread writes messages into the buffer of a `CthriftTransport`. A flush does not copy the
buffer: it queues a task for the worker's loop, and the task fetches whatever the transport has
when it runs. From then on the worker's pointer keeps the thread from writing into that buffer,
since a buffer that is not unique is replaced.
-/

namespace TstMuduo.Cthrift
open TstMuduo.Lib TstMuduo.Net

/-- The transport and the worker. Buffers are numbered as they are made, and `busy` is the task
that the worker is in, with its `tmem_tmp`. A thread in the middle of a message has the parts of
the header that it has not written yet in `header`, and what it has written in `message`. What
was flushed and what was sent is kept with the ids. -/
structure Transport where
  bufs : Nat → Bytes
  fresh : Nat
  sp_write_tmembuf : Nat
  str_id : String
  header : Option (List Bytes)
  message : Bytes
  queue : List String
  busy : Option (String × Nat)
  flushed : List (String × Bytes)
  sent : List (String × Bytes)

namespace Transport

def new : Transport where
  bufs := fun _ => []
  fresh := 1
  sp_write_tmembuf := 0
  str_id := ""
  header := none
  message := []
  queue := []
  busy := none
  flushed := []
  sent := []

/- `sp_write_tmembuf_.unique()`. -/
def unique (s : Transport) : Bool := s.busy.map Prod.snd ≠ some s.sp_write_tmembuf

/- The buffer that has `bytes` after a write: the old one, or a new one beside it. -/
def setWriteBuf (s : Transport) (bytes : Bytes) : Transport :=
  if s.unique then
    { s with bufs := fun i => if i = s.sp_write_tmembuf then bytes else s.bufs i }
  else
    { s with
      bufs := fun i => if i = s.fresh then bytes else s.bufs i
      fresh := s.fresh + 1
      sp_write_tmembuf := s.fresh }

/- `ResetWriteBuf` (`cthrift_transport.cc:159`). -/
def resetWriteBuf (s : Transport) : Transport := s.setWriteBuf []

/- `AppendWriteBuf` (`cthrift_transport.h:244`). -/
def appendWriteBuf (s : Transport) (buf : Bytes) : Transport :=
  s.setWriteBuf (s.bufs s.sp_write_tmembuf ++ buf)

/- The steps of the thread, each under the lock of the write buffer, and of the worker: it takes
a task and fetches the buffer, and sends what it has. -/
inductive Act where
  | writeMessageBegin (name : Bytes) (messageType : Byte) (i32_seq_id : BitVec 32)
  | writeHeader
  | write (buf : Bytes)
  | flush
  | fetch
  | send
  deriving DecidableEq, Repr

def writeVirt (s : Transport) (buf : Bytes) : Option Transport :=
  if (s.bufs s.sp_write_tmembuf).length + buf.length < 2 ^ 32 then
    some { s.appendWriteBuf buf with message := s.message ++ buf }
  else none

def step (p : CthriftTBinaryProtocol) (s : Transport) : Act → Option Transport
  | .writeMessageBegin name messageType i32_seq_id =>
    if s.header = none then
      some { s.resetWriteBuf with
        str_id := lexicalCast i32_seq_id.toInt
        header := some (p.writeMessageBegin name messageType i32_seq_id)
        message := [] }
    else none
  | .writeHeader =>
    match s.header with
    | some (buf :: later) => (s.writeVirt buf).map fun t => { t with header := some later }
    | _ => none
  | .write buf => if s.header = some [] then s.writeVirt buf else none
  | .flush =>
    if s.header = some [] then
      some { s with
        header := none
        queue := s.queue ++ [s.str_id]
        flushed := s.flushed ++ [(s.str_id, s.message)] }
    else none
  | .fetch =>
    match s.busy, s.queue with
    | none, str_id :: queue =>
      some { s with busy := some (str_id, s.sp_write_tmembuf), queue := queue }
    | _, _ => none
  | .send =>
    match s.busy with
    | none => none
    | some (str_id, tmem_tmp) =>
      some { s with
        busy := none
        sent := s.sent ++ ((frameOf ⟨s.bufs tmem_tmp⟩).map fun send_buf =>
          (str_id, send_buf)).toList }

def machine (p : CthriftTBinaryProtocol) : Machine Transport Act Empty where
  init := new
  step s a := (step p s a).map .ok

/-- The length and the bytes of a message. -/
def wire (e : String × Bytes) : String × Bytes :=
  (e.1, hostToNetwork32 (.ofNat 32 e.2.length) ++ e.2)

/-- The frames that were sent are those of the first messages that were flushed, and there is
exactly one task, queued or running, for each of the others. -/
def InOrder (s : Transport) : Prop :=
  ∃ rest, s.flushed.map wire = s.sent ++ rest ∧
    rest.length = s.busy.toList.length + s.queue.length

/-- No message is begun while a flushed one has not been fetched. -/
def Waits (s : Transport) : Act → Prop
  | .writeMessageBegin _ _ _ => s.queue = []
  | _ => True

/-! ### The buffers -/

variable {p : CthriftTBinaryProtocol} {s t : Transport} {bytes : Bytes}

theorem setWriteBuf_spec (s : Transport) (bytes : Bytes)
    (hwrite : s.sp_write_tmembuf < s.fresh) (hbusy : ∀ b ∈ s.busy, b.2 < s.fresh) :
    let t := s.setWriteBuf bytes
    t.bufs t.sp_write_tmembuf = bytes ∧ t.sp_write_tmembuf < t.fresh ∧
      ∀ b ∈ s.busy, b.2 < t.fresh ∧ t.bufs b.2 = s.bufs b.2 := by
  unfold setWriteBuf
  split
  next hu =>
    refine ⟨if_pos rfl, hwrite, ?_⟩
    intro b hb
    refine ⟨hbusy b hb, if_neg ?_⟩
    intro he
    rw [Option.mem_def] at hb
    rw [unique, hb, ← he] at hu
    exact of_decide_eq_true hu rfl
  next hu =>
    refine ⟨if_pos rfl, Nat.lt_succ_self _, ?_⟩
    intro b hb
    have hlt := hbusy b hb
    exact ⟨Nat.lt_succ_of_lt hlt, if_neg (Nat.ne_of_lt hlt)⟩

theorem setWriteBuf_frame (s : Transport) (bytes : Bytes) :
    ∃ bufs fresh sp_write_tmembuf, s.setWriteBuf bytes =
      { s with bufs := bufs, fresh := fresh, sp_write_tmembuf := sp_write_tmembuf } := by
  unfold setWriteBuf
  split
  · exact ⟨_, _, _, rfl⟩
  · exact ⟨_, _, _, rfl⟩

/-! ### The messages -/

/-- A message that `GetWriteBuf` makes a frame of. -/
def Whole (message : Bytes) : Prop := message ≠ [] ∧ message.length < 2 ^ 32

theorem frameOf_whole {message : Bytes} (h : Whole message) (str_id : String) :
    (frameOf ⟨message⟩).map (fun send_buf => (str_id, send_buf)) =
      some (wire (str_id, message)) := by
  have hframe := SendWorker.frameOf_nonempty (b := ⟨message, h.2⟩) h.1
  rw [hframe]
  rfl

theorem writeMessageBegin_ne_nil (p : CthriftTBinaryProtocol) (name : Bytes) (messageType : Byte)
    (i32_seq_id : BitVec 32) :
    (p.writeMessageBegin name messageType i32_seq_id).flatten ≠ [] := by
  have hword : (CthriftTBinaryProtocol.writeI32 i32_seq_id).flatten ≠ [] := by
    rw [CthriftTBinaryProtocol.writeI32, List.flatten_singleton]
    exact List.ne_nil_of_length_pos (by rw [length_hostToNetwork32]; decide)
  unfold CthriftTBinaryProtocol.writeMessageBegin
  split
  · rw [List.flatten_append]
    exact List.append_ne_nil_of_right_ne_nil _ hword
  · rw [List.flatten_append]
    exact List.append_ne_nil_of_right_ne_nil _ hword

/-- What holds while every message waits for the one before to be fetched. -/
structure Inv (s : Transport) : Prop where
  write_lt : s.sp_write_tmembuf < s.fresh
  busy_lt : ∀ b ∈ s.busy, b.2 < s.fresh
  writing : ∀ header, s.header = some header → s.queue = [] ∧
    s.bufs s.sp_write_tmembuf = s.message ∧ s.message ++ header.flatten ≠ [] ∧
    s.message.length < 2 ^ 32
  busy_whole : ∀ b ∈ s.busy, Whole (s.bufs b.2)
  queue_whole : s.queue ≠ [] → Whole (s.bufs s.sp_write_tmembuf)
  order : s.flushed.map wire = s.sent ++ s.busy.toList.map (fun b => wire (b.1, s.bufs b.2)) ++
    s.queue.map fun str_id => wire (str_id, s.bufs s.sp_write_tmembuf)

theorem inv_new : new.Inv where
  write_lt := Nat.zero_lt_one
  busy_lt := fun b hb => by cases hb
  writing := fun header hh => by cases hh
  busy_whole := fun b hb => by cases hb
  queue_whole := fun hq => absurd rfl hq
  order := rfl

theorem Inv.setWriteBuf (h : s.Inv) (hqueue : s.queue = []) (bytes : Bytes) (str_id : String)
    (header : List Bytes) (hbytes : bytes ++ header.flatten ≠ []) (hfits : bytes.length < 2 ^ 32) :
    { s.setWriteBuf bytes with
      str_id := str_id, header := some header, message := bytes }.Inv := by
  have hspec := setWriteBuf_spec s bytes h.write_lt h.busy_lt
  obtain ⟨bufs, fresh, sp_write_tmembuf, hset⟩ := setWriteBuf_frame s bytes
  rw [hset] at hspec ⊢
  obtain ⟨hcont, hlt, hkept⟩ := hspec
  constructor
  · exact hlt
  · intro b hb
    exact (hkept b hb).1
  · intro header' hh
    cases hh
    exact ⟨hqueue, hcont, hbytes, hfits⟩
  · intro b hb
    have hsame : bufs b.2 = s.bufs b.2 := (hkept b hb).2
    simp only [hsame]
    exact h.busy_whole b hb
  · intro hne
    exact absurd hqueue hne
  · have hmap : s.busy.toList.map (fun b => wire (b.1, bufs b.2)) =
        s.busy.toList.map fun b => wire (b.1, s.bufs b.2) := by
      apply List.map_congr_left
      intro b hb
      have hsame : bufs b.2 = s.bufs b.2 := (hkept b (Option.mem_toList.mp hb)).2
      rw [hsame]
    simp only [hmap]
    rw [h.order, hqueue]
    rfl

theorem Inv.writeVirt (h : s.Inv) {buf : Bytes} {header : List Bytes} (later : List Bytes)
    (hheader : s.header = some header) (hne : s.message ++ buf ++ later.flatten ≠ [])
    (ht : s.writeVirt buf = some t) :
    { t with header := some later }.Inv ∧ t.header = s.header := by
  obtain ⟨hqueue, hcont, -, -⟩ := h.writing header hheader
  unfold Transport.writeVirt at ht
  split at ht
  next hroom =>
    cases ht
    have hinv := h.setWriteBuf hqueue (s.message ++ buf) s.str_id later hne
      (by rw [List.length_append, ← hcont]; exact hroom)
    obtain ⟨bufs, fresh, sp_write_tmembuf, hset⟩ := setWriteBuf_frame s (s.message ++ buf)
    rw [appendWriteBuf, hcont]
    rw [hset] at hinv ⊢
    exact ⟨hinv, rfl⟩
  · cases ht

theorem Inv.flush (h : s.Inv) (hheader : s.header = some []) :
    { s with
      header := none
      queue := s.queue ++ [s.str_id]
      flushed := s.flushed ++ [(s.str_id, s.message)] }.Inv := by
  obtain ⟨hqueue, hcont, hne, hlen⟩ := h.writing [] hheader
  rw [List.flatten_nil, List.append_nil] at hne
  refine ⟨h.write_lt, h.busy_lt, fun header hh => (by cases hh), h.busy_whole, ?_, ?_⟩
  · intro _
    rw [hcont]
    exact ⟨hne, hlen⟩
  · simp only [List.map_append, h.order, hqueue, hcont]
    rw [List.append_assoc]
    rfl

/-- The thread is between two messages, so the worker finds the one it was queued for. -/
theorem Inv.fetch (h : s.Inv) {str_id : String} {queue : List String} (hbusy : s.busy = none)
    (hqueue : s.queue = str_id :: queue) :
    { s with busy := some (str_id, s.sp_write_tmembuf), queue := queue }.Inv := by
  have hwhole := h.queue_whole (by rw [hqueue]; exact List.cons_ne_nil _ _)
  constructor
  · exact h.write_lt
  · intro b hb
    cases hb
    exact h.write_lt
  · intro header hh
    obtain ⟨hnil, -⟩ := h.writing header hh
    rw [hqueue] at hnil
    cases hnil
  · intro b hb
    cases hb
    exact hwhole
  · intro _
    exact hwhole
  · have horder := h.order
    rw [hbusy, hqueue] at horder
    rw [horder, List.append_assoc, List.append_assoc]
    rfl

theorem Inv.send (h : s.Inv) {str_id : String} {tmem_tmp : Nat}
    (hbusy : s.busy = some (str_id, tmem_tmp)) :
    { s with
      busy := none
      sent := s.sent ++ ((frameOf ⟨s.bufs tmem_tmp⟩).map fun send_buf =>
        (str_id, send_buf)).toList }.Inv := by
  have hwhole : Whole (s.bufs tmem_tmp) := h.busy_whole _ hbusy
  refine ⟨h.write_lt, fun b hb => (by cases hb), h.writing, fun b hb => (by cases hb),
    h.queue_whole, ?_⟩
  have horder := h.order
  rw [hbusy] at horder
  rw [horder, frameOf_whole hwhole]
  simp only [Option.toList, List.map_cons, List.map_nil, List.append_nil]

theorem step_inv (h : s.Inv) (a : Act) (ha : s.Waits a) (ht : step p s a = some t) : t.Inv := by
  cases a with
  | writeMessageBegin name messageType i32_seq_id =>
    simp only [step] at ht
    split at ht
    · cases ht
      exact h.setWriteBuf ha [] _ _ (writeMessageBegin_ne_nil p name messageType i32_seq_id)
        (by decide)
    · cases ht
  | writeHeader =>
    simp only [step] at ht
    split at ht
    next buf later hheader =>
      obtain ⟨u, hu, he⟩ := Option.map_eq_some_iff.mp ht
      obtain ⟨-, -, hne, -⟩ := h.writing _ hheader
      rw [← he]
      exact (h.writeVirt later hheader (by rw [List.append_assoc]; exact hne) hu).1
    · cases ht
  | write buf =>
    simp only [step] at ht
    split at ht
    next hheader =>
      obtain ⟨-, -, hne, -⟩ := h.writing [] hheader
      rw [List.flatten_nil, List.append_nil] at hne
      obtain ⟨hinv, hsame⟩ := h.writeVirt [] hheader
        (by rw [List.append_assoc]; exact List.append_ne_nil_of_left_ne_nil hne _) ht
      rw [← hheader, ← hsame] at hinv
      exact hinv
    · cases ht
  | flush =>
    simp only [step] at ht
    split at ht
    next hheader =>
      cases ht
      exact h.flush hheader
    · cases ht
  | fetch =>
    simp only [step] at ht
    split at ht
    next str_id queue hbusy hqueue =>
      cases ht
      exact h.fetch hbusy hqueue
    · cases ht
  | send =>
    simp only [step] at ht
    split at ht
    · cases ht
    next str_id tmem_tmp hbusy =>
      cases ht
      exact h.send hbusy

/- Two oneway calls. The second message is begun while the first one is being sent. -/
def sampleActs : List Act :=
  [.writeMessageBegin [112] 4 1, .writeHeader, .writeHeader, .writeHeader, .writeHeader,
    .write [0], .flush, .fetch, .writeMessageBegin [113] 4 2, .writeHeader, .send, .writeHeader,
    .writeHeader, .writeHeader, .flush, .fetch, .send]

instance (s : Transport) (a : Act) : Decidable (s.Waits a) :=
  match a with
  | .writeMessageBegin _ _ _ => inferInstanceAs (Decidable (_ = _))
  | .writeHeader | .write _ | .flush | .fetch | .send => inferInstanceAs (Decidable True)

end Transport

end TstMuduo.Cthrift
