import TstMuduo.Net.Lifecycle
import TstMuduo.Cthrift.ClientFrames

/-!
# The number of available connections (cthrift/cthrift_client_worker.cc)

`atomic_avaliable_conn_num_` is to be the number of connections that can be used: "exclude
disconn/highwater/occupied" says its declaration. Four callbacks change it. The connection
callback is called by the connection itself, the other two by the loop, after `TcpConnection` has
queued them.
-/

namespace TstMuduo.Cthrift
open TstMuduo.Lib TstMuduo.Net

/- `kI32HighWaterSize` (`cthrift_client_worker.cc:10`). -/
def kI32HighWaterSize : Nat := 64 * 1024

def Context.clear : Context → Bool
  | .worker c => !(c.b_highwater || c.b_occupied)
  | _ => false

structure WorkerConn where
  conn : Conn
  context : Context

namespace WorkerConn

def available (c : WorkerConn) : Bool := c.conn.state = .kConnected && c.context.clear

end WorkerConn

/-- All connections that have ever been up, and the callbacks that the loop has not run yet, each
with the number of its connection. -/
structure ConnCounter where
  atomic_avaliable_conn_num : Int
  conns : List WorkerConn
  pending : List (Nat × Functor)

namespace ConnCounter

def new : ConnCounter := ⟨0, [], []⟩

def availableConns (s : ConnCounter) : Nat := s.conns.countP WorkerConn.available

def update (s : ConnCounter) (i : Nat) (c : WorkerConn) (r : Conn × List Effect) : ConnCounter :=
  { s with
    conns := s.conns.set i { c with conn := r.1 }
    pending := s.pending ++ (queuedBy r.2).map fun f => (i, f) }

def decrement (s : ConnCounter) : ConnCounter :=
  { s with
    atomic_avaliable_conn_num :=
      if s.atomic_avaliable_conn_num - 1 ≤ 0 then 0 else s.atomic_avaliable_conn_num - 1 }

/- `OnConn` (`cthrift_client_worker.cc:664`) for a connection that is up; `known` tells whether its
address is in `map_ipport_spconninfo_`. The client has set the write-complete callback. -/
def onConnUp (s : ConnCounter) (known : Bool) : ConnCounter :=
  let conn := Conn.established (64 * 1024 * 1024) true false
  if known then
    { s with
      conns := s.conns ++ [⟨{ conn with
        highWaterMark := kI32HighWaterSize
        highWaterMarkCallback := true }, .worker .new⟩]
      atomic_avaliable_conn_num := s.atomic_avaliable_conn_num + 1 }
  else { s with conns := s.conns ++ [⟨(conn.shutdown true).1, .empty⟩] }

def onConnDown (s : ConnCounter) (context : Context) : ConnCounter :=
  if context.clear then s.decrement else s

/- `OnWriteComplete` (`cthrift_client_worker.cc:882`). -/
def onWriteComplete (s : ConnCounter) (i : Nat) (c : WorkerConn) : ConnCounter :=
  match c.context with
  | .worker conn_info =>
    { s with
      conns := s.conns.set i { c with context := .worker { conn_info with b_highwater := false } }
      atomic_avaliable_conn_num := s.atomic_avaliable_conn_num + 1 }
  | _ => s

/- `OnHighWaterMark` (`cthrift_client_worker.cc:907`). -/
def onHighWaterMark (s : ConnCounter) (i : Nat) (c : WorkerConn) : ConnCounter :=
  match c.context with
  | .worker conn_info =>
    { s with
      conns := s.conns.set i
        { c with context := .worker { conn_info with b_highwater := true } } }.decrement
  | _ => s

/- A connection comes up, is written to, gets writable, is shut down or goes down; and the loop
runs the callback that has waited longest. -/
inductive Act where
  | up (known : Bool)
  | send (i : Nat) (message : Bytes) (w : WriteResult)
  | pollOut (i : Nat) (w : WriteResult)
  | shutdown (i : Nat)
  | close (i : Nat)
  | runFunctor

def step (s : ConnCounter) : Act → Option (Except Assertion ConnCounter)
  | .up known => some (.ok (s.onConnUp known))
  | .send i message w => (s.conns[i]?).bind fun c =>
    if w.Fits message.length then some ((c.conn.send true message w).map (s.update i c))
    else none
  | .pollOut i w => (s.conns[i]?).bind fun c =>
    if w.Fits c.conn.outputBuffer.readableBytes then
      some ((c.conn.handleWrite w).map (s.update i c))
    else none
  | .shutdown i => (s.conns[i]?).map fun c => .ok (s.update i c (c.conn.shutdown true))
  | .close i => (s.conns[i]?).bind fun c =>
    if c.conn.state = .kConnected ∨ c.conn.state = .kDisconnecting then
      some (c.conn.handleClose.map fun d => (s.update i c (d, [])).onConnDown c.context)
    else none
  | .runFunctor =>
    match s.pending with
    | [] => none
    | (i, f) :: pending => (s.conns[i]?).map fun c =>
      match f with
      | .writeComplete => .ok ({ s with pending := pending }.onWriteComplete i c)
      | .highWaterMark _ => .ok ({ s with pending := pending }.onHighWaterMark i c)
      | _ => .ok { s with pending := pending }

def machine : Machine ConnCounter Act Assertion where
  init := new
  step := step

/-- The callback finds the connection as the number takes it to be: a high-water connection that
is up, or one that is available. -/
def Expected (s : ConnCounter) (c : WorkerConn) : Functor → Prop
  | .writeComplete => ∀ x, c.context = .worker x →
      c.conn.state = .kConnected ∧ x.b_highwater = true ∧ x.b_occupied = false
  | .highWaterMark _ => ∀ x, c.context = .worker x →
      c.available = true ∨ s.atomic_avaliable_conn_num = 0
  | _ => True

/-- The condition on a step: an expected callback, or a shutdown of a connection that is not
available. -/
def Matched (s : ConnCounter) : Act → Prop
  | .shutdown i => ∀ c, s.conns[i]? = some c → c.available = false
  | .runFunctor => ∀ i f later c, s.pending = (i, f) :: later → s.conns[i]? = some c →
      s.Expected c f
  | _ => True

/-! ### Counting -/

variable {s t : ConnCounter} {i : Nat} {c d : WorkerConn}

theorem countP_available_set (l : List WorkerConn) (hc : l[i]? = some c) (d : WorkerConn) :
    ((l.set i d).countP WorkerConn.available : Int) =
      l.countP WorkerConn.available - (if c.available then 1 else 0) +
        (if d.available then 1 else 0) := by
  obtain ⟨hi, rfl⟩ := List.getElem?_eq_some_iff.mp hc
  rw [List.countP_set hi]
  split
  next h =>
    have hpos : 0 < l.countP WorkerConn.available :=
      List.countP_pos_iff.mpr ⟨_, List.getElem_mem hi, h⟩
    split
    · omega
    · omega
  next h =>
    split
    · omega
    · omega

theorem available_pos (hc : s.conns[i]? = some c) (h : c.available = true) :
    0 < s.availableConns :=
  List.countP_pos_iff.mpr ⟨c, List.mem_of_getElem? hc, h⟩

/-- The number is right, and a connection that is being shut down has no clear context. -/
structure Inv (s : ConnCounter) : Prop where
  num : s.atomic_avaliable_conn_num = s.availableConns
  closing : ∀ c ∈ s.conns, c.context.clear = true → c.conn.state ≠ .kDisconnecting

theorem decrement_num (s : ConnCounter) :
    s.decrement.atomic_avaliable_conn_num = max (s.atomic_avaliable_conn_num - 1) 0 := by
  simp only [decrement]
  by_cases h : s.atomic_avaliable_conn_num - 1 ≤ 0
  · rw [if_pos h, max_eq_right h]
  · rw [if_neg h, max_eq_left (Int.le_of_lt (Int.not_le.mp h))]

theorem inv_new : new.Inv := ⟨rfl, fun c hc => by cases hc⟩

theorem Inv.closing_set (h : s.Inv) (hd : d.context.clear = true → d.conn.state ≠ .kDisconnecting) :
    ∀ c ∈ s.conns.set i d, c.context.clear = true → c.conn.state ≠ .kDisconnecting := by
  intro c hc
  rcases List.mem_or_eq_of_mem_set hc with hold | rfl
  · exact h.closing c hold
  · exact hd

theorem Inv.count_set (h : s.Inv) (hc : s.conns[i]? = some c) (d : WorkerConn) :
    ((s.conns.set i d).countP WorkerConn.available : Int) = s.atomic_avaliable_conn_num -
      (if c.available then 1 else 0) + (if d.available then 1 else 0) := by
  rw [h.num]
  exact countP_available_set s.conns hc d

/-! ### One step -/

theorem Inv.up (h : s.Inv) (known : Bool) : (s.onConnUp known).Inv := by
  have hnum := h.num
  cases known with
  | true =>
    constructor
    · simp only [availableConns, onConnUp, if_true, List.countP_append] at hnum ⊢
      rw [hnum]
      rfl
    · intro c hc
      rcases List.mem_append.mp hc with hold | hnew
      · exact h.closing c hold
      · rw [List.mem_singleton.mp hnew]
        intro _ hstate
        cases hstate
  | false =>
    constructor
    · simp only [availableConns, onConnUp, Bool.false_eq_true, if_false, List.countP_append]
        at hnum ⊢
      rw [hnum]
      rfl
    · intro c hc
      rcases List.mem_append.mp hc with hold | hnew
      · exact h.closing c hold
      · rw [List.mem_singleton.mp hnew]
        intro hclear
        cases hclear

theorem Inv.update (h : s.Inv) (hc : s.conns[i]? = some c) {r : Conn × List Effect}
    (hstate : r.1.state = c.conn.state) : (s.update i c r).Inv := by
  have hsame : WorkerConn.available { c with conn := r.1 } = c.available := by
    rw [WorkerConn.available, WorkerConn.available, hstate]
  constructor
  · have hcount := h.count_set hc { c with conn := r.1 }
    rw [hsame] at hcount
    simp only [availableConns, ConnCounter.update]
    omega
  · apply h.closing_set
    rw [hstate]
    exact h.closing c (List.mem_of_getElem? hc)

theorem available_of_clear (h : s.Inv) (hc : s.conns[i]? = some c)
    (hopen : c.conn.state = .kConnected ∨ c.conn.state = .kDisconnecting)
    (hclear : c.context.clear = true) : c.available = true := by
  rcases hopen with hup | hdown
  · rw [WorkerConn.available, hup, hclear]
    rfl
  · exact absurd hdown (h.closing c (List.mem_of_getElem? hc) hclear)

theorem Inv.close (h : s.Inv) (hc : s.conns[i]? = some c) {d : Conn}
    (hopen : c.conn.state = .kConnected ∨ c.conn.state = .kDisconnecting)
    (hd : d.state = .kDisconnected) : ((s.update i c (d, [])).onConnDown c.context).Inv := by
  have hgone : WorkerConn.available { c with conn := d } = false := by
    rw [WorkerConn.available, hd]
    rfl
  have hcount := h.count_set hc { c with conn := d }
  rw [hgone] at hcount
  have hclosing := h.closing_set (i := i) (d := { c with conn := d })
    fun _ hdown => by rw [hd] at hdown; cases hdown
  have hnum := h.num
  unfold onConnDown
  by_cases hclear : c.context.clear = true
  · have hav := available_of_clear h hc hopen hclear
    have hpos := available_pos hc hav
    rw [hav, if_pos rfl, if_neg Bool.false_ne_true] at hcount
    rw [if_pos hclear]
    refine ⟨?_, hclosing⟩
    rw [decrement_num]
    simp only [availableConns, decrement, ConnCounter.update] at hnum hpos ⊢
    omega
  · have hav : c.available = false := by
      rw [WorkerConn.available, Bool.eq_false_iff.mpr hclear, Bool.and_false]
    rw [hav, if_neg Bool.false_ne_true] at hcount
    rw [if_neg hclear]
    refine ⟨?_, hclosing⟩
    simp only [availableConns, ConnCounter.update]
    omega

theorem shutdown_state (c : Conn) : (c.shutdown true).1.state =
    if c.state = .kConnected then .kDisconnecting else c.state := by
  unfold Conn.shutdown
  split
  · rfl
  · rfl

theorem Inv.shutdown (h : s.Inv) (hc : s.conns[i]? = some c) (hav : c.available = false) :
    (s.update i c (c.conn.shutdown true)).Inv := by
  by_cases hup : c.conn.state = .kConnected
  · have hclear : c.context.clear = false := by
      rw [WorkerConn.available, hup] at hav
      exact hav
    have hgone : WorkerConn.available { c with conn := (c.conn.shutdown true).1 } = false := by
      rw [WorkerConn.available, hclear, Bool.and_false]
    have hcount := h.count_set hc { c with conn := (c.conn.shutdown true).1 }
    rw [hav, hgone, if_neg Bool.false_ne_true] at hcount
    constructor
    · simp only [availableConns, ConnCounter.update]
      omega
    · apply h.closing_set
      intro hset
      rw [hclear] at hset
      cases hset
  · apply h.update hc
    rw [shutdown_state, if_neg hup]

theorem shutdown_drifts (h : s.Inv) (hc : s.conns[i]? = some c) (hav : c.available = true) :
    (s.update i c (c.conn.shutdown true)).atomic_avaliable_conn_num ≠
      (s.update i c (c.conn.shutdown true)).availableConns := by
  have hup : c.conn.state = .kConnected := by
    rw [WorkerConn.available, Bool.and_eq_true, decide_eq_true_iff] at hav
    exact hav.1
  have hgone : WorkerConn.available { c with conn := (c.conn.shutdown true).1 } = false := by
    rw [WorkerConn.available, shutdown_state, if_pos hup]
    rfl
  have hcount := h.count_set hc { c with conn := (c.conn.shutdown true).1 }
  rw [hav, hgone, if_pos rfl, if_neg Bool.false_ne_true] at hcount
  simp only [availableConns, ConnCounter.update]
  omega

/-! ### The callbacks -/

theorem available_worker (conn : Conn) (x : ConnContext4Worker) :
    WorkerConn.available ⟨conn, .worker x⟩ = true ↔
      conn.state = .kConnected ∧ x.b_highwater = false ∧ x.b_occupied = false := by
  rw [WorkerConn.available, Bool.and_eq_true, decide_eq_true_iff, Context.clear,
    Bool.not_eq_true', Bool.or_eq_false_iff]

/-- The number stays right exactly if the callback is expected. -/
theorem Inv.onWriteComplete (h : s.Inv) (hc : s.conns[i]? = some c) :
    (s.Expected c .writeComplete → (s.onWriteComplete i c).Inv) ∧
      (¬ s.Expected c .writeComplete → (s.onWriteComplete i c).atomic_avaliable_conn_num ≠
        (s.onWriteComplete i c).availableConns) := by
  obtain ⟨conn, context⟩ := c
  cases context with
  | empty => exact ⟨fun _ => h, fun hn => absurd (fun x hx => by cases hx) hn⟩
  | other => exact ⟨fun _ => h, fun hn => absurd (fun x hx => by cases hx) hn⟩
  | worker x =>
    have hcount := h.count_set hc ⟨conn, .worker { x with b_highwater := false }⟩
    have hbefore := available_worker conn x
    have hafter := available_worker conn { x with b_highwater := false }
    have hexp : s.Expected ⟨conn, .worker x⟩ .writeComplete ↔
        conn.state = .kConnected ∧ x.b_highwater = true ∧ x.b_occupied = false := by
      constructor
      · intro he
        exact he x rfl
      · intro he y hy
        cases hy
        exact he
    rw [hexp]
    constructor
    · rintro ⟨hup, hhigh, hocc⟩
      rw [if_neg (by rw [hbefore, hhigh]; simp), if_pos (hafter.mpr ⟨hup, rfl, hocc⟩)] at hcount
      constructor
      · simp only [availableConns, ConnCounter.onWriteComplete]
        omega
      · exact h.closing_set fun _ hdown => by rw [hup] at hdown; cases hdown
    · intro hn
      simp only [availableConns, ConnCounter.onWriteComplete]
      split at hcount
      next hav =>
        split at hcount
        · omega
        · omega
      next hav =>
        rw [if_neg ?_] at hcount
        · omega
        · intro hav'
          obtain ⟨hup, -, hocc⟩ := hafter.mp hav'
          cases hhigh : x.b_highwater with
          | true => exact hn ⟨hup, hhigh, hocc⟩
          | false => exact hav (hbefore.mpr ⟨hup, hhigh, hocc⟩)

theorem Inv.onHighWaterMark (h : s.Inv) (hc : s.conns[i]? = some c) (len : Nat) :
    (s.Expected c (.highWaterMark len) → (s.onHighWaterMark i c).Inv) ∧
      (¬ s.Expected c (.highWaterMark len) →
        (s.onHighWaterMark i c).atomic_avaliable_conn_num ≠
          (s.onHighWaterMark i c).availableConns) := by
  obtain ⟨conn, context⟩ := c
  cases context with
  | empty => exact ⟨fun _ => h, fun hn => absurd (fun x hx => by cases hx) hn⟩
  | other => exact ⟨fun _ => h, fun hn => absurd (fun x hx => by cases hx) hn⟩
  | worker x =>
    have hcount := h.count_set hc ⟨conn, .worker { x with b_highwater := true }⟩
    have hafter : WorkerConn.available ⟨conn, .worker { x with b_highwater := true }⟩ = false := by
      rw [Bool.eq_false_iff, Ne, available_worker]
      simp
    have hexp : s.Expected ⟨conn, .worker x⟩ (.highWaterMark len) ↔
        WorkerConn.available ⟨conn, .worker x⟩ = true ∨ s.atomic_avaliable_conn_num = 0 := by
      constructor
      · intro he
        exact he x rfl
      · intro he y hy
        exact he
    have hnum := h.num
    have hpos := available_pos hc
    rw [hafter, if_neg Bool.false_ne_true] at hcount
    rw [hexp]
    simp only [ConnCounter.onHighWaterMark]
    constructor
    · intro he
      refine ⟨?_, h.closing_set fun hclear => ?_⟩
      · rw [decrement_num]
        simp only [availableConns, decrement] at hnum hpos ⊢
        rcases he with hav | hzero
        · rw [if_pos hav] at hcount
          have := hpos hav
          omega
        · split at hcount
          next hav =>
            have := hpos hav
            omega
          · omega
      · rw [Context.clear] at hclear
        simp at hclear
    · intro hn
      obtain ⟨hav, hzero⟩ := not_or.mp hn
      rw [decrement_num]
      rw [if_neg hav] at hcount
      simp only [availableConns, decrement] at hnum ⊢
      omega

/-! ### Runs -/

theorem send_keeps (c : Conn) (message : Bytes) (w : WriteResult) :
    ∃ r, c.send true message w = .ok r ∧ r.1.state = c.state := by
  unfold Conn.send
  split
  · obtain ⟨d, es, he, hstate, -⟩ := c.sendInLoop_keeps message w
    exact ⟨(d, es), he, hstate⟩
  · exact ⟨(c, []), rfl, rfl⟩

theorem step_matched (h : s.Inv) (a : Act) (ha : s.Matched a)
    {x : Except Assertion ConnCounter} (hx : s.step a = some x) : ∃ t, x = .ok t ∧ t.Inv := by
  cases a with
  | up known =>
    cases hx
    exact ⟨_, rfl, h.up known⟩
  | send i message w =>
    obtain ⟨c, hc, hstep⟩ := Option.bind_eq_some_iff.mp hx
    split at hstep
    · obtain ⟨r, hr, hstate⟩ := send_keeps c.conn message w
      rw [hr] at hstep
      cases hstep
      exact ⟨_, rfl, h.update hc hstate⟩
    · cases hstep
  | pollOut i w =>
    obtain ⟨c, hc, hstep⟩ := Option.bind_eq_some_iff.mp hx
    split at hstep
    next hw =>
      obtain ⟨d, es, hr, hwritten⟩ := c.conn.handleWrite_spec w hw
      rw [hr] at hstep
      cases hstep
      exact ⟨_, rfl, h.update hc hwritten.state⟩
    · cases hstep
  | shutdown i =>
    obtain ⟨c, hc, rfl⟩ := Option.map_eq_some_iff.mp hx
    exact ⟨_, rfl, h.shutdown hc (ha c hc)⟩
  | close i =>
    obtain ⟨c, hc, hstep⟩ := Option.bind_eq_some_iff.mp hx
    split at hstep
    next hopen =>
      have hclose : c.conn.handleClose =
          .ok { c.conn with state := .kDisconnected, channel := c.conn.channel.disableAll } := by
        rw [Conn.handleClose, check_ok hopen]
        rfl
      rw [hclose] at hstep
      cases hstep
      exact ⟨_, rfl, h.close hc hopen rfl⟩
    · cases hstep
  | runFunctor =>
    simp only [step] at hx
    split at hx
    · cases hx
    next i f pending hpending =>
      obtain ⟨c, hc, hstep⟩ := Option.map_eq_some_iff.mp hx
      have hs : { s with pending := pending }.Inv := ⟨h.num, h.closing⟩
      have hexp := ha i f pending c hpending hc
      cases f with
      | writeComplete => exact ⟨_, hstep.symm, (hs.onWriteComplete hc).1 hexp⟩
      | highWaterMark len => exact ⟨_, hstep.symm, (hs.onHighWaterMark hc len).1 hexp⟩
      | _ => exact ⟨_, hstep.symm, hs⟩

theorem step_unmatched (h : s.Inv) (a : Act) (ha : ¬ s.Matched a)
    (ht : s.step a = some (.ok t)) : t.atomic_avaliable_conn_num ≠ t.availableConns := by
  cases a with
  | up known => exact absurd trivial ha
  | send i message w => exact absurd trivial ha
  | pollOut i w => exact absurd trivial ha
  | close i => exact absurd trivial ha
  | shutdown i =>
    obtain ⟨c, hc, he⟩ := Option.map_eq_some_iff.mp ht
    cases he
    apply shutdown_drifts h hc
    by_contra hav
    apply ha
    intro c' hc'
    cases hc.symm.trans hc'
    exact Bool.eq_false_iff.mpr hav
  | runFunctor =>
    simp only [step] at ht
    split at ht
    · cases ht
    next i f pending hpending =>
      obtain ⟨c, hc, hstep⟩ := Option.map_eq_some_iff.mp ht
      have hs : { s with pending := pending }.Inv := ⟨h.num, h.closing⟩
      have hexp : ¬ s.Expected c f := by
        intro he
        apply ha
        intro i' f' later c' hp hc'
        cases hpending.symm.trans hp
        cases hc.symm.trans hc'
        exact he
      cases f with
      | writeComplete =>
        cases hstep
        exact (hs.onWriteComplete hc).2 hexp
      | highWaterMark len =>
        cases hstep
        exact (hs.onHighWaterMark hc len).2 hexp
      | _ => exact absurd trivial hexp

/-- In any run the number is right in every state if and only if every callback finds its
connection as it takes it to be and no available connection is shut down. -/
theorem available_conn_num_iff (acts : List Act) {x : Except Assertion ConnCounter}
    (h : machine.run machine.init acts = some x) :
    (∀ pre, pre <+: acts → ∃ t, machine.run machine.init pre = some (.ok t) ∧
      t.atomic_avaliable_conn_num = t.availableConns) ↔
      machine.Along Matched machine.init acts :=
  Machine.run_always_iff (fun _ hp => hp.num)
    (fun _ a _ hp hg hx => step_matched hp a hg hx)
    (fun _ a _ hp hg ht => step_unmatched hp a hg ht) inv_new h

theorem available_conn_num_up_down :
    ∃ x, machine.run machine.init [.up true, .up false, .close 0] = some x ∧
      ∀ pre, pre <+: [.up true, .up false, .close 0] →
        ∃ t, machine.run machine.init pre = some (.ok t) ∧
          t.atomic_avaliable_conn_num = t.availableConns := by
  refine ⟨_, rfl, ?_⟩
  apply (available_conn_num_iff [.up true, .up false, .close 0] rfl).mpr
  exact ⟨trivial, fun _ _ => ⟨trivial, fun _ _ => ⟨trivial, fun _ _ => trivial⟩⟩⟩

/-- One request that the kernel takes at once counts its connection twice. -/
theorem available_conn_num_drifts :
    ∃ t, machine.run machine.init [.up true, .send 0 [1] (.wrote 1), .runFunctor] = some (.ok t) ∧
      t.atomic_avaliable_conn_num ≠ t.availableConns := by
  have hrun : machine.runsTo machine.init [.up true, .send 0 [1] (.wrote 1), .runFunctor]
      (fun t => decide (t.atomic_avaliable_conn_num = 2 ∧ t.availableConns = 1)) = true := by
    decide +kernel
  obtain ⟨t, ht, hend⟩ := Machine.exists_of_runsTo hrun
  obtain ⟨hnum, hcount⟩ := of_decide_eq_true hend
  refine ⟨t, ht, ?_⟩
  rw [hnum, hcount]
  decide

end ConnCounter

end TstMuduo.Cthrift
