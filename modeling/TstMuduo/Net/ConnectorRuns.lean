import TstMuduo.Net.Connector

/-!
# One attempt at a time

The three assertions of the connector rest on there being one attempt to connect: a retry
timer, a queued `startInLoop`, a `startInLoop` under way, or a state other than
`kDisconnected`. Nothing in the connector makes sure of it; `start` adds an attempt
wherever it is called.
-/

namespace TstMuduo.Net
open TstMuduo.Lib

namespace Connector

variable {s t : Connector} {n : Nat}

def attempts (s : Connector) : Nat :=
  s.timers + s.queue.count .startInLoop + (if s.pc = .idle then 0 else 1) +
    (if s.state = .kDisconnected then 0 else 1)

def Idle (s : Connector) : Prop :=
  s.timers = 0 ∧ .startInLoop ∉ s.queue ∧ s.pc = .idle ∧ s.state = .kDisconnected

/- No `resetChannel` is behind a `startInLoop`. -/
def Ordered (queue : List ConnectorFunctor) : Prop :=
  queue.Pairwise fun f g => f = .startInLoop → g ≠ .resetChannel

/-- One attempt at a time, and while it is with `startInLoop` there is no channel. The
connection that came of it, if any, keeps the state `kConnected`. -/
structure Single (s : Connector) : Prop where
  one : s.attempts ≤ 1
  clear : s.pc ≠ .idle → s.channel = none
  ordered : Ordered s.queue
  connections : s.fresh + s.up ≤ 1
  wired : 0 < s.fresh + s.up → s.state = .kConnected
  settled : 0 < s.up → s.channel = none

theorem new_single : new.Single where
  one := by decide
  clear h := absurd rfl h
  ordered := List.Pairwise.nil
  connections := by decide
  wired h := absurd h (by decide)
  settled h := absurd h (by decide)

/-! ### The attempts -/

theorem attempts_eq_zero_iff (s : Connector) : s.attempts = 0 ↔ s.Idle := by
  unfold attempts Idle
  rw [← List.count_eq_zero]
  split <;> split <;> simp [*]

theorem Single.alone (h : s.Single) (hst : s.state ≠ .kDisconnected) :
    s.timers = 0 ∧ .startInLoop ∉ s.queue ∧ s.pc = .idle := by
  have hone := h.one
  unfold attempts at hone
  rw [if_neg hst] at hone
  have hpc : s.pc = .idle := by
    by_contra hne
    rw [if_neg hne] at hone
    omega
  refine ⟨by omega, ?_, hpc⟩
  rw [← List.count_eq_zero]
  omega

theorem Single.no_connection (h : s.Single) (hst : s.state ≠ .kConnected) :
    s.fresh = 0 ∧ s.up = 0 := by
  have hzero : ¬ 0 < s.fresh + s.up := fun hlt => hst (h.wired hlt)
  omega

theorem Ordered.push {queue : List ConnectorFunctor} (h : Ordered queue) {f : ConnectorFunctor}
    (hf : f = .resetChannel → .startInLoop ∉ queue) : Ordered (queue ++ [f]) := by
  refine List.pairwise_append.mpr ⟨h, List.pairwise_singleton _ _, ?_⟩
  intro g hg f' hf' hstart hreset
  rw [List.mem_singleton] at hf'
  subst hf' hstart
  exact hf hreset hg

theorem attempts_push_start (s : Connector) :
    (s.push .startInLoop).attempts = s.attempts + 1 := by
  unfold attempts
  rw [queue_push, List.count_append]
  show s.timers + (s.queue.count .startInLoop + 1) + (if s.pc = .idle then 0 else 1) +
    (if s.state = .kDisconnected then 0 else 1) = _
  omega

theorem attempts_push {f : ConnectorFunctor} (hf : f ≠ .startInLoop) (s : Connector) :
    (s.push f).attempts = s.attempts := by
  unfold attempts
  rw [queue_push, List.count_append, List.count_singleton, beq_false_of_ne hf]
  rfl

theorem attempts_pc (hne : s.pc ≠ .idle) (pc : ConnectorPc) :
    { s with pc := pc }.attempts ≤ s.attempts := by
  have hpc : (if pc = .idle then 0 else 1) ≤ 1 := by split <;> decide
  unfold attempts
  rw [if_neg hne]
  show s.timers + s.queue.count .startInLoop + (if pc = .idle then 0 else 1) +
    (if s.state = .kDisconnected then 0 else 1) ≤ _
  omega

theorem attempts_timer (htimers : 0 < s.timers) :
    s.attempts = { s with timers := s.timers - 1 }.attempts + 1 := by
  unfold attempts
  show _ = s.timers - 1 + s.queue.count .startInLoop + (if s.pc = .idle then 0 else 1) +
    (if s.state = .kDisconnected then 0 else 1) + 1
  omega

theorem Single.push_stop (h : s.Single) : (s.push .stopInLoop).Single where
  one := by
    rw [attempts_push (by decide)]
    exact h.one
  clear := h.clear
  ordered := by
    rw [queue_push]
    exact h.ordered.push (fun hf => by cases hf)
  connections := h.connections
  wired := h.wired
  settled := h.settled

theorem Single.push_start (h : s.Single) (hzero : s.attempts = 0) :
    (s.push .startInLoop).Single where
  one := by
    rw [attempts_push_start]
    omega
  clear := h.clear
  ordered := by
    rw [queue_push]
    exact h.ordered.push (fun hf => by cases hf)
  connections := h.connections
  wired := h.wired
  settled := h.settled

/-! ### One step -/

theorem single_startInLoop (hst : s.state = .kDisconnected) (hc : s.channel = none)
    (hq : .startInLoop ∉ s.queue) (htimers : s.timers = 0) (hord : Ordered s.queue)
    (hfresh : s.fresh = 0) (hup : s.up = 0) :
    ∃ t, s.startInLoop = .ok t ∧ t.Single := by
  refine ⟨{ s with pc := .startInLoop }, ?_, ?_⟩
  · unfold startInLoop
    rw [check_ok hst]
    rfl
  · have hcount : s.queue.count .startInLoop = 0 := List.count_eq_zero.mpr hq
    constructor
    · show s.timers + s.queue.count .startInLoop + 1 +
        (if s.state = .kDisconnected then 0 else 1) ≤ 1
      rw [htimers, hcount, if_pos hst]
    · exact fun _ => hc
    · exact hord
    · show s.fresh + s.up ≤ 1
      omega
    · intro hlt
      exact absurd hlt (by simp [hfresh, hup])
    · exact fun _ => hc

theorem Single.of_left (h : s.Single) (hst : s.state = .kConnecting)
    (htq : t.queue = s.queue ++ [.resetChannel]) (htpc : t.pc = s.pc)
    (htimers : t.timers + (if t.state = .kDisconnected then 0 else 1) ≤ 1)
    (hfresh : t.fresh ≤ 1) (hwired : 0 < t.fresh → t.state = .kConnected) (hup : t.up = s.up) :
    t.Single := by
  obtain ⟨_, hq, hpc⟩ := h.alone (by rw [hst]; decide)
  have hzero := (h.no_connection (by rw [hst]; decide)).2
  constructor
  · have hcount : t.queue.count .startInLoop = 0 := by
      rw [htq, List.count_append, List.count_eq_zero.mpr hq]
      rfl
    unfold attempts
    rw [hcount, htpc, if_pos hpc]
    omega
  · intro hne
    exact absurd (htpc.trans hpc) hne
  · rw [htq]
    exact h.ordered.push fun _ => hq
  · omega
  · intro hlt
    exact hwired (by omega)
  · intro hlt
    omega

theorem queue_left (s : Connector) (n : Nat) :
    (s.left n).queue = s.queue ++ [.resetChannel] :=
  queue_push { s with channel := some ⟨n, false⟩ } .resetChannel

theorem Single.retry_left (h : s.Single) (hst : s.state = .kConnecting) :
    ((s.left n).retry n).Single := by
  have htimers := (h.alone (by rw [hst]; decide)).1
  have hfresh := (h.no_connection (by rw [hst]; decide)).1
  have hpos : ¬ 0 < s.fresh := by omega
  unfold retry
  split
  · refine h.of_left hst (queue_left s n) rfl ?_ (by show s.fresh ≤ 1; omega)
      (fun hlt => absurd hlt hpos) rfl
    show s.timers + 1 + 0 ≤ 1
    omega
  · refine h.of_left hst (queue_left s n) rfl ?_ (by show s.fresh ≤ 1; omega)
      (fun hlt => absurd hlt hpos) rfl
    show s.timers + 0 ≤ 1
    omega

theorem Single.handleError (h : s.Single) (hbase : s.Base) (hst : s.state = .kConnecting) :
    ∃ t, s.handleError = .ok t ∧ t.Single ∧ t.state = .kDisconnected := by
  obtain ⟨n, hc, _⟩ := hbase.channel_of_connecting hst
  refine ⟨(s.left n).retry n, ?_, h.retry_left hst, ?_⟩
  · unfold Connector.handleError
    rw [if_pos hst, removeAndResetChannel_eq hc]
    rfl
  · unfold retry
    split
    · rfl
    · rfl

theorem Single.stopInLoop (h : s.Single) (hbase : s.Base) :
    ∃ t, s.stopInLoop = .ok t ∧ t.Single := by
  unfold Connector.stopInLoop
  split
  next hst =>
    obtain ⟨n, hc, _⟩ := hbase.channel_of_connecting hst
    refine ⟨(s.left n).retry n, ?_, h.retry_left hst⟩
    rw [removeAndResetChannel_eq (s := { s with state := .kDisconnected }) hc]
    rfl
  · exact ⟨s, rfl, h⟩

theorem Single.connected_left (h : s.Single) (hst : s.state = .kConnecting) :
    ({ s.left n with state := .kConnected }.pass n).Single ∧
      ({ s.left n with state := .kConnected }.close n).Single := by
  have htimers := (h.alone (by rw [hst]; decide)).1
  have hfresh := (h.no_connection (by rw [hst]; decide)).1
  have hone : s.timers + 1 ≤ 1 := by omega
  constructor
  · exact h.of_left hst (queue_left s n) rfl hone (by show s.fresh + 1 ≤ 1; omega)
      (fun _ => rfl) rfl
  · exact h.of_left hst (queue_left s n) rfl hone (by show s.fresh ≤ 1; omega)
      (fun _ => rfl) rfl

theorem Single.handleWrite (h : s.Single) (hbase : s.Base) (hst : s.state ≠ .kConnected)
    (outcome : WriteOutcome) : ∃ t, s.handleWrite outcome = .ok t ∧ t.Single := by
  unfold Connector.handleWrite
  split
  next hcon =>
    obtain ⟨n, hc, _⟩ := hbase.channel_of_connecting hcon
    rw [removeAndResetChannel_eq hc]
    cases outcome with
    | socketError => exact ⟨_, rfl, h.retry_left hcon⟩
    | selfConnect => exact ⟨_, rfl, h.retry_left hcon⟩
    | connected =>
      refine ⟨_, rfl, ?_⟩
      split
      · exact (h.connected_left hcon).1
      · exact (h.connected_left hcon).2
  next hcon =>
    have hdis : s.state = .kDisconnected := by
      cases hs : s.state with
      | kDisconnected => rfl
      | kConnecting => exact absurd hs hcon
      | kConnected => exact absurd hs hst
    rw [check_ok hdis]
    exact ⟨s, rfl, h⟩

theorem Single.handleEvent (h : s.Single) (hbase : s.Base) (hpc : s.pc = .idle)
    (hst : s.state = .kConnecting) (error : Bool) (write : Option WriteOutcome) :
    ∃ t, s.handleEvent error write = .ok t ∧ t.Single := by
  unfold Connector.handleEvent
  cases error with
  | true =>
    obtain ⟨u, hu, husingle, hust⟩ := h.handleError hbase hst
    have hubase := (hbase.handleError hpc hu).1
    rw [if_pos rfl, hu, ok_bind]
    cases write with
    | none => exact ⟨u, rfl, husingle⟩
    | some outcome => exact husingle.handleWrite hubase (by rw [hust]; decide) outcome
  | false =>
    rw [if_neg Bool.false_ne_true, ok_bind]
    cases write with
    | none => exact ⟨s, rfl, h⟩
    | some outcome => exact h.handleWrite hbase (by rw [hst]; decide) outcome

theorem Single.alone_of_pc (h : s.Single) (hpc : s.pc ≠ .idle) :
    s.timers = 0 ∧ .startInLoop ∉ s.queue := by
  have hone := h.one
  unfold attempts at hone
  rw [if_neg hpc] at hone
  refine ⟨by omega, ?_⟩
  rw [← List.count_eq_zero]
  omega

theorem Single.of_done (h : s.Single) (hpc : s.pc ≠ .idle) (hst : s.state = .kDisconnected)
    (htq : t.queue = s.queue) (htpc : t.pc = .idle)
    (htimers : t.timers + (if t.state = .kDisconnected then 0 else 1) ≤ 1)
    (hfresh : t.fresh = s.fresh) (hup : t.up = s.up) : t.Single := by
  have hq := (h.alone_of_pc hpc).2
  obtain ⟨hfzero, huzero⟩ := h.no_connection (by rw [hst]; decide)
  constructor
  · unfold attempts
    rw [htq, List.count_eq_zero.mpr hq, if_pos htpc]
    omega
  · intro hne
    exact absurd htpc hne
  · rw [htq]
    exact h.ordered
  · omega
  · intro hlt
    omega
  · intro hlt
    omega

theorem Single.doConnect (h : s.Single) (hbase : s.Base) (hpc : s.pc = .connect)
    (savedErrno : ConnectErrno) : ∃ t, s.doConnect savedErrno = .ok t ∧ t.Single := by
  have hne : s.pc ≠ .idle := by
    rw [hpc]
    decide
  have hst := hbase.poised hne
  have hc := h.clear hne
  have htimers := (h.alone_of_pc hne).1
  rcases doConnect_cases s savedErrno with he | he | he
  · rw [he]
    unfold connecting
    rw [check_ok (show s.opened.channel = none from hc), ok_bind]
    refine ⟨_, rfl, h.of_done hne hst rfl rfl ?_ rfl rfl⟩
    show s.timers + 1 ≤ 1
    omega
  · refine ⟨_, he, ?_⟩
    unfold retry
    split
    · refine h.of_done hne hst rfl rfl ?_ rfl rfl
      show s.timers + 1 + 0 ≤ 1
      omega
    · refine h.of_done hne hst rfl rfl ?_ rfl rfl
      show s.timers + 0 ≤ 1
      omega
  · refine ⟨_, he, h.of_done hne hst rfl rfl ?_ rfl rfl⟩
    show s.timers + (if s.state = .kDisconnected then 0 else 1) ≤ 1
    rw [if_pos hst]
    omega

section

variable {f : ConnectorFunctor} {batch : List ConnectorFunctor}

theorem queue_of_batch (hb : s.batch = f :: batch) :
    s.queue = f :: { s with batch := batch }.queue := by
  unfold queue
  rw [hb, List.cons_append]

theorem attempts_of_batch (hb : s.batch = f :: batch) :
    s.attempts = { s with batch := batch }.attempts + if f = .startInLoop then 1 else 0 := by
  unfold attempts
  rw [queue_of_batch hb, List.count_cons]
  simp only [beq_iff_eq]
  omega

theorem Single.pop (h : s.Single) (hb : s.batch = f :: batch) :
    { s with batch := batch }.Single where
  one := by
    have hone := h.one
    rw [attempts_of_batch hb] at hone
    omega
  clear := h.clear
  ordered := by
    have hord := h.ordered
    rw [queue_of_batch hb] at hord
    exact (List.pairwise_cons.mp hord).2
  connections := h.connections
  wired := h.wired
  settled := h.settled

theorem Single.runStart (h : s.Single) (hbase : s.Base) (hb : s.batch = .startInLoop :: batch) :
    ∃ t, { s with batch := batch }.startInLoop = .ok t ∧ t.Single := by
  have hpop := h.pop hb
  have hzero : { s with batch := batch }.attempts = 0 := by
    have hone := h.one
    rw [attempts_of_batch hb, if_pos rfl] at hone
    omega
  obtain ⟨htimers, hq, _, hst⟩ := (attempts_eq_zero_iff _).mp hzero
  obtain ⟨hfresh, hup⟩ := hpop.no_connection (by rw [hst]; decide)
  have hc : s.channel = none := by
    have hord := h.ordered
    rw [queue_of_batch hb] at hord
    have hresets : s.resets = 0 := by
      unfold resets
      rw [queue_of_batch hb, List.count_eq_zero]
      intro hmem
      rcases List.mem_cons.mp hmem with he | hmem
      · cases he
      · exact (List.pairwise_cons.mp hord).1 _ hmem rfl rfl
    have hshape := hbase.shape
    rw [hresets, show s.state = .kDisconnected from hst] at hshape
    generalize s.channel = ch at hshape ⊢
    cases hshape with
    | free _ => rfl
  exact single_startInLoop hst hc hq htimers hpop.ordered hfresh hup

theorem Single.resetChannel (h : s.Single) : s.resetChannel.Single where
  one := h.one
  clear _ := rfl
  ordered := h.ordered
  connections := by
    have hconn := h.connections
    show 0 + (s.up + s.fresh) ≤ 1
    omega
  wired hlt := by
    refine h.wired ?_
    have hlt' : 0 < 0 + (s.up + s.fresh) := hlt
    omega
  settled _ := rfl

theorem Single.runFunctor (h : s.Single) (hbase : s.Base) (hrun : s.running = true)
    (hb : s.batch = f :: batch) :
    ∃ t, { s with batch := batch }.runFunctor f = .ok t ∧ t.Single := by
  cases f with
  | startInLoop => exact h.runStart hbase hb
  | stopInLoop => exact (h.pop hb).stopInLoop (hbase.pop hb (by decide) hrun)
  | resetChannel => exact ⟨_, rfl, (h.pop hb).resetChannel⟩

end

/-- `start` hands its functor over, or runs it in the loop's thread, when no attempt is
under way; what does not pass through the queue finds the channel reset. -/
def Orderly (s : Connector) : ConnectorAct → Prop
  | .startPush => s.Idle
  | .start => s.Idle ∧ s.channel = none
  | .timer => s.channel = none
  | _ => True

instance (s : Connector) : Decidable s.Idle := inferInstanceAs (Decidable (_ ∧ _))

instance (s : Connector) (a : ConnectorAct) : Decidable (s.Orderly a) := by
  unfold Orderly
  split <;> infer_instance

theorem Single.step (h : s.Single) (hbase : s.Base) {a : ConnectorAct} (hg : s.Orderly a)
    {x : Except Assertion Connector} (hx : Step true s a x) : ∃ t, x = .ok t ∧ t.Single := by
  cases hx with
  | startStore | stopStore | endFunctors _ _ _ =>
    exact ⟨_, rfl, h.one, h.clear, h.ordered, h.connections, h.wired, h.settled⟩
  | startPush _ =>
    have hsame : { s with starting := s.starting - 1 }.Single :=
      ⟨h.one, h.clear, h.ordered, h.connections, h.wired, h.settled⟩
    exact ⟨_, rfl, hsame.push_start ((attempts_eq_zero_iff s).mpr hg)⟩
  | stopPush _ =>
    have hsame : { s with stopping := s.stopping - 1 }.Single :=
      ⟨h.one, h.clear, h.ordered, h.connections, h.wired, h.settled⟩
    exact ⟨_, rfl, hsame.push_stop⟩
  | start _ =>
    obtain ⟨⟨htimers, hq, _, hst⟩, hc⟩ := hg
    obtain ⟨hfresh, hup⟩ := h.no_connection (by rw [hst]; decide)
    exact single_startInLoop hst hc hq htimers h.ordered hfresh hup
  | stop _ =>
    have hsame : { s with connect := false }.Single :=
      ⟨h.one, h.clear, h.ordered, h.connections, h.wired, h.settled⟩
    exact ⟨_, rfl, hsame.push_stop⟩
  | restart _ hen =>
    have hup : 0 < s.up := hen rfl
    have hconn := h.connections
    obtain ⟨htimers, hq, _⟩ := h.alone (by rw [h.wired (by omega)]; decide)
    exact single_startInLoop rfl (h.settled hup) hq htimers h.ordered
      (show s.fresh = 0 by omega) (show s.up - 1 = 0 by omega)
  | down _ hup =>
    have hconn := h.connections
    refine ⟨_, rfl, h.one, h.clear, h.ordered, ?_, ?_, ?_⟩
    · show s.fresh + (s.up - 1) ≤ 1
      omega
    · intro _
      exact h.wired (by omega)
    · intro _
      exact h.settled hup
  | readConnect hpc =>
    have hne : s.pc ≠ .idle := by
      rw [hpc]
      decide
    refine ⟨_, rfl, ?_, fun _ => h.clear hne, h.ordered, h.connections, h.wired, h.settled⟩
    exact Nat.le_trans (attempts_pc hne _) h.one
  | connect savedErrno hpc => exact h.doConnect hbase hpc savedErrno
  | event error write hpc _ hreg =>
    exact h.handleEvent hbase hpc (hbase.connecting_of_registered hreg) error write
  | timer _ _ hpos =>
    have hzero : { s with timers := s.timers - 1 }.attempts = 0 := by
      have hone := h.one
      rw [attempts_timer hpos] at hone
      omega
    obtain ⟨htimers, hq, _, hst⟩ := (attempts_eq_zero_iff _).mp hzero
    obtain ⟨hfresh, hup⟩ := h.no_connection (by rw [show s.state = _ from hst]; decide)
    exact single_startInLoop hst hg hq htimers h.ordered hfresh hup
  | beginFunctors _ hrun =>
    -- the functors change their place, not their order
    have hq : s.queue = s.pending ++ [] := by
      unfold queue
      rw [hbase.calm hrun, List.append_nil]
      rfl
    have hone := h.one
    have hord := h.ordered
    unfold attempts at hone
    rw [hq] at hone hord
    exact ⟨_, rfl, hone, h.clear, hord, h.connections, h.wired, h.settled⟩
  | runFunctor f batch _ hrun hb => exact h.runFunctor hbase hrun hb

/-! ### Whole runs -/

def Unclaimed (s : Connector) (n : Nat) : Prop :=
  n < s.created ∧ s.closed n = 0 ∧ s.passed n = 0

theorem Base.holder_of_unclaimed (h : s.Base) (hn : s.Unclaimed n) : s.holder = some n := by
  obtain ⟨hlt, hclosed, hpassed⟩ := hn
  by_contra hne
  rcases h.owned.fate n hlt hne with hf | hf
  · omega
  · omega

theorem Single.careful (h : s.Single) {a : ConnectorAct} {x : Except Assertion Connector}
    (hx : Step true s a x) : s.Careful a := by
  rintro rfl
  cases hx with
  | restart _ hen =>
    have hup : 0 < s.up := hen rfl
    rw [h.wired (by omega)]
    decide

/-- In every run of a client in which `start` comes when no attempt is under way and a retry
timer finds the channel reset, no assertion fails, and at no moment are two sockets open
that nobody else has got. -/
theorem no_assertion_fails {acts : List ConnectorAct} {x : Except Assertion Connector}
    (hg : (machine true).Along Orderly new acts) (h : (machine true).run new acts = some x) :
    ∃ t, x = .ok t ∧ ∀ m n, t.Unclaimed m → t.Unclaimed n → m = n := by
  have hstep : ∀ s a x, Base s ∧ Single s → s.Orderly a → (machine true).step s a = some x →
      ∃ t, x = .ok t ∧ t.Base ∧ t.Single := by
    intro s a x hinv hgs hx
    have hstep := step_sound hx
    obtain ⟨t, rfl, hsingle⟩ := hinv.2.step hinv.1 hgs hstep
    exact ⟨t, rfl, hinv.1.step (hinv.2.careful hstep) hstep rfl, hsingle⟩
  obtain ⟨t, rfl, hbase, _⟩ := Machine.run_ok hstep ⟨new_base, new_single⟩ hg h
  refine ⟨t, rfl, ?_⟩
  intro m n hm hn
  have he := (hbase.holder_of_unclaimed hm).symm.trans (hbase.holder_of_unclaimed hn)
  exact Option.some.inj he

/- Refused, tried again, connected, connected again after the connection went down, stopped
and started from another thread. -/
def reconnect : List ConnectorAct :=
  [.startStore, .startPush, .beginFunctors, .runFunctor, .readConnect, .connect .ECONNREFUSED,
    .endFunctors, .timer, .readConnect, .connect .EINPROGRESS, .event false (some .connected),
    .beginFunctors, .runFunctor, .endFunctors, .restart, .readConnect, .connect .EINPROGRESS,
    .stop, .beginFunctors, .runFunctor, .startStore, .startPush, .endFunctors, .beginFunctors,
    .runFunctor, .runFunctor, .readConnect, .connect .EINPROGRESS]

theorem no_assertion_fails_reconnect :
    (machine true).Along Orderly new reconnect ∧
      ∃ t, (machine true).run new reconnect = some (.ok t) ∧
        ∀ m n, t.Unclaimed m → t.Unclaimed n → m = n := by
  have hg : (machine true).Along Orderly new reconnect := by decide +kernel
  have hr : (machine true).runsTo new reconnect (fun _ => true) = true := by
    decide +kernel
  obtain ⟨t, ht, _⟩ := Machine.exists_of_runsTo hr
  obtain ⟨u, hu, hone⟩ := no_assertion_fails hg ht
  cases hu
  exact ⟨hg, t, ht, hone⟩

/- The retry timer outlives `stop`, and fires into the attempt of the next `start`; `start`
after a connection went down finds the state `kConnected`; and the retry that `stopInLoop`
arranges for a `start` under way may come before the channel is reset. -/
theorem assertions_fail :
    (machine true).run new [.start, .readConnect, .connect .ECONNREFUSED, .stop, .beginFunctors,
      .runFunctor, .endFunctors, .start, .readConnect, .connect .EINPROGRESS, .timer] =
      some (.error .connectorStartInLoop) ∧
    (machine true).run new [.start, .readConnect, .connect .EINPROGRESS,
      .event false (some .connected), .beginFunctors, .runFunctor, .endFunctors, .down, .start] =
      some (.error .connectorStartInLoop) ∧
    (machine true).run new [.start, .readConnect, .connect .EINPROGRESS, .stopStore, .stopPush,
      .startStore, .beginFunctors, .runFunctor, .endFunctors, .timer, .readConnect,
      .connect .EINPROGRESS] = some (.error .connectorConnecting) := by
  refine ⟨?_, ?_, ?_⟩
  · exact Machine.run_of_failsWith (by decide +kernel)
  · exact Machine.run_of_failsWith (by decide +kernel)
  · exact Machine.run_of_failsWith (by decide +kernel)

end Connector

end TstMuduo.Net
