import TstMuduo.Net.Lifecycle

/-!
# Every order of steps of a connection

One step of the machine from each phase, and from it what holds of every run that
avoids the hazards.
-/

namespace TstMuduo.Net
open TstMuduo.Lib

namespace TcpServer

variable {s : TcpServer} {a : Act} {x : Except Assertion TcpServer}

theorem userCall_keeps {w : WriteResult} {c : Call} (h : s.userCall w c = some x)
    (hc : ¬ (c = .startRead ∧ s.conn.state = .kDisconnected ∨
      c = .stopRead ∧ s.conn.Reregisters)) :
    ∃ d es, x = .ok (s.apply (d, es)) ∧ s.conn.Keeps d es := by
  cases c with
  | send m =>
    simp only [userCall] at h
    split at h
    · obtain ⟨d, es, hs, hk⟩ := s.conn.keeps_send m w
      simp only [hs, ok_bind, Option.some.injEq] at h
      exact ⟨d, es, h.symm, hk⟩
    · cases h
  | shutdown =>
    cases h
    exact ⟨_, _, rfl, s.conn.keeps_shutdown⟩
  | forceClose =>
    cases h
    exact ⟨_, _, rfl, s.conn.keeps_forceClose⟩
  | startRead =>
    cases h
    refine ⟨_, [], ?_, s.conn.keeps_startReadInLoop fun h => hc (.inl ⟨rfl, h⟩)⟩
    simp only [apply, queuedBy, List.append_nil]
  | stopRead =>
    cases h
    refine ⟨_, [], ?_, s.conn.keeps_stopReadInLoop fun h => hc (.inr ⟨rfl, h⟩)⟩
    simp only [apply, queuedBy, List.append_nil]

theorem runFunctor_keeps {w : WriteResult} {f : Functor} (h : s.runFunctor w f = some x)
    (he : f ≠ .connectEstablished) (hd : f ≠ .connectDestroyed)
    (hr : ¬ (f = .startReadInLoop ∧ s.conn.state = .kDisconnected))
    (hx : ¬ (f = .stopReadInLoop ∧ s.conn.Reregisters)) :
    (∃ d es, x = .ok (s.apply (d, es)) ∧ s.conn.Keeps d es) ∨
      x = .ok { s with stack := .user :: s.stack } ∨ x = s.forceCloseInLoop := by
  cases f with
  | connectEstablished => exact absurd rfl he
  | connectDestroyed => exact absurd rfl hd
  | sendInLoop m =>
    simp only [runFunctor] at h
    split at h
    · obtain ⟨d, es, hs, hk⟩ := s.conn.keeps_sendInLoop m w
      simp only [hs, ok_bind, Option.some.injEq] at h
      exact .inl ⟨d, es, h.symm, hk⟩
    · cases h
  | shutdownInLoop =>
    cases h
    exact .inl ⟨_, _, rfl, s.conn.keeps_shutdownInLoop⟩
  | forceCloseInLoop =>
    cases h
    exact .inr (.inr rfl)
  | startReadInLoop =>
    cases h
    refine .inl ⟨_, [], ?_, s.conn.keeps_startReadInLoop fun h => hr ⟨rfl, h⟩⟩
    simp only [apply, queuedBy, List.append_nil]
  | stopReadInLoop =>
    cases h
    refine .inl ⟨_, [], ?_, s.conn.keeps_stopReadInLoop fun h => hx ⟨rfl, h⟩⟩
    simp only [apply, queuedBy, List.append_nil]
  | writeComplete =>
    cases h
    exact .inr (.inl rfl)
  | highWaterMark n =>
    cases h
    exact .inr (.inl rfl)

theorem handleEvent_alive (ha : s.alive = true) (r : PollMask) :
    s.handleEvent r = .ok { s with
      active := .current, conn := setHandling s.conn true, stack := branches r } := by
  simp only [handleEvent, check_ok ha, ok_bind]
  rfl

theorem runTask_alive {w : WriteResult} {f : Functor} {fs : List Functor} (ha : s.alive = true)
    (he : s.ioQueue = f :: fs) : s.runTask w = { s with ioQueue := fs }.runFunctor w f := by
  unfold runTask
  rw [he]
  refine if_neg fun hr => ?_
  rw [ha] at hr
  cases hr.2

theorem test_plain (c : Conn) (call : Call) : Plain ((test c call).map Stage.functor) := by
  cases call with
  | send m =>
    simp only [test]
    split
    · exact Plain.singleton (f := .sendInLoop m) (by simp) (by simp)
    · exact Plain.nil
  | shutdown =>
    simp only [test]
    split
    · exact Plain.singleton (f := .shutdownInLoop) (by decide) (by decide)
    · exact Plain.nil
  | forceClose =>
    simp only [test]
    split
    · exact Plain.singleton (f := .forceCloseInLoop) (by decide) (by decide)
    · exact Plain.nil
  | startRead => exact Plain.singleton (f := .startReadInLoop) (by decide) (by decide)
  | stopRead => exact Plain.singleton (f := .stopReadInLoop) (by decide) (by decide)

theorem proceed_plain {stage : Stage} (h : Plain (s.calls.map Stage.functor))
    (hm : stage ∈ s.calls) :
    Plain [stage.functor] ∧ Plain ((s.calls.erase stage).map Stage.functor) := by
  constructor
  · intro f hf
    rw [List.mem_singleton.mp hf]
    exact h _ (List.mem_map_of_mem hm)
  · intro f hf
    obtain ⟨g, hg, rfl⟩ := List.mem_map.mp hf
    exact h _ (List.mem_map_of_mem (List.mem_of_mem_erase hg))

/-! ### Up -/

namespace Up

theorem inUserCode_calm (hu : Up s) (h : s.inUserCode = true) :
    .hup ∉ s.stack ∧ .read ∉ s.stack := by
  have ht := hu.top
  unfold inUserCode at h
  split at h
  next he => simp [he]
  next fs he =>
    rw [he] at ht ⊢
    simpa using ht
  · cases h

theorem handleEvent (hu : Up s) {r : PollMask} (hr : s.active = .ahead r) :
    ∃ t, s.handleEvent r = .ok t ∧ Up t := by
  have ht := tail_branches (hu.reports r hr)
  refine ⟨_, handleEvent_alive hu.alive r, { hu with
    frames := ?_, top := ht, turn := ⟨?_, fun _ => rfl, nofun⟩, reports := nofun }⟩
  · intro f hf
    rcases mem_branches hf with rfl | rfl | rfl
    · decide
    · decide
    · decide
  · exact fun he => absurd hr (hu.turn.not_ahead_between he r)

theorem handled (hu : Up s) : Up s.handled :=
  { hu with turn := .handled _ _, reports := nofun }

theorem poll (hu : Up s) (hi : s.idle = true) {revents : Option PollMask}
    (hg : ¬ Hazard s (.pollReturn revents)) : Up (s.poll revents) := by
  obtain ⟨a, ha, ht, hr⟩ := poll_spec hu.turn hi revents
  rw [ha]
  refine { hu with turn := ht, reports := ?_ }
  intro r h
  cases hr r h
  exact fun hb => hg (.inr hb)

theorem advance (hu : Up s) {n : ReadResult} {w : WriteResult} (h : s.advance n w = some x) :
    ∃ t, x = .ok t ∧ (Up t ∨ Down t) := by
  unfold TcpServer.advance at h
  split at h
  · cases h
  · cases h
  next fs he => exact absurd rfl (hu.frames .closeCallback (he ▸ List.mem_cons_self)).1
  next fs he => exact absurd rfl (hu.frames .remove (he ▸ List.mem_cons_self)).2.1
  next fs he =>
    have ht := hu.top
    rw [he] at ht
    cases h
    obtain ⟨t, ht, hd⟩ := (hu.pop he).handleClose (hu.turn.not_ahead he) ht.1 ht.2
    exact ⟨t, ht, .inr hd⟩
  next fs he =>
    have ht := hu.top
    rw [he] at ht
    cases n with
    | data =>
      cases h
      exact ⟨_, rfl, .inl ((hu.pop he).callUser (hu.turn.not_ahead he) ht.1 ht.2)⟩
    | eof =>
      cases h
      obtain ⟨t, ht, hd⟩ := (hu.pop he).handleClose (hu.turn.not_ahead he) ht.1 ht.2
      exact ⟨t, ht, .inr hd⟩
    | error =>
      cases h
      exact ⟨_, rfl, .inl (hu.pop he)⟩
  next fs he =>
    split at h
    next hw =>
      obtain ⟨d, es, hs, hk⟩ := s.conn.keeps_handleWrite w hw
      simp only [hs, ok_bind, Option.some.injEq] at h
      exact ⟨_, h.symm, .inl ((hu.pop he).apply hk)⟩
    · cases h
  next fs he => exact absurd rfl (hu.frames .established (he ▸ List.mem_cons_self)).2.2

theorem runTask (hu : Up s) {w : WriteResult} (hi : s.idle = true) (h : s.runTask w = some x)
    (hg : ¬ (s.ioQueue.head? = some .connectDestroyed ∧ s.conn.state = .kDisconnecting)) :
    ∃ t, x = .ok t ∧ (Up t ∨ Down t) := by
  obtain ⟨_, hst, hev⟩ := idle_iff.mp hi
  have ha := hu.turn.not_ahead_between hev
  have hrm : s.removable = true := removable_between hev
  have hh : .hup ∉ s.stack := by rw [hst]; exact List.not_mem_nil
  have hr : .read ∉ s.stack := by rw [hst]; exact List.not_mem_nil
  cases he : s.ioQueue with
  | nil =>
    rw [TcpServer.runTask, he] at h
    cases h
  | cons f fs =>
    rw [runTask_alive hu.alive he] at h
    by_cases hf : f = .connectDestroyed
    · subst hf
      have hs : s.conn.state = .kConnected := by
        refine hu.state.resolve_right fun hk => hg ⟨?_, hk⟩
        rw [he]
        rfl
      have hq : fs.count .connectDestroyed = 0 ∧ s.inMap = false ∧ s.server = false := by
        have ho := hu.owner
        rw [he, List.count_cons_self] at ho
        refine ⟨by omega, ?_⟩
        rcases ho with ho | ho
        · omega
        · exact ⟨ho.1, ho.2.1⟩
      have hfr : .connectEstablished ∉ fs := fun hm => hu.fresh (he ▸ List.mem_cons_of_mem _ hm)
      cases h
      exact ⟨_, rfl, .inr (hu.connectDestroyed hs ha hrm hh hr hfr hq.1 hq.2.2 hq.2.1)⟩
    · have hn : f ≠ .connectEstablished := by
        intro hm
        exact hu.fresh (he ▸ hm ▸ List.mem_cons_self)
      have hstate : s.conn.state ≠ .kDisconnected := by
        intro hk
        rcases hu.state with h | h
        · cases hk.symm.trans h
        · cases hk.symm.trans h
      have hq := hu.dequeue he hf
      have hkeep := runFunctor_keeps h hn hf (fun hk => hstate hk.2) fun hk => hstate hk.2.1
      rcases hkeep with ⟨d, es, rfl, hk⟩ | rfl | rfl
      · exact ⟨_, rfl, .inl (hq.apply hk)⟩
      · exact ⟨_, rfl, .inl (hq.callUser ha hh hr)⟩
      · obtain ⟨t, ht, hd⟩ := hq.handleClose ha hh hr
        refine ⟨t, ?_, .inr hd⟩
        rw [forceCloseInLoop, if_pos hu.state]
        exact ht

theorem proceed (hu : Up s) {stage : Stage} (hm : stage ∈ s.calls) :
    ∃ t, s.proceed stage = .ok t ∧ Up t := by
  obtain ⟨hf, he⟩ := proceed_plain hu.calls hm
  cases stage with
  | store f =>
    refine ⟨_, rfl, { hu with state := .inr rfl, calls := ?_ }⟩
    rw [List.map_append]
    exact he.append hf
  | push f =>
    have hs : s.proceed (.push f) =
        .ok { s with ioQueue := s.ioQueue ++ [f], calls := s.calls.erase (.push f) } := by
      simp only [TcpServer.proceed, check_ok hu.looping, ok_bind]
      rfl
    exact ⟨_, hs, { hu.enqueue hf with calls := he }⟩

theorem destroyServer (hu : Up s) (hs : s.server = true)
    (hl : s.sameLoop = true → s.inUserCode = true) (hg : ¬ Hazard s .destroyServer) :
    Up s.destroyServer ∨ Down s.destroyServer := by
  obtain ⟨hi, _, hq⟩ : s.inMap = true ∧ s.server = true ∧
      s.ioQueue.count .connectDestroyed = 0 := by
    rcases hu.owner with ho | ho
    · exact ho
    · cases hs.symm.trans ho.2.1
  unfold TcpServer.destroyServer
  rw [if_pos hi]
  split
  next hsl =>
    right
    have hk : s.conn.state = .kConnected :=
      hu.state.resolve_right fun h => hg ⟨hsl, hi, .inl h⟩
    have hrm : s.removable = true := by
      by_contra hn
      exact hg ⟨hsl, hi, .inr (Bool.not_eq_true _ ▸ hn)⟩
    obtain ⟨hh, hr⟩ := hu.inUserCode_calm (hl hsl)
    have ha := not_ahead_of_removable hu.turn hrm
    exact hu.connectDestroyed hk ha hrm hh hr hu.fresh hq rfl rfl
  next =>
    left
    refine { hu with fresh := ?_, owner := .inr ⟨rfl, rfl, ?_⟩ }
    · exact fresh_append_connectDestroyed hu.fresh
    · rw [List.count_append, hq]
      rfl

theorem isReferenced (hu : Up s) : s.isReferenced = true := by
  rcases hu.owner with ⟨hi, _⟩ | ⟨_, _, hq⟩
  · simp only [TcpServer.isReferenced, hi, Bool.true_or]
  · have hm : .connectDestroyed ∈ s.ioQueue := List.count_pos_iff.mp (by omega)
    exact isReferenced_of_mem hm rfl

theorem step (hu : Up s) (hg : ¬ Hazard s a) (h : s.step a = some x) :
    ∃ t, x = .ok t ∧ (Up t ∨ Down t) := by
  cases a with
  | pollReturn r =>
    simp only [TcpServer.step] at h
    split at h
    next hc =>
      cases h
      exact ⟨_, rfl, .inl (hu.poll hc.1 hg)⟩
    · cases h
  | handleEvent =>
    simp only [TcpServer.step] at h
    split at h
    next r ha _ =>
      cases h
      obtain ⟨t, ht, hut⟩ := hu.handleEvent ha
      exact ⟨t, ht, .inl hut⟩
    · cases h
  | handled =>
    simp only [TcpServer.step] at h
    split at h
    · cases h
      exact ⟨_, rfl, .inl hu.handled⟩
    · cases h
  | endEvents =>
    simp only [TcpServer.step] at h
    split at h
    next hc =>
      cases h
      exact ⟨_, rfl, .inl { hu with turn := hu.turn.endEvents hc.2.2 }⟩
    · cases h
  | advance n w => exact hu.advance h
  | ret =>
    simp only [TcpServer.step] at h
    split at h
    next fs he =>
      cases h
      exact ⟨_, rfl, .inl (hu.pop he)⟩
    · cases h
  | runTask w =>
    simp only [TcpServer.step] at h
    split at h
    next hi => exact hu.runTask hi h fun hk => hg (.inl hk)
    · cases h
  | userCall c w =>
    simp only [TcpServer.step] at h
    split at h
    · obtain ⟨d, es, rfl, hk⟩ := userCall_keeps h hg
      exact ⟨_, rfl, .inl (hu.apply hk)⟩
    · cases h
  | keepPointer =>
    simp only [TcpServer.step] at h
    split at h
    · cases h
      exact ⟨_, rfl, .inl { hu with }⟩
    · cases h
  | dropPointer =>
    cases h
    exact ⟨_, rfl, .inl { hu with }⟩
  | otherCall c =>
    simp only [TcpServer.step] at h
    split at h
    · cases h
      refine ⟨_, rfl, .inl { hu with calls := ?_ }⟩
      rw [List.map_append]
      exact hu.calls.append (test_plain _ _)
    · cases h
  | proceed stage =>
    simp only [TcpServer.step] at h
    split at h
    next hm =>
      obtain ⟨t, ht, hut⟩ := hu.proceed hm
      rw [ht] at h
      cases h
      exact ⟨t, rfl, .inl hut⟩
    · cases h
  | destroyServer =>
    simp only [TcpServer.step] at h
    split at h
    next hc =>
      cases h
      exact ⟨_, rfl, hu.destroyServer hc.1 hc.2 hg⟩
    · cases h
  | runBase =>
    simp only [TcpServer.step, hu.base] at h
    cases h
  | exitLoop => exact absurd (.inr hu.registered) hg
  | destroy inLoop =>
    simp only [TcpServer.step, hu.isReferenced] at h
    split at h
    next hc => cases hc.2
    · cases h

end Up

/-! ### Down -/

theorem count_closeCallback_remove (fs : List Frame) :
    (Frame.remove :: fs).count .closeCallback = fs.count .closeCallback :=
  List.count_cons_of_ne (by decide)

theorem count_remove_closeCallback (fs : List Frame) :
    (Frame.closeCallback :: fs).count .remove = fs.count .remove :=
  List.count_cons_of_ne (by decide)

namespace Down

theorem handleEvent (hd : Down s) {r : PollMask} (hr : s.active = .ahead r) (hst : s.stack = []) :
    ∃ t, s.handleEvent r = .ok t ∧ Down t := by
  obtain ⟨⟨hh, hn⟩, _⟩ := hd.reports r hr
  have hcl : (branches r).count .closeCallback = s.stack.count .closeCallback := by
    rw [hst]
    exact List.count_eq_zero.mpr fun hm => by rcases mem_branches hm with h | h | h <;> cases h
  have hrm : .remove ∉ branches r := by
    intro hm
    rcases mem_branches hm with h | h | h <;> cases h
  have hde : (branches r).count .remove = s.stack.count .remove := by
    rw [hst]
    exact List.count_eq_zero.mpr hrm
  refine ⟨_, handleEvent_alive hd.alive r, { hd with
    frames := ?_
    turn := ⟨fun he => absurd hr (hd.turn.not_ahead_between he r), fun _ => rfl,
      fun _ h => by cases h⟩
    reports := fun _ h => by cases h
    removing := fun h => absurd h hrm
    pending := ?_ }⟩
  · intro f hf
    refine ⟨fun h => hh (h ▸ hf), fun h => hn (h ▸ hf), ?_⟩
    rcases mem_branches hf with rfl | rfl | rfl
    · decide
    · decide
    · decide
  · simp only [closers, destroyers, hcl, hde]
    refine hd.pending.imp id fun hgone => ⟨hgone.1, hgone.2.1, hgone.2.2.imp id fun hp => ?_⟩
    exact ⟨hp.1, hp.2.1, hp.2.2⟩

theorem handled (hd : Down s) (hst : s.stack = []) : Down s.handled := by
  refine { hd with
    turn := .handled _ _
    reports := nofun
    removing := fun h => absurd h (hst ▸ List.not_mem_nil)
    pending := ?_ }
  refine hd.pending.imp id fun hgone => ⟨hgone.1, hgone.2.1, hgone.2.2.imp id fun hp => ?_⟩
  exact ⟨hp.1, hp.2.1, hp.2.2⟩

theorem poll (hd : Down s) (hi : s.idle = true) {revents : Option PollMask}
    (hm : revents.isSome = true → s.conn.channel.monitored = true)
    (hg : ¬ Hazard s (.pollReturn revents)) : Down (s.poll revents) := by
  obtain ⟨a, ha, ht, hr⟩ := poll_spec hd.turn hi revents
  have hst := (idle_iff.mp hi).2.1
  rw [ha]
  refine { hd with turn := ht, reports := ?_, removing := fun h => ?_ }
  · intro r h
    cases hr r h
    have hx : s.conn.channel.index = .kAdded := of_decide_eq_true (hm rfl)
    refine ⟨⟨fun hb => hg (.inl ⟨hd.state, .inl hb⟩), fun hb => hg (.inl ⟨hd.state, .inr hb⟩)⟩, ?_⟩
    rw [hx]
    decide
  · exact absurd h (hst ▸ List.not_mem_nil)

/-- The rest of `connectDestroyed`, the one time it is run. -/
theorem remove (hd : Down s) {fs : List Frame} (he : s.stack = .remove :: fs) :
    ∃ t, { s with stack := fs }.remove = .ok t ∧ Down t := by
  have hone : s.destroyers = s.ioQueue.count .connectDestroyed + (fs.count .remove + 1) := by
    rw [destroyers, he, List.count_cons_self]
  obtain ⟨hi, hv, hz, hx⟩ : s.inMap = false ∧ (s.server = true → s.closers = 0) ∧
      s.destroyers = 1 ∧ s.conn.channel.index ≠ .kNew := by
    rcases hd.pending with ⟨_, _, _, hz, _⟩ | ⟨hi, hv, hp | ⟨hz, _⟩⟩
    · omega
    · exact ⟨hi, hv, hp⟩
    · omega
  have hrm : s.removable = true := hd.removing (he ▸ List.mem_cons_self)
  obtain ⟨c, hc, hrem, hev, hhand⟩ := Channel.remove_spec hd.quiet hx
  have hs : { s with stack := fs }.remove =
      .ok { s with stack := fs, conn := { s.conn with channel := c } } := by
    show s.conn.channel.remove s.removable >>= _ = _
    rw [hrm, hc]
    rfl
  refine ⟨_, hs, { hd with
    quiet := hev.trans hd.quiet
    frames := fun f hf => hd.frames f (he ▸ List.mem_cons_of_mem _ hf)
    turn := hhand.symm ▸ hd.turn.pop he
    reports := fun r hr => absurd hr (hd.turn.not_ahead he r)
    removing := fun _ => hrm
    pending := .inr ⟨hi, ?_, .inr ⟨?_, hrem⟩⟩ }⟩
  · intro h
    have hc := hv h
    rw [closers, he, count_closeCallback_remove] at hc
    exact hc
  · simp only [destroyers]
    omega

theorem connectDestroyed (hd : Down s) (ha : ∀ r, s.active ≠ .ahead r) (hrm : s.removable = true)
    {v i : Bool} {q : List Functor} (hfr : .connectEstablished ∉ q) (hi : i = false)
    (hq : q.count .connectDestroyed + s.stack.count .remove = 0)
    (hc : v = true → s.closers = 0) (hx : s.conn.channel.index ≠ .kNew) :
    Down { s with server := v, inMap := i, ioQueue := q }.connectDestroyed := by
  have hs : s.conn.state ≠ .kConnected := by
    rw [hd.state]
    decide
  rw [TcpServer.connectDestroyed, if_neg hs]
  refine { hd with
    fresh := hfr
    frames := ?_
    turn := hd.turn.push ha _
    removing := fun _ => hrm
    pending := .inr ⟨hi, ?_, .inl ⟨?_, hx⟩⟩ }
  · intro f hf
    rcases List.mem_cons.mp hf with rfl | hf
    · decide
    · exact hd.frames f hf
  · intro h
    have hz := hc h
    rw [closers, count_closeCallback_remove]
    exact hz
  · simp only [destroyers, List.count_cons_self]
    omega

theorem advance (hd : Down s) {n : ReadResult} {w : WriteResult} (h : s.advance n w = some x)
    (hg : ¬ (s.stack.head? = some .closeCallback ∧ s.server = false)) :
    ∃ t, x = .ok t ∧ Down t := by
  unfold TcpServer.advance at h
  split at h
  · cases h
  · cases h
  next fs he =>
    cases h
    have hv : s.server = true := by
      cases hv : s.server with
      | true => rfl
      | false => exact absurd ⟨by rw [he]; rfl, hv⟩ hg
    have hsub : fs ⊆ s.stack := fun f hf => he ▸ List.mem_cons_of_mem _ hf
    have hrm : fs.count .remove = s.stack.count .remove := by
      rw [he, count_remove_closeCallback]
    have hcl : fs.count .closeCallback + s.baseQueue + 1 = s.closers := by
      rw [closers, he, List.count_cons_self]
      omega
    unfold TcpServer.removeConnection
    simp only [check_ok hv, ok_bind]
    split
    · exact hd.removeConnectionInLoop hsub (hd.turn.pop he) hrm hcl hv
    · refine ⟨_, rfl, ?_⟩
      have hde :
          { s with stack := fs, baseQueue := s.baseQueue + 1 }.destroyers = s.destroyers := by
        simp only [destroyers, hrm]
      have hcs : { s with stack := fs, baseQueue := s.baseQueue + 1 }.closers = s.closers := by
        simp only [closers] at hcl ⊢
        omega
      refine { hd with
        frames := fun f hf => hd.frames f (hsub hf)
        turn := hd.turn.pop he
        removing := fun hm => hd.removing (hsub hm)
        pending := ?_ }
      rw [hcs, hde]
      exact hd.pending
  next fs he =>
    cases h
    exact hd.remove he
  next fs he => exact absurd rfl (hd.frames .hup (he ▸ List.mem_cons_self)).1
  next fs he => exact absurd rfl (hd.frames .read (he ▸ List.mem_cons_self)).2.1
  next fs he =>
    split at h
    next hw =>
      obtain ⟨d, es, hs, hk⟩ := s.conn.keeps_handleWrite w hw
      simp only [hs, ok_bind, Option.some.injEq] at h
      exact ⟨_, h.symm, (hd.pop he (by decide) (by decide)).apply hk⟩
    · cases h
  next fs he => exact absurd rfl (hd.frames .established (he ▸ List.mem_cons_self)).2.2

theorem runTask (hd : Down s) {w : WriteResult} (hi : s.idle = true) (h : s.runTask w = some x)
    (hg : ¬ Hazard s (.runTask w)) : ∃ t, x = .ok t ∧ Down t := by
  obtain ⟨_, hst, hev⟩ := idle_iff.mp hi
  have ha := hd.turn.not_ahead_between hev
  cases he : s.ioQueue with
  | nil =>
    rw [TcpServer.runTask, he] at h
    cases h
  | cons f fs =>
    rw [runTask_alive hd.alive he] at h
    by_cases hf : f = .connectDestroyed
    · subst hf
      have hone : s.destroyers = fs.count .connectDestroyed + 1 + s.stack.count .remove := by
        rw [destroyers, he, List.count_cons_self]
      obtain ⟨hm, hv, hz, hx⟩ : s.inMap = false ∧ (s.server = true → s.closers = 0) ∧
          s.destroyers = 1 ∧ s.conn.channel.index ≠ .kNew := by
        rcases hd.pending with ⟨_, _, _, hz, _⟩ | ⟨hi, hv, hp | ⟨hz, _⟩⟩
        · omega
        · exact ⟨hi, hv, hp⟩
        · omega
      have hfr : .connectEstablished ∉ fs := fun hm => hd.fresh (he ▸ List.mem_cons_of_mem _ hm)
      cases h
      refine ⟨_, rfl, hd.connectDestroyed ha (removable_between hev) hfr hm (by omega) hv hx⟩
    · have hn : f ≠ .connectEstablished := by
        intro hm
        exact hd.fresh (he ▸ hm ▸ List.mem_cons_self)
      have hr : ¬ (f = .startReadInLoop ∧ s.conn.state = .kDisconnected) := by
        intro hk
        exact hg (.inr (.inl ⟨by rw [he, hk.1]; rfl, hk.2⟩))
      have hx : ¬ (f = .stopReadInLoop ∧ s.conn.Reregisters) := by
        intro hk
        exact hg (.inr (.inr (.inl ⟨by rw [he, hk.1]; rfl, hk.2⟩)))
      have hq := hd.dequeue he hf
      rcases runFunctor_keeps h hn hf hr hx with ⟨d, es, rfl, hk⟩ | rfl | rfl
      · exact ⟨_, rfl, hq.apply hk⟩
      · exact ⟨_, rfl, hq.callUser ha⟩
      · refine ⟨_, ?_, hq⟩
        refine if_neg fun hk => ?_
        rcases hk with hk | hk
        · cases hd.state.symm.trans hk
        · cases hd.state.symm.trans hk

theorem proceed (hd : Down s) {stage : Stage} (hm : stage ∈ s.calls)
    (hg : ¬ Hazard s (.proceed stage)) : ∃ t, s.proceed stage = .ok t ∧ Down t := by
  obtain ⟨hf, he⟩ := proceed_plain hd.calls hm
  cases stage with
  | store f => exact absurd hd.state hg
  | push f =>
    have hl : s.ioLooping = true := Bool.not_eq_false _ ▸ hg
    have hs : s.proceed (.push f) =
        .ok { s with ioQueue := s.ioQueue ++ [f], calls := s.calls.erase (.push f) } := by
      simp only [TcpServer.proceed, check_ok hl, ok_bind]
      rfl
    exact ⟨_, hs, { hd.enqueue hf with calls := he }⟩

theorem destroyServer (hd : Down s) (hg : ¬ Hazard s .destroyServer) : Down s.destroyServer := by
  unfold TcpServer.destroyServer
  split
  next hi =>
    obtain ⟨hz, hx⟩ : s.destroyers = 0 ∧ s.conn.channel.index ≠ .kNew := by
      rcases hd.pending with hp | hp
      · exact hp.2.2.2
      · cases hi.symm.trans hp.1
    rw [destroyers] at hz
    split
    next hsl =>
      have hrm : s.removable = true := by
        by_contra hn
        exact hg ⟨hsl, hi, .inr (Bool.not_eq_true _ ▸ hn)⟩
      have ha := not_ahead_of_removable hd.turn hrm
      exact hd.connectDestroyed ha hrm hd.fresh rfl hz (fun h => absurd h (by decide)) hx
    next =>
      refine { hd with
        fresh := fresh_append_connectDestroyed hd.fresh
        pending := .inr ⟨rfl, fun h => (by cases h), .inl ⟨?_, hx⟩⟩ }
      simp only [destroyers, List.count_append, List.count_singleton_self]
      omega
  next hi =>
    refine { hd with pending := .inr ⟨rfl, fun h => (by cases h), ?_⟩ }
    rcases hd.pending with hp | hp
    · exact absurd hp.1 hi
    · exact hp.2.2

/-- What is destroyed has been removed, and its handlers have returned. -/
theorem destroy (hd : Down s) (hr : s.isReferenced = false) (hl : s.ioLooping = true)
    (inLoop : Bool) : s.destroy inLoop = .ok { s with alive := false } ∧
      Dead { s with alive := false } := by
  simp only [TcpServer.isReferenced, Bool.or_eq_false_iff, Bool.not_eq_false', List.isEmpty_iff,
    decide_eq_false_iff_not, ne_eq, Decidable.not_not, List.any_eq_false, Bool.not_eq_true'] at hr
  obtain ⟨⟨⟨⟨⟨⟨hm, hu⟩, hst⟩, hc⟩, hb⟩, hcur⟩, hq⟩ := hr
  have hraw : ∀ f ∈ s.ioQueue, isRaw f = true := fun f hf => Bool.not_eq_false _ ▸ hq f hf
  have hz : s.destroyers = 0 := by
    have hn : s.ioQueue.count .connectDestroyed = 0 :=
      List.count_eq_zero.mpr fun h => by cases hraw _ h
    rw [destroyers, hn, hst]
    rfl
  obtain ⟨hx, hrem⟩ : s.conn.channel.index = .kNew ∧ s.conn.channel.Removed := by
    rcases hd.pending with ⟨hi, _⟩ | ⟨_, _, ⟨hone, _⟩ | ⟨_, hrem⟩⟩
    · cases hm.symm.trans hi
    · omega
    · exact ⟨hrem.index, hrem⟩
  have hhand : s.conn.channel.eventHandling = false :=
    Bool.not_eq_true _ ▸ fun h => hcur (hd.turn.handling h)
  have hpass : s.active = .absent ∨ s.active = .behind := by
    cases ha : s.active with
    | absent => exact .inl rfl
    | ahead r => exact absurd hx (hd.reports r ha).2
    | current => exact absurd ha hcur
    | behind => exact .inr rfl
  constructor
  · simp only [TcpServer.destroy, check_ok hd.state, ok_bind, hl, hrem.destroy hhand]
    rfl
  · exact {
      log := hd.log
      alive := rfl
      passed := hpass
      refs := hu
      calls := hc
      stack := hst
      base := hb
      inMap := hm
      state := hd.state
      raw := hraw }

theorem exitLoop (hd : Down s) (hidle : s.idle = true) (hx : s.conn.channel.index = .kNew) :
    ∃ t, s.exitLoop = .ok t ∧ (Down t ∨ Dead t) := by
  obtain ⟨hl, hst, _⟩ := idle_iff.mp hidle
  have ht : Down { s with ioQueue := [] } := by
    refine { hd with fresh := List.not_mem_nil, pending := ?_ }
    rcases hd.pending with ⟨_, _, _, _, hn⟩ | ⟨hi, hc, ⟨_, hn⟩ | ⟨_, hrem⟩⟩
    · exact absurd hx hn
    · exact absurd hx hn
    · refine .inr ⟨hi, hc, .inr ⟨?_, hrem⟩⟩
      simp only [destroyers, hst, List.count_nil]
  unfold TcpServer.exitLoop
  by_cases hr : { s with ioQueue := [] }.isReferenced = false
  · obtain ⟨he, hdead⟩ := ht.destroy hr hl true
    have hdrop : { s with ioQueue := [] }.dropLast = .ok { s with ioQueue := [], alive := false } :=
      (if_pos ⟨hd.alive, hr⟩).trans he
    refine ⟨{ s with ioQueue := [], alive := false, ioLooping := false }, ?_, .inr { hdead with }⟩
    rw [hdrop]
    rfl
  · have hdrop : { s with ioQueue := [] }.dropLast = .ok { s with ioQueue := [] } :=
      if_neg fun h => hr h.2
    refine ⟨{ s with ioQueue := [], ioLooping := false }, ?_, .inl { ht with }⟩
    rw [hdrop]
    rfl

theorem step (hd : Down s) (hg : ¬ Hazard s a) (h : s.step a = some x) :
    ∃ t, x = .ok t ∧ (Down t ∨ Dead t) := by
  cases a with
  | pollReturn revents =>
    simp only [TcpServer.step] at h
    split at h
    next hc =>
      cases h
      exact ⟨_, rfl, .inl (hd.poll hc.1 (fun hs => (hc.2 hs).2) hg)⟩
    · cases h
  | handleEvent =>
    simp only [TcpServer.step] at h
    split at h
    next r ha hst =>
      cases h
      obtain ⟨t, ht, hdt⟩ := hd.handleEvent ha hst
      exact ⟨t, ht, .inl hdt⟩
    · cases h
  | handled =>
    simp only [TcpServer.step] at h
    split at h
    next hst =>
      cases h
      exact ⟨_, rfl, .inl (hd.handled hst)⟩
    · cases h
  | endEvents =>
    simp only [TcpServer.step] at h
    split at h
    next hc =>
      cases h
      refine ⟨_, rfl, .inl { hd with turn := hd.turn.endEvents hc.2.2, removing := fun hm => ?_ }⟩
      exact absurd hm (hc.2.1 ▸ List.not_mem_nil)
    · cases h
  | advance n w =>
    obtain ⟨t, ht, hdt⟩ := hd.advance h hg
    exact ⟨t, ht, .inl hdt⟩
  | ret =>
    simp only [TcpServer.step] at h
    split at h
    next fs he =>
      cases h
      exact ⟨_, rfl, .inl (hd.pop he (by decide) (by decide))⟩
    · cases h
  | runTask w =>
    simp only [TcpServer.step] at h
    split at h
    next hi =>
      obtain ⟨t, ht, hdt⟩ := hd.runTask hi h hg
      exact ⟨t, ht, .inl hdt⟩
    · cases h
  | userCall c w =>
    simp only [TcpServer.step] at h
    split at h
    · obtain ⟨d, es, rfl, hk⟩ := userCall_keeps h hg
      exact ⟨_, rfl, .inl (hd.apply hk)⟩
    · cases h
  | keepPointer =>
    simp only [TcpServer.step] at h
    split at h
    · cases h
      exact ⟨_, rfl, .inl { hd with }⟩
    · cases h
  | dropPointer =>
    cases h
    exact ⟨_, rfl, .inl { hd with }⟩
  | otherCall c =>
    simp only [TcpServer.step] at h
    split at h
    · cases h
      refine ⟨_, rfl, .inl { hd with calls := ?_ }⟩
      rw [List.map_append]
      exact hd.calls.append (test_plain _ _)
    · cases h
  | proceed stage =>
    simp only [TcpServer.step] at h
    split at h
    next hm =>
      obtain ⟨t, ht, hdt⟩ := hd.proceed hm hg
      rw [ht] at h
      cases h
      exact ⟨t, rfl, .inl hdt⟩
    · cases h
  | destroyServer =>
    simp only [TcpServer.step] at h
    split at h
    · cases h
      exact ⟨_, rfl, .inl (hd.destroyServer hg)⟩
    · cases h
  | runBase =>
    simp only [TcpServer.step] at h
    split at h
    · cases h
    next k hk =>
      cases h
      have hv : s.server = true := Bool.not_eq_false _ ▸ hg
      obtain ⟨t, ht, hdt⟩ := hd.removeConnectionInLoop (k := k) (List.Subset.refl _) hd.turn rfl
        (by rw [closers, hk]; omega) hv
      exact ⟨t, ht, .inl hdt⟩
  | exitLoop =>
    simp only [TcpServer.step] at h
    split at h
    next hc =>
      cases h
      exact hd.exitLoop hc.2.2 (Decidable.not_not.mp fun hn => hg (.inr hn))
    · cases h
  | destroy inLoop =>
    simp only [TcpServer.step] at h
    split at h
    next hc =>
      have hl : s.ioLooping = true := Bool.not_eq_false _ ▸ hg
      obtain ⟨ht, hdt⟩ := hd.destroy hc.2 hl inLoop
      rw [ht] at h
      cases h
      exact ⟨_, rfl, .inr hdt⟩
    · cases h

end Down

/-! ### Connecting and dead -/

namespace Connecting

theorem established (hc : Connecting s) {q : List Functor} (hfr : .connectEstablished ∉ q)
    (ho : s.inMap = true ∧ s.server = true ∧ q.count .connectDestroyed = 0 ∨
      s.inMap = false ∧ s.server = false ∧ q.count .connectDestroyed = 1) :
    ∃ t, { s with stack := [], ioQueue := q }.connectEstablished = .ok t ∧ Up t := by
  have hs : s.conn.connectEstablished =
      .ok { s.conn with state := .kConnected, channel := s.conn.channel.tie.enableReading } := by
    simp only [Conn.connectEstablished, check_ok hc.state, ok_bind]
    rfl
  refine ⟨_, by simp only [connectEstablished, hs, ok_bind]; rfl, ?_⟩
  constructor
  case state => exact .inl rfl
  case registered => exact Channel.update_index _
  case log => simp only [connectionCallback, hc.log, List.nil_append]
  case alive => exact hc.alive
  case looping => exact hc.looping
  case calls =>
    simp only [connectionCallback, hc.calls]
    exact Plain.nil
  case base => exact hc.base
  case fresh => exact hfr
  case frames =>
    intro f hf
    rw [List.mem_singleton.mp hf]
    decide
  case top => exact ⟨List.not_mem_nil, List.not_mem_nil⟩
  case turn =>
    have hh : s.conn.channel.tie.enableReading.eventHandling = false :=
      (Channel.update_eventHandling _).trans hc.handling
    refine ⟨fun _ => .inl hc.active, fun h => ?_, fun r hr => ?_⟩
    · cases hh.symm.trans h
    · cases hc.active.symm.trans hr
  case reports =>
    intro r hr
    cases hc.active.symm.trans hr
  case owner => exact ho

theorem waiting (hc : Connecting s) : s.inMap = true ∨ .connectEstablished ∈ s.ioQueue := by
  rcases hc.pending with ⟨_, _, _, hi, _⟩ | ⟨_, _, ⟨_, hi, _⟩ | ⟨hq, _, _⟩⟩
  · exact .inl hi
  · exact .inl hi
  · exact .inr (hq ▸ List.mem_cons_self)

theorem advance (hc : Connecting s) {n : ReadResult} {w : WriteResult}
    (h : s.advance n w = some x) : ∃ t, x = .ok t ∧ Up t := by
  rcases hc.pending with ⟨_, hst, hq, hi, hv⟩ | ⟨_, hst, _⟩
  · simp only [TcpServer.advance, hst] at h
    cases h
    obtain ⟨t, ht, hu⟩ := hc.established (q := s.ioQueue) (by rw [hq]; exact List.not_mem_nil)
      (.inl ⟨hi, hv, by rw [hq]; rfl⟩)
    exact ⟨t, ht, hu⟩
  · simp only [TcpServer.advance, hst] at h
    cases h

theorem runTask (hc : Connecting s) {w : WriteResult} (hi : s.idle = true)
    (h : s.runTask w = some x) : ∃ t, x = .ok t ∧ Up t := by
  obtain ⟨_, hst, _⟩ := idle_iff.mp hi
  have run (fs : List Functor) (hq : s.ioQueue = .connectEstablished :: fs)
      (hfr : .connectEstablished ∉ fs)
      (ho : s.inMap = true ∧ s.server = true ∧ fs.count .connectDestroyed = 0 ∨
        s.inMap = false ∧ s.server = false ∧ fs.count .connectDestroyed = 1) :
      ∃ t, x = .ok t ∧ Up t := by
    rw [runTask_alive hc.alive hq] at h
    obtain ⟨t, ht, hu⟩ := hc.established hfr ho
    rw [← hst] at ht
    cases h
    exact ⟨t, ht, hu⟩
  rcases hc.pending with ⟨_, hst', _⟩ | ⟨_, _, ⟨hq, hm, hv⟩ | ⟨hq, hm, hv⟩⟩
  · cases hst.symm.trans hst'
  · exact run [] hq List.not_mem_nil (.inl ⟨hm, hv, rfl⟩)
  · exact run [.connectDestroyed] hq (by decide) (.inr ⟨hm, hv, rfl⟩)

theorem destroyServer (hc : Connecting s) (hv : s.server = true)
    (hl : s.sameLoop = true → s.inUserCode = true) : Connecting s.destroyServer := by
  rcases hc.pending with ⟨hsl, hst, _⟩ | ⟨hsl, hst, ⟨hq, hi, _⟩ | ⟨_, _, hv'⟩⟩
  · have hn := hl hsl
    simp only [inUserCode, hst] at hn
    cases hn
  · have hs : s.destroyServer = { s with
        server := false
        inMap := false
        ioQueue := [.connectEstablished, .connectDestroyed] } := by
      simp only [TcpServer.destroyServer, hi, hsl, if_true, Bool.false_eq_true, if_false, hq]
      rfl
    rw [hs]
    exact { hc with pending := .inr ⟨hsl, hst, .inr ⟨rfl, rfl, rfl⟩⟩ }
  · cases hv.symm.trans hv'

theorem step (hc : Connecting s) (hg : ¬ Hazard s a) (h : s.step a = some x) :
    ∃ t, x = .ok t ∧ (Connecting t ∨ Up t) := by
  have hstack : s.stack = [.established] ∨ s.stack = [] := by
    rcases hc.pending with hp | hp
    · exact .inl hp.2.1
    · exact .inr hp.2.1
  cases a with
  | pollReturn revents =>
    simp only [TcpServer.step, Channel.monitored, hc.index] at h
    split at h
    next hk =>
      cases h
      cases revents with
      | none => exact ⟨_, rfl, .inl { hc with active := rfl }⟩
      | some r => cases (hk.2 rfl).2
    · cases h
  | handleEvent =>
    simp only [TcpServer.step, hc.active] at h
    cases h
  | handled =>
    simp only [TcpServer.step, hc.active] at h
    cases h
  | endEvents =>
    simp only [TcpServer.step] at h
    split at h
    · cases h
      exact ⟨_, rfl, .inl { hc with }⟩
    · cases h
  | advance n w =>
    obtain ⟨t, ht, hu⟩ := hc.advance h
    exact ⟨t, ht, .inr hu⟩
  | ret =>
    rcases hstack with hst | hst
    · simp only [TcpServer.step, hst] at h
      cases h
    · simp only [TcpServer.step, hst] at h
      cases h
  | runTask w =>
    simp only [TcpServer.step] at h
    split at h
    next hi =>
      obtain ⟨t, ht, hu⟩ := hc.runTask hi h
      exact ⟨t, ht, .inr hu⟩
    · cases h
  | userCall c w =>
    rcases hstack with hst | hst
    · simp only [TcpServer.step, inUserCode, hst] at h
      split at h
      next hk => cases hk.1
      · cases h
    · simp only [TcpServer.step, hasPointer, hst, hc.refs] at h
      split at h
      next hk => cases hk.2
      · cases h
  | keepPointer =>
    rcases hstack with hst | hst
    · simp only [TcpServer.step, hst] at h
      cases h
    · simp only [TcpServer.step, hst] at h
      cases h
  | dropPointer =>
    cases h
    exact ⟨_, rfl, .inl { hc with refs := rfl }⟩
  | otherCall c =>
    simp only [TcpServer.step, hc.refs] at h
    cases h
  | proceed stage =>
    simp only [TcpServer.step, hc.calls] at h
    split at h
    next hm => cases hm
    · cases h
  | destroyServer =>
    simp only [TcpServer.step] at h
    split at h
    next hk =>
      cases h
      exact ⟨_, rfl, .inl (hc.destroyServer hk.1 hk.2)⟩
    · cases h
  | runBase =>
    simp only [TcpServer.step, hc.base] at h
    cases h
  | exitLoop =>
    refine absurd (.inl fun hk => ?_) hg
    cases hk.symm.trans hc.state
  | destroy inLoop =>
    have hr : s.isReferenced = true := by
      rcases hc.waiting with hi | hm
      · simp only [isReferenced, hi, Bool.true_or]
      · exact isReferenced_of_mem hm rfl
    simp only [TcpServer.step, hr] at h
    split at h
    next hk => cases hk.2
    · cases h

end Connecting

namespace Dead

theorem step (hd : Dead s) (hg : ¬ Hazard s a) (h : s.step a = some x) :
    ∃ t, x = .ok t ∧ Dead t := by
  cases a with
  | pollReturn revents =>
    simp only [TcpServer.step, hd.alive] at h
    split at h
    next hk =>
      cases h
      cases revents with
      | none => exact ⟨_, rfl, { hd with passed := .inl rfl }⟩
      | some r => cases (hk.2 rfl).1
    · cases h
  | handleEvent =>
    simp only [TcpServer.step] at h
    split at h
    next r ha _ =>
      rcases hd.passed with hp | hp
      · cases hp.symm.trans ha
      · cases hp.symm.trans ha
    · cases h
  | handled =>
    simp only [TcpServer.step] at h
    split at h
    next ha _ =>
      rcases hd.passed with hp | hp
      · cases hp.symm.trans ha
      · cases hp.symm.trans ha
    · cases h
  | endEvents =>
    simp only [TcpServer.step] at h
    split at h
    · cases h
      exact ⟨_, rfl, { hd with }⟩
    · cases h
  | advance n w =>
    simp only [TcpServer.step, TcpServer.advance, hd.stack] at h
    cases h
  | ret =>
    simp only [TcpServer.step, hd.stack] at h
    cases h
  | runTask w =>
    simp only [TcpServer.step] at h
    split at h
    · cases hq : s.ioQueue with
      | nil =>
        rw [TcpServer.runTask, hq] at h
        cases h
      | cons f fs =>
        refine absurd (.inr (.inr (.inr ⟨?_, hd.alive⟩))) hg
        rw [hq]
        exact hd.raw f (hq ▸ List.mem_cons_self)
    · cases h
  | userCall c w =>
    simp only [TcpServer.step, hasPointer, hd.stack, hd.refs] at h
    split at h
    next hk => cases hk.2
    · cases h
  | keepPointer =>
    simp only [TcpServer.step, hd.stack] at h
    cases h
  | dropPointer =>
    cases h
    exact ⟨_, rfl, { hd with refs := rfl }⟩
  | otherCall c =>
    simp only [TcpServer.step, hd.refs] at h
    cases h
  | proceed stage =>
    simp only [TcpServer.step, hd.calls] at h
    split at h
    next hm => cases hm
    · cases h
  | destroyServer =>
    simp only [TcpServer.step] at h
    split at h
    · cases h
      refine ⟨_, rfl, ?_⟩
      rw [destroyServer, if_neg (by rw [hd.inMap]; decide)]
      exact { hd with inMap := rfl }
    · cases h
  | runBase =>
    simp only [TcpServer.step, hd.base] at h
    cases h
  | exitLoop =>
    simp only [TcpServer.step] at h
    split at h
    · have ha : { s with ioQueue := [] }.alive ≠ true := by
        show s.alive ≠ true
        rw [hd.alive]
        decide
      have hdrop : { s with ioQueue := [] }.dropLast = .ok { s with ioQueue := [] } :=
        if_neg fun hk => ha hk.1
      simp only [exitLoop, hdrop, ok_bind, Option.some.injEq] at h
      exact ⟨_, h.symm, { hd with raw := fun _ hf => by cases hf }⟩
    · cases h
  | destroy inLoop =>
    simp only [TcpServer.step, hd.alive] at h
    split at h
    next hk => cases hk.1
    · cases h

end Dead

/-! ### Whole runs -/

theorem newConnection_inv (sameLoop : Bool) (highWaterMark : Nat) (writeComplete highWater : Bool) :
    Inv (newConnection sameLoop (Conn.new highWaterMark writeComplete highWater)) := by
  refine .inl ?_
  constructor
  case pending =>
    cases sameLoop with
    | true => exact .inl ⟨rfl, rfl, rfl, rfl, rfl⟩
    | false => exact .inr ⟨rfl, rfl, .inl ⟨rfl, rfl, rfl⟩⟩
  all_goals rfl

theorem step_inv (hi : Inv s) (hg : ¬ Hazard s a) (h : s.step a = some x) :
    ∃ t, x = .ok t ∧ Inv t := by
  rcases hi with hc | hu | hd | hd
  · obtain ⟨t, ht, hc | hu⟩ := hc.step hg h
    · exact ⟨t, ht, .inl hc⟩
    · exact ⟨t, ht, .inr (.inl hu)⟩
  · obtain ⟨t, ht, hu | hd⟩ := hu.step hg h
    · exact ⟨t, ht, .inr (.inl hu)⟩
    · exact ⟨t, ht, .inr (.inr (.inl hd))⟩
  · obtain ⟨t, ht, hd | hd⟩ := hd.step hg h
    · exact ⟨t, ht, .inr (.inr (.inl hd))⟩
    · exact ⟨t, ht, .inr (.inr (.inr hd))⟩
  · obtain ⟨t, ht, hd⟩ := hd.step hg h
    exact ⟨t, ht, .inr (.inr (.inr hd))⟩

theorem Inv.dead_log (hi : Inv s) (ha : s.alive = false) :
    s.log = [.kConnected, .kDisconnected] := by
  rcases hi with hc | hu | hd | hd
  · cases ha.symm.trans hc.alive
  · cases ha.symm.trans hu.alive
  · exact hd.log
  · exact hd.log

/-- Every run without a hazard keeps every assertion, and the user's connectionCallback
of a connection that is gone was called twice: up, then down. -/
theorem lifecycle (sameLoop : Bool) (highWaterMark : Nat) (writeComplete highWater : Bool)
    (acts : List Act) (x : Except Assertion TcpServer)
    (hg : (machine sameLoop (Conn.new highWaterMark writeComplete highWater)).Along
      (fun s a => ¬ Hazard s a)
      (machine sameLoop (Conn.new highWaterMark writeComplete highWater)).init acts)
    (h : (machine sameLoop (Conn.new highWaterMark writeComplete highWater)).run
      (machine sameLoop (Conn.new highWaterMark writeComplete highWater)).init acts = some x) :
    ∃ s, x = .ok s ∧ (s.alive = false → s.log = [.kConnected, .kDisconnected]) := by
  obtain ⟨s, hs, hi⟩ := Machine.run_ok (P := Inv) (fun _ _ _ hp hg hst => step_inv hp hg hst)
    (newConnection_inv sameLoop highWaterMark writeComplete highWater) hg h
  exact ⟨s, hs, hi.dead_log⟩

instance (c : Conn) : Decidable c.Reregisters := by
  unfold Conn.Reregisters
  infer_instance

instance decidableHazard (s : TcpServer) (a : Act) : Decidable (Hazard s a) := by
  cases a with
  | pollReturn revents => cases revents <;> unfold Hazard <;> infer_instance
  | proceed stage => cases stage <;> unfold Hazard <;> infer_instance
  | _ => unfold Hazard; infer_instance

def sampleConn : Conn := Conn.new 65536 true true

def outcome (sameLoop : Bool) (acts : List Act) : Option (Except Assertion TcpServer) :=
  (machine sameLoop sampleConn).run (machine sameLoop sampleConn).init acts

/- The next piece of library code, where what it reads is the end of the stream. -/
def eof : Act := .advance .eof (.wrote 0)
def readable : Act := .pollReturn (some { kNoneEvent with pollIn := true })

/- A connection of another loop sends, is shut down by another thread, is closed by the
peer and removed. -/
def plainActs : List Act :=
  [.runTask (.wrote 0), .userCall (.send [1, 2]) (.wrote 2), .keepPointer, .ret,
    .otherCall .shutdown, .proceed (.store .shutdownInLoop), .proceed (.push .shutdownInLoop),
    .runTask (.wrote 0), .ret, .runTask (.wrote 0), readable, .handleEvent, eof, .dropPointer,
    .ret, eof, .handled, .endEvents, .runBase, .runTask (.wrote 0), eof, .destroy true,
    .destroyServer, .exitLoop]

theorem lifecycle_plain :
    ∃ s, outcome false plainActs = some (.ok s) ∧ s.alive = false ∧
      s.log = [.kConnected, .kDisconnected] := by
  have hr : (machine false sampleConn).runsTo (machine false sampleConn).init plainActs
      (fun s => !s.alive) = true := by
    decide +kernel
  obtain ⟨s, hs, hp⟩ := Machine.exists_of_runsTo hr
  have hn : s.alive = false := by simpa using hp
  obtain ⟨t, ht, hl⟩ := lifecycle false 65536 true true plainActs _ (by decide +kernel) hs
  cases ht
  exact ⟨s, hs, hn, hl hn⟩

/- `shutdown` before the server goes: `connectDestroyed` tests for `kConnected` alone. -/
def shutdownActs : List Act := [eof, .userCall .shutdown (.wrote 0), .ret, .destroyServer, eof]

/- Both branches of `handleEventWithGuard` run for `POLLHUP | POLLRDHUP`. -/
def hangUpActs : List Act :=
  [eof, .ret, .endEvents,
    .pollReturn (some { kNoneEvent with pollHup := true, pollRdhup := true }), .handleEvent, eof,
    .ret, eof, eof]

/- After `stopRead` the `disableAll` of the close registers the channel again. -/
def stopReadActs : List Act :=
  [eof, .userCall .stopRead (.wrote 0), .userCall .forceClose (.wrote 0), .ret, .endEvents,
    .runTask (.wrote 0), .ret, eof, .pollReturn (some { kNoneEvent with pollHup := true }),
    .handleEvent, eof]

/- The connection is up, and its peer closes it. -/
def closedActs : List Act := [.endEvents, readable, .handleEvent, eof]

/- The rest of the close in the server's loop. -/
def removedActs : List Act := [.ret, eof, .handled, .endEvents, .runTask (.wrote 0), eof]

/- The user calls `startRead` when told that the connection is down. -/
def startReadActs : List Act :=
  [eof, .ret] ++ closedActs ++ [.userCall .startRead (.wrote 0)] ++ removedActs

/- The user calls `stopRead` when the channel has been removed. -/
def stopLateActs : List Act :=
  [eof, .keepPointer, .ret] ++ closedActs ++ removedActs ++
    [.userCall .stopRead (.wrote 0), .dropPointer, .destroy true]

/- The server goes in the handler of another channel, behind that of the connection. -/
def handledActs : List Act :=
  [eof, .ret, .endEvents, readable, .handleEvent, .advance .data (.wrote 0), .ret, .handled,
    .destroyServer, .ret, eof]

/- The loops of the server end before they run `connectDestroyed`: of a connection that is up,
and of one that its peer has closed. -/
def exitActs : List Act := [.runTask (.wrote 0), .ret, .destroyServer, .exitLoop]
def exitClosedActs : List Act :=
  [.runTask (.wrote 0), .ret, readable, .handleEvent, eof, .ret, eof, .handled, .endEvents,
    .runBase, .destroyServer, .exitLoop]

/- Another thread tests `state_` before the close and stores after it. -/
def raceActs : List Act :=
  [eof, .keepPointer, .ret, .otherCall .shutdown] ++ closedActs ++ removedActs ++
    [.proceed (.store .shutdownInLoop), .proceed (.push .shutdownInLoop), .dropPointer,
      .runTask (.wrote 0), .destroy true]

theorem lifecycle_breaks :
    outcome true shutdownActs = some (.error .channelRemove) ∧
      outcome true hangUpActs = some (.error .handleClose) ∧
      outcome true stopReadActs = some (.error .handleClose) ∧
      outcome true startReadActs = some (.error .channelRemove) ∧
      outcome true stopLateActs = some (.error .channelDestructor) ∧
      outcome true handledActs = some (.error .loopRemoveChannel) ∧
      outcome false exitActs = some (.error .connectionDestructor) ∧
      outcome false exitClosedActs = some (.error .channelDestructor) ∧
      outcome true raceActs = some (.error .connectionDestructor) :=
  ⟨rfl, rfl, rfl, rfl, rfl, rfl, rfl, rfl, rfl⟩

end TcpServer
end TstMuduo.Net
