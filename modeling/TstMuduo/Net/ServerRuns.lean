import Mathlib.Data.Int.CardIntervalMod
import Mathlib.Data.List.Nodup
import TstMuduo.Net.Acceptor

/-!
# The connections of a server go from stage to stage

A connection waits in the queue of its loop, is up, is closed, is taken out of the map and is
destroyed, and each functor of it is pending exactly in its stage. Three things that the code
leaves to chance would break this: an event that closes twice, `kDisconnecting` stored over
`kDisconnected`, and a functor bound to `this` that outlives its connection.
-/

namespace TstMuduo.Net
open TstMuduo.Lib

def ServerFunctor.Staged : ServerFunctor → Prop
  | .connectEstablished _ | .removeConnectionInLoop _ | .connectDestroyed _ => True
  | .forceCloseInLoop _ | .sendInLoop _ | .shutdownInLoop _ => False

namespace ServerProcess

def home (numThreads k : Nat) : Option Nat :=
  if numThreads = 0 then none else some (k % numThreads)

/-- The stages of a connection, with its pending `connectEstablished`, `removeConnectionInLoop`
and `connectDestroyed`. -/
inductive Stage (c : ServerConn) : Nat → Nat → Nat → Prop
  | waiting : c.state = .kConnecting → c.inMap = true → c.enabled = false → c.tested = [] →
      c.stored = [] → c.released = false → Stage c 1 0 0
  | up : c.Up → c.inMap = true → c.released = false → Stage c 0 0 0
  | closing : c.state = .kDisconnected → c.inMap = true → c.enabled = false →
      c.released = false → Stage c 0 1 0
  | removed : c.state = .kDisconnected → c.inMap = false → c.enabled = false →
      c.released = false → Stage c 0 0 1
  | gone : c.state = .kDisconnected → c.inMap = false → c.enabled = false → c.added = false →
      (c.released = true → c.tested = [] ∧ c.stored = []) → Stage c 0 0 0

structure Lives (s : ServerProcess) : Prop where
  nextConnId : s.nextConnId = s.conns.length + 1
  ids : s.conns.map (·.id) = (List.range s.conns.length).map (· + 1)
  next : s.numThreads ≠ 0 → s.next = s.conns.length % s.numThreads
  homes : s.conns.map (·.loop) = (List.range s.conns.length).map (home s.numThreads)
  stage : ∀ k c, s.conns[k]? = some c → Stage c ((s.queue c.loop).count (.connectEstablished k))
    ((s.queue none).count (.removeConnectionInLoop k))
    ((s.queue c.loop).count (.connectDestroyed k))
  placed : ∀ loop f, f ∈ s.queue loop →
    ∃ c, s.conns[f.subject]? = some c ∧ f.place c = loop ∧ c.released = false

/-- No event of a connection is both a hang-up without input and an end of file,
`kDisconnecting` is not stored over `kDisconnected`, no functor bound to `this` is left when
its connection goes, and `nextConnId_` has a successor. -/
def Orderly (s : ServerProcess) : ServerAct → Prop
  | .handleRead => s.nextConnId + 1 ≤ intMax
  | .conn _ (.event hup eof) => ¬ (hup = true ∧ eof = true)
  | .conn k (.store _) => (s.conns[k]?.any fun c => decide (c.state = .kDisconnected)) = false
  | .conn k .release => ∀ c ∈ s.conns[k]?, ∀ f ∈ s.queue c.loop, f.subject = k → f.owns = true
  | _ => True

instance (s : ServerProcess) (a : ServerAct) : Decidable (s.Orderly a) :=
  match a with
  | .handleRead => inferInstanceAs (Decidable (_ ≤ _))
  | .conn _ (.event _ _) => inferInstanceAs (Decidable (¬ (_ ∧ _)))
  | .conn _ (.store _) => inferInstanceAs (Decidable (_ = _))
  | .conn k .release => inferInstanceAs
      (Decidable (∀ c ∈ s.conns[k]?, ∀ f ∈ s.queue c.loop, f.subject = k → f.owns = true))
  | .arrive | .emfile | .run _ | .conn _ (.test _) | .conn _ (.inLoop _ _) | .foreignOpen
  | .foreignClose _ => isTrue trivial

variable {s t : ServerProcess} {k n : Nat} {c d : ServerConn}

theorem new_lives (limit numThreads : Nat) (h : 5 ≤ limit) : (new limit numThreads h).Lives where
  nextConnId := rfl
  ids := rfl
  next _ := (Nat.zero_mod _).symm
  homes := rfl
  stage _ _ hc := by cases hc
  placed _ _ hf := by cases hf

/-! ### Queues -/

section

variable {q : Option Nat → List ServerFunctor} {loop l : Option Nat} {f g : ServerFunctor}
  {rest : List ServerFunctor}

theorem count_push : (Function.update q loop (q loop ++ [f]) l).count g =
    (q l).count g + if l = loop ∧ f = g then 1 else 0 := by
  by_cases hl : l = loop
  · subst hl
    rw [Function.update_self, List.count_append, List.count_singleton]
    simp
  · rw [Function.update_of_ne hl, if_neg fun h => hl h.1, Nat.add_zero]

theorem count_pop (h : q loop = f :: rest) : (q l).count g =
    (Function.update q loop rest l).count g + if l = loop ∧ f = g then 1 else 0 := by
  by_cases hl : l = loop
  · subst hl
    rw [Function.update_self, h, List.count_cons]
    simp
  · rw [Function.update_of_ne hl, if_neg fun h => hl h.1, Nat.add_zero]

theorem mem_push (h : g ∈ Function.update q loop (q loop ++ [f]) l) :
    g ∈ q l ∨ g = f ∧ l = loop := by
  by_cases hl : l = loop
  · subst hl
    rw [Function.update_self, List.mem_append, List.mem_singleton] at h
    exact h.imp_right fun he => ⟨he, rfl⟩
  · rw [Function.update_of_ne hl] at h
    exact .inl h

theorem mem_pop (hq : q loop = f :: rest) (h : g ∈ Function.update q loop rest l) : g ∈ q l := by
  by_cases hl : l = loop
  · subst hl
    rw [Function.update_self] at h
    rw [hq]
    exact List.mem_cons_of_mem _ h
  · rwa [Function.update_of_ne hl] at h

end

/-! ### One connection -/

theorem Lives.congr (h : s.Lives) (hnum : t.numThreads = s.numThreads) (hnext : t.next = s.next)
    (hid : t.nextConnId = s.nextConnId) (hconns : t.conns = s.conns) (hqueue : t.queue = s.queue) :
    t.Lives := by
  cases s
  cases t
  cases hnum
  cases hnext
  cases hid
  cases hconns
  cases hqueue
  exact ⟨h.nextConnId, h.ids, h.next, h.homes, h.stage, h.placed⟩

theorem place_congr (hloop : d.loop = c.loop) (f : ServerFunctor) : f.place d = f.place c := by
  cases f with
  | removeConnectionInLoop _ => rfl
  | connectEstablished _ | connectDestroyed _ | forceCloseInLoop _ | sendInLoop _
  | shutdownInLoop _ => exact hloop

/-- One connection goes from stage to stage, and only its own functors come and go. -/
theorem Lives.move (h : s.Lives) (hc : s.conns[k]? = some c) (hid : d.id = c.id)
    (hloop : d.loop = c.loop) {queue : Option Nat → List ServerFunctor}
    (hrel : ∀ loop f, f ∈ queue loop → f.subject = k → c.released = false → d.released = false)
    (hothers : ∀ loop f, f.subject ≠ k → (queue loop).count f = (s.queue loop).count f)
    (hplaced : ∀ loop f, f ∈ queue loop →
      f ∈ s.queue loop ∨ f.subject = k ∧ f.place d = loop ∧ d.released = false)
    (hstage : Stage d ((queue d.loop).count (.connectEstablished k))
      ((queue none).count (.removeConnectionInLoop k))
      ((queue d.loop).count (.connectDestroyed k))) :
    Lives { s with conns := s.conns.set k d, queue := queue } := by
  have hlt := (List.getElem?_eq_some_iff.mp hc).1
  refine ⟨?_, ?_, ?_, ?_, ?_, ?_⟩
  · rw [List.length_set]
    exact h.nextConnId
  · rw [map_set_same hc hid, List.length_set]
    exact h.ids
  · rw [List.length_set]
    exact h.next
  · rw [map_set_same hc hloop, List.length_set]
    exact h.homes
  · intro j e he
    change (s.conns.set k d)[j]? = some e at he
    by_cases hjk : k = j
    · subst hjk
      rw [List.getElem?_set_self hlt] at he
      cases he
      exact hstage
    · rw [List.getElem?_set_ne hjk] at he
      have hj := h.stage j e he
      show Stage e ((queue e.loop).count _) ((queue none).count _) ((queue e.loop).count _)
      rw [hothers _ (.connectEstablished j) (Ne.symm hjk),
        hothers _ (.removeConnectionInLoop j) (Ne.symm hjk),
        hothers _ (.connectDestroyed j) (Ne.symm hjk)]
      exact hj
  · intro loop f hf
    have hkeep : ∀ e, s.conns[f.subject]? = some e → f.place e = loop → e.released = false →
        ∃ e', (s.conns.set k d)[f.subject]? = some e' ∧ f.place e' = loop ∧
          e'.released = false := by
      intro e he hpl her
      by_cases hk : k = f.subject
      · rw [← hk] at he
        cases hc.symm.trans he
        refine ⟨d, by rw [← hk]; exact List.getElem?_set_self hlt, ?_,
          hrel loop f hf hk.symm her⟩
        exact (place_congr hloop f).trans hpl
      · exact ⟨e, (List.getElem?_set_ne hk).trans he, hpl, her⟩
    rcases hplaced loop f hf with hold | ⟨hsub, hpl⟩
    · obtain ⟨e, he, hpl, her⟩ := h.placed loop f hold
      exact hkeep e he hpl her
    · refine ⟨d, ?_, hpl⟩
      rw [hsub]
      exact List.getElem?_set_self hlt

theorem Lives.setConn (h : s.Lives) (hc : s.conns[k]? = some c) (hid : d.id = c.id)
    (hloop : d.loop = c.loop) (hrel : d.released = c.released)
    (hstage : Stage d ((s.queue c.loop).count (.connectEstablished k))
      ((s.queue none).count (.removeConnectionInLoop k))
      ((s.queue c.loop).count (.connectDestroyed k))) : (s.setConn k d).Lives := by
  refine h.move hc hid hloop (fun _ _ _ _ => hrel.trans) (fun _ _ _ => rfl) (fun _ _ hf => .inl hf) ?_
  rw [hloop]
  exact hstage

theorem Lives.pop (h : s.Lives) {loop : Option Nat} {f : ServerFunctor}
    {rest : List ServerFunctor} (hq : s.queue loop = f :: rest) (hf : f.subject = k)
    (hc : s.conns[k]? = some c) (hid : d.id = c.id) (hloop : d.loop = c.loop)
    (hrel : d.released = c.released) {n1 n2 n3 : Nat}
    (h1 : (s.queue c.loop).count (.connectEstablished k) =
      n1 + if c.loop = loop ∧ f = .connectEstablished k then 1 else 0)
    (h2 : (s.queue none).count (.removeConnectionInLoop k) =
      n2 + if none = loop ∧ f = .removeConnectionInLoop k then 1 else 0)
    (h3 : (s.queue c.loop).count (.connectDestroyed k) =
      n3 + if c.loop = loop ∧ f = .connectDestroyed k then 1 else 0)
    (hstage : Stage d n1 n2 n3) :
    Lives { s with conns := s.conns.set k d, queue := Function.update s.queue loop rest } := by
  have e1 := Nat.add_right_cancel ((count_pop hq).symm.trans h1)
  have e2 := Nat.add_right_cancel ((count_pop hq).symm.trans h2)
  have e3 := Nat.add_right_cancel ((count_pop hq).symm.trans h3)
  refine h.move hc hid hloop (fun _ _ _ _ => hrel.trans) ?_ (fun l g hg => .inl (mem_pop hq hg)) ?_
  · intro l g hg
    have hne : f ≠ g := fun he => hg (he ▸ hf)
    rw [count_pop hq, if_neg fun he => hne he.2, Nat.add_zero]
  · rw [hloop, e1, e2, e3]
    exact hstage

theorem Lives.pushTo (h : s.Lives) {q : Option Nat → List ServerFunctor}
    (hothers : ∀ loop f, f.subject ≠ k → (q loop).count f = (s.queue loop).count f)
    (hsub : ∀ loop f, f ∈ q loop → f ∈ s.queue loop) (hc : s.conns[k]? = some c)
    (hid : d.id = c.id) (hloop : d.loop = c.loop) (hrel : d.released = c.released)
    (halive : d.released = false) {loop : Option Nat} {f : ServerFunctor} (hf : f.subject = k)
    (hplace : f.place d = loop)
    (hstage : Stage d
      ((q c.loop).count (.connectEstablished k) +
        if c.loop = loop ∧ f = .connectEstablished k then 1 else 0)
      ((q none).count (.removeConnectionInLoop k) +
        if none = loop ∧ f = .removeConnectionInLoop k then 1 else 0)
      ((q c.loop).count (.connectDestroyed k) +
        if c.loop = loop ∧ f = .connectDestroyed k then 1 else 0)) :
    Lives { s with
      conns := s.conns.set k d
      queue := Function.update q loop (q loop ++ [f]) } := by
  refine h.move hc hid hloop (fun _ _ _ _ => hrel.trans) ?_ ?_ ?_
  · intro l g hg
    have hne : f ≠ g := fun he => hg (he ▸ hf)
    rw [count_push, if_neg fun he => hne he.2, Nat.add_zero]
    exact hothers l g hg
  · intro l g hg
    rcases mem_push hg with hold | ⟨rfl, rfl⟩
    · exact .inl (hsub l g hold)
    · exact .inr ⟨hf, hplace, halive⟩
  · rw [hloop]
    rw [← count_push, ← count_push, ← count_push] at hstage
    exact hstage

theorem Lives.queued (h : s.Lives) {queue : Option Nat → List ServerFunctor}
    (hcount : ∀ loop f, f.Staged → (queue loop).count f = (s.queue loop).count f)
    (hplaced : ∀ loop f, f ∈ queue loop →
      ∃ c, s.conns[f.subject]? = some c ∧ f.place c = loop ∧ c.released = false) :
    Lives { s with queue := queue } where
  nextConnId := h.nextConnId
  ids := h.ids
  next := h.next
  homes := h.homes
  stage k c hc := by
    have hst := h.stage k c hc
    show Stage c ((queue c.loop).count _) ((queue none).count _) ((queue c.loop).count _)
    rw [hcount _ (.connectEstablished k) trivial, hcount _ (.removeConnectionInLoop k) trivial,
      hcount _ (.connectDestroyed k) trivial]
    exact hst
  placed := hplaced

theorem Lives.popped (h : s.Lives) {loop : Option Nat} {f : ServerFunctor}
    {rest : List ServerFunctor} (hq : s.queue loop = f :: rest) (hf : ¬ f.Staged) :
    Lives { s with queue := Function.update s.queue loop rest } := by
  refine h.queued ?_ fun l g hg => h.placed l g (mem_pop hq hg)
  intro l g hg
  have hne : f ≠ g := fun he => hf (he ▸ hg)
  rw [count_pop hq, if_neg fun he => hne he.2, Nat.add_zero]

theorem Lives.pushed (h : s.Lives) (hc : s.conns[k]? = some c) (halive : c.released = false)
    {f : ServerFunctor} (hsub : f.subject = k) (hplace : f.place c = c.loop) (hf : ¬ f.Staged) :
    (s.push c.loop f).Lives := by
  refine h.queued ?_ ?_
  · intro l g hg
    have hne : f ≠ g := fun he => hf (he ▸ hg)
    rw [count_push, if_neg fun he => hne he.2, Nat.add_zero]
  · intro l g hg
    rcases mem_push hg with hold | ⟨rfl, rfl⟩
    · exact h.placed l g hold
    · exact ⟨c, by rw [hsub]; exact hc, hplace, halive⟩

/-! ### Functors -/

section

variable {loop : Option Nat} {rest : List ServerFunctor}

theorem Lives.head (h : s.Lives) {f : ServerFunctor} (hq : s.queue loop = f :: rest) :
    0 < (s.queue loop).count f ∧
      ∃ c, s.conns[f.subject]? = some c ∧ f.place c = loop ∧ c.released = false := by
  refine ⟨?_, h.placed loop f (hq ▸ List.mem_cons_self)⟩
  rw [hq, List.count_cons_self]
  exact Nat.succ_pos _

theorem Lives.connectEstablished (h : s.Lives) (hq : s.queue loop = .connectEstablished k :: rest)
    (hc : s.conns[k]? = some c) :
    ∃ d, c.connectEstablished = .ok d ∧
      Lives { s with conns := s.conns.set k d, queue := Function.update s.queue loop rest } := by
  obtain ⟨hpos, e, he, hplace, _⟩ := h.head hq
  cases hc.symm.trans he
  have hloop : c.loop = loop := hplace
  subst hloop
  have hst := h.stage k c hc
  generalize h1 : (s.queue c.loop).count (.connectEstablished k) = n1 at hst hpos
  generalize h2 : (s.queue none).count (.removeConnectionInLoop k) = n2 at hst
  generalize h3 : (s.queue c.loop).count (.connectDestroyed k) = n3 at hst
  cases hst with
  | waiting hstate hmap _ _ _ hrel =>
    refine ⟨{ c with state := .kConnected, added := true, enabled := true }, ?_, ?_⟩
    · unfold ServerConn.connectEstablished
      rw [check_ok hstate]
      rfl
    · exact h.pop hq rfl hc rfl rfl rfl (h1.trans (by simp)) (h2.trans (by simp))
        (h3.trans (by simp)) (.up (.inl rfl) hmap hrel)
  | up | closing | removed | gone => cases hpos

theorem Lives.connectDestroyed (h : s.Lives) (hq : s.queue loop = .connectDestroyed k :: rest)
    (hc : s.conns[k]? = some c) :
    ∃ d, c.connectDestroyed = .ok d ∧
      Lives { s with conns := s.conns.set k d, queue := Function.update s.queue loop rest } := by
  obtain ⟨hpos, e, he, hplace, _⟩ := h.head hq
  cases hc.symm.trans he
  have hloop : c.loop = loop := hplace
  subst hloop
  have hst := h.stage k c hc
  generalize h1 : (s.queue c.loop).count (.connectEstablished k) = n1 at hst
  generalize h2 : (s.queue none).count (.removeConnectionInLoop k) = n2 at hst
  generalize h3 : (s.queue c.loop).count (.connectDestroyed k) = n3 at hst hpos
  cases hst with
  | removed hstate hmap hen hrel =>
    have hnot : ¬ c.state = .kConnected := by
      rw [hstate]
      decide
    refine ⟨{ c with added := false }, ?_, ?_⟩
    · unfold ServerConn.connectDestroyed
      rw [if_neg hnot]
      simp only [check_ok hen, ok_bind]
      rfl
    · exact h.pop hq rfl hc rfl rfl rfl (h1.trans (by simp)) (h2.trans (by simp))
        (h3.trans (by simp)) (.gone hstate hmap hen rfl fun hr => by cases hrel.symm.trans hr)
  | waiting | up | closing | gone => cases hpos

theorem Lives.removeConnectionInLoop (h : s.Lives)
    (hq : s.queue loop = .removeConnectionInLoop k :: rest) (hc : s.conns[k]? = some c) :
    ∃ t, ServerProcess.removeConnectionInLoop
      { s with queue := Function.update s.queue loop rest } k c = .ok t ∧ t.Lives := by
  obtain ⟨hpos, e, he, hplace, _⟩ := h.head hq
  cases hc.symm.trans he
  have hloop : none = loop := hplace
  subst hloop
  have hst := h.stage k c hc
  generalize h1 : (s.queue c.loop).count (.connectEstablished k) = n1 at hst
  generalize h2 : (s.queue none).count (.removeConnectionInLoop k) = n2 at hst hpos
  generalize h3 : (s.queue c.loop).count (.connectDestroyed k) = n3 at hst
  cases hst with
  | closing hstate hmap hen hrel =>
    unfold ServerProcess.removeConnectionInLoop
    rw [check_ok hmap]
    refine ⟨_, rfl, ?_⟩
    refine h.pushTo (d := { c with inMap := false }) ?_ (fun l g => mem_pop hq) hc rfl rfl rfl
      hrel rfl rfl ?_
    · intro l g hg
      have hne : ServerFunctor.removeConnectionInLoop k ≠ g := fun he => hg (he ▸ rfl)
      rw [count_pop hq, if_neg fun he => hne he.2, Nat.add_zero]
    · -- the functor that has been run is no longer pending
      have e1 := count_pop hq (l := c.loop) (g := .connectEstablished k)
      have e2 := count_pop hq (l := none) (g := .removeConnectionInLoop k)
      have e3 := count_pop hq (l := c.loop) (g := .connectDestroyed k)
      rw [h1, if_neg (by simp), Nat.add_zero] at e1
      rw [h2, if_pos ⟨rfl, rfl⟩] at e2
      rw [h3, if_neg (by simp), Nat.add_zero] at e3
      rw [← e1, ← e3, (Nat.add_right_cancel e2.symm : _ = 0)]
      simp only [reduceCtorEq, and_false, if_false, and_self, if_true]
      exact .removed hstate rfl hen hrel
  | waiting | up | removed | gone => cases hpos

end

theorem Lives.handleClose (h : s.Lives) (hc : s.conns[k]? = some c) (hup : c.Up) :
    ∃ t, s.handleClose k = .ok t ∧ t.Lives := by
  have hnot {e : StateE} (he : c.state = e) (h1 : e ≠ .kConnected) (h2 : e ≠ .kDisconnecting) :
      False := by
    rcases hup with hu | hu
    · exact h1 (he.symm.trans hu)
    · exact h2 (he.symm.trans hu)
  have hclose : c.handleClose = .ok { c with state := .kDisconnected, enabled := false } := by
    unfold ServerConn.handleClose
    rw [check_ok hup]
    rfl
  have hst := h.stage k c hc
  generalize h1 : (s.queue c.loop).count (.connectEstablished k) = n1 at hst
  generalize h2 : (s.queue none).count (.removeConnectionInLoop k) = n2 at hst
  generalize h3 : (s.queue c.loop).count (.connectDestroyed k) = n3 at hst
  cases hst with
  | up _ hmap hrel =>
    obtain ⟨id, fd, loop, state, added, enabled, inMap, tested, stored, released⟩ := c
    cases (hmap : inMap = true)
    unfold ServerProcess.handleClose
    simp only [hc, hclose, ok_bind]
    cases loop with
    | none =>
      -- in its own loop the server removes the connection at once
      refine ⟨_, rfl, ?_⟩
      have hpush := h.pushTo
        (d := ⟨id, fd, none, .kDisconnected, added, false, false, tested, stored, released⟩)
        (fun _ _ _ => rfl) (fun _ _ hf => hf) hc rfl rfl rfl hrel (f := .connectDestroyed k) rfl
        rfl (by
          simp only [reduceCtorEq, and_false, if_false]
          rw [h1, h2, h3]
          exact .removed rfl rfl rfl hrel)
      exact hpush.congr rfl rfl rfl (List.set_set ..) rfl
    | some l =>
      refine ⟨_, rfl, ?_⟩
      refine h.pushTo
        (d := ⟨id, fd, some l, .kDisconnected, added, false, true, tested, stored, released⟩)
        (fun _ _ _ => rfl) (fun _ _ hf => hf) hc rfl rfl rfl hrel
        (f := .removeConnectionInLoop k) rfl rfl ?_
      simp only [reduceCtorEq, and_false, if_false]
      rw [h1, h2, h3]
      exact .closing rfl rfl rfl hrel
  | waiting hw => exact (hnot hw (by decide) (by decide)).elim
  | closing hd | removed hd | gone hd => exact (hnot hd (by decide) (by decide)).elim

/-- A functor at the head of its queue runs. -/
theorem Lives.runFunctor (h : s.Lives) {loop : Option Nat} {f : ServerFunctor}
    {rest : List ServerFunctor} (hq : s.queue loop = f :: rest) :
    ∃ t, { s with queue := Function.update s.queue loop rest }.runFunctor f = some (.ok t) ∧
      t.Lives := by
  obtain ⟨-, c, hc, -, halive⟩ := h.head hq
  have hrun (t : ServerProcess) {x : Except Assertion ServerProcess} (hx : x = .ok t)
      (ht : t.Lives) : ∃ t, some x = some (.ok t) ∧ t.Lives := ⟨t, congrArg some hx, ht⟩
  unfold ServerProcess.runFunctor
  cases f with
  | connectEstablished k =>
    obtain ⟨d, hd, hlives⟩ := h.connectEstablished hq hc
    simp only [show s.conns[k]? = some c from hc, ServerFunctor.subject, Option.map_some]
    exact hrun _ (by rw [hd]; rfl) hlives
  | removeConnectionInLoop k =>
    obtain ⟨t, ht, hlives⟩ := h.removeConnectionInLoop hq hc
    simp only [show s.conns[k]? = some c from hc, ServerFunctor.subject, Option.map_some]
    exact hrun t ht hlives
  | connectDestroyed k =>
    obtain ⟨d, hd, hlives⟩ := h.connectDestroyed hq hc
    simp only [show s.conns[k]? = some c from hc, ServerFunctor.subject, Option.map_some]
    exact hrun _ (by rw [hd]; rfl) hlives
  | forceCloseInLoop k =>
    have hpop := h.popped hq id
    simp only [show s.conns[k]? = some c from hc, ServerFunctor.subject, Option.map_some]
    split
    next hup =>
      obtain ⟨t, ht, hlives⟩ := hpop.handleClose hc hup
      exact hrun t ht hlives
    · exact hrun _ rfl hpop
  | sendInLoop k | shutdownInLoop k =>
    have hpop := h.popped hq id
    simp only [show s.conns[k]? = some c from hc, ServerFunctor.subject, Option.map_some]
    exact hrun _ (by rw [check_ok halive]; rfl) hpop

/-! ### Calls, events and the last pointer -/

theorem Lives.up_of_enabled (h : s.Lives) (hc : s.conns[k]? = some c) (hen : c.enabled = true) :
    c.Up := by
  have hst := h.stage k c hc
  generalize (s.queue c.loop).count (.connectEstablished k) = n1 at hst
  generalize (s.queue none).count (.removeConnectionInLoop k) = n2 at hst
  generalize (s.queue c.loop).count (.connectDestroyed k) = n3 at hst
  cases hst with
  | up hup => exact hup
  | waiting _ _ hno | closing _ _ hno | removed _ _ hno | gone _ _ hno => cases hno.symm.trans hen

theorem Lives.event (h : s.Lives) (hc : s.conns[k]? = some c) (hen : c.enabled = true)
    {hup eof : Bool} (hone : ¬ (hup = true ∧ eof = true)) :
    ∃ t, s.handleEvent k hup eof = .ok t ∧ t.Lives := by
  have hclose := h.handleClose hc (h.up_of_enabled hc hen)
  cases hup with
  | true =>
    cases eof with
    | true => exact absurd ⟨rfl, rfl⟩ hone
    | false =>
      obtain ⟨t, ht, hlives⟩ := hclose
      exact ⟨t, by unfold handleEvent; simp only [if_true, ht, ok_bind]; rfl, hlives⟩
  | false =>
    cases eof with
    | true => exact hclose
    | false => exact ⟨s, rfl, h⟩

theorem Lives.calling (h : s.Lives) (hc : s.conns[k]? = some c) {call : ConnCall}
    (hcall : call ∈ c.tested ∨ call ∈ c.stored) : c.state ≠ .kConnecting ∧ c.released = false := by
  have hst := h.stage k c hc
  generalize (s.queue c.loop).count (.connectEstablished k) = n1 at hst
  generalize (s.queue none).count (.removeConnectionInLoop k) = n2 at hst
  generalize (s.queue c.loop).count (.connectDestroyed k) = n3 at hst
  have hempty {p : Prop} (htested : c.tested = []) (hstored : c.stored = []) : p := by
    rw [htested, hstored] at hcall
    rcases hcall with hno | hno
    · cases hno
    · cases hno
  have hdown (hd : c.state = .kDisconnected) : c.state ≠ .kConnecting := by
    rw [hd]
    decide
  cases hst with
  | waiting _ _ _ htested hstored => exact hempty htested hstored
  | up hup _ hrel =>
    refine ⟨?_, hrel⟩
    rcases hup with hu | hu
    · rw [hu]
      decide
    · rw [hu]
      decide
  | closing hd _ _ hrel | removed hd _ _ hrel => exact ⟨hdown hd, hrel⟩
  | gone hd _ _ _ hgone =>
    refine ⟨hdown hd, Bool.eq_false_iff.mpr fun hr => ?_⟩
    exact hempty (hgone hr).1 (hgone hr).2

theorem Lives.setCalls (h : s.Lives) (hc : s.conns[k]? = some c) (hest : c.state ≠ .kConnecting)
    (halive : c.released = false) (tested stored : List ConnCall) :
    (s.setConn k { c with tested := tested, stored := stored }).Lives := by
  refine h.setConn hc rfl rfl rfl ?_
  have hst := h.stage k c hc
  generalize (s.queue c.loop).count (.connectEstablished k) = n1 at hst ⊢
  generalize (s.queue none).count (.removeConnectionInLoop k) = n2 at hst ⊢
  generalize (s.queue c.loop).count (.connectDestroyed k) = n3 at hst ⊢
  cases hst with
  | waiting hw => exact absurd hw hest
  | up hup hmap hrel => exact .up hup hmap hrel
  | closing hd hmap hen hrel => exact .closing hd hmap hen hrel
  | removed hd hmap hen hrel => exact .removed hd hmap hen hrel
  | gone hd hmap hen hadd _ =>
    exact .gone hd hmap hen hadd fun hr => by cases halive.symm.trans hr

theorem Lives.test (h : s.Lives) (hc : s.conns[k]? = some c) {call : ConnCall}
    (halive : c.released = false) (hpass : c.Passes call) :
    (s.setConn k { c with tested := call :: c.tested }).Lives := by
  refine h.setCalls hc ?_ halive (call :: c.tested) c.stored
  intro hw
  cases call with
  | send | shutdown => cases hw.symm.trans hpass
  | forceClose =>
    rcases hpass with hu | hu
    · cases hw.symm.trans hu
    · cases hw.symm.trans hu

theorem Lives.store (h : s.Lives) (hc : s.conns[k]? = some c) {call : ConnCall}
    (hcall : call ∈ c.tested) (hdown : c.state ≠ .kDisconnected) :
    (s.setConn k { c with
      state := .kDisconnecting
      tested := c.tested.erase call
      stored := call :: c.stored }).Lives := by
  have hest := (h.calling hc (.inl hcall)).1
  refine h.setConn hc rfl rfl rfl ?_
  have hst := h.stage k c hc
  generalize (s.queue c.loop).count (.connectEstablished k) = n1 at hst ⊢
  generalize (s.queue none).count (.removeConnectionInLoop k) = n2 at hst ⊢
  generalize (s.queue c.loop).count (.connectDestroyed k) = n3 at hst ⊢
  cases hst with
  | up _ hmap hrel => exact .up (.inr rfl) hmap hrel
  | waiting hw => exact absurd hw hest
  | closing hd | removed hd | gone hd => exact absurd hd hdown

theorem Lives.inLoop (h : s.Lives) (hc : s.conns[k]? = some c) {call : ConnCall}
    (hcall : call ∈ c.ready call) :
    (s.setConn k (c.finish call)).Lives ∧
      ((s.setConn k (c.finish call)).push c.loop (call.functor k)).Lives := by
  have hunder : call ∈ c.tested ∨ call ∈ c.stored := by
    cases call with
    | send => exact .inl hcall
    | shutdown | forceClose => exact .inr hcall
  obtain ⟨hest, halive⟩ := h.calling hc hunder
  have hset : (s.setConn k (c.finish call)).Lives := by
    cases call with
    | send => exact h.setCalls hc hest halive (c.tested.erase .send) c.stored
    | shutdown => exact h.setCalls hc hest halive c.tested (c.stored.erase .shutdown)
    | forceClose => exact h.setCalls hc hest halive c.tested (c.stored.erase .forceClose)
  refine ⟨hset, ?_⟩
  have hloop : (c.finish call).loop = c.loop := by cases call <;> rfl
  have hrel : (c.finish call).released = false := (fd_finish c call).2.trans halive
  rw [← hloop]
  refine hset.pushed (k := k) (getElem?_setConn hc) hrel ?_ ?_ ?_
  · cases call <;> rfl
  · cases call <;> rfl
  · cases call <;> exact id

theorem Lives.release (h : s.Lives) (hc : s.conns[k]? = some c) (hun : s.Unreferenced k c)
    (hraw : ∀ f ∈ s.queue c.loop, f.subject = k → f.owns = true) :
    ∃ d, c.destroy = .ok d ∧ (s.setConn k d).Lives := by
  obtain ⟨hmap, htested, hstored, hqueues⟩ := hun
  have hfree : ∀ loop f, f ∈ s.queue loop → f.subject ≠ k := by
    intro loop f hf hsub
    obtain ⟨e, he, hplace, _⟩ := h.placed loop f hf
    rw [hsub] at he
    cases hc.symm.trans he
    have hin : f ∈ s.queue c.loop ∨ f ∈ s.queue none ∧ f.owns = true := by
      cases f with
      | removeConnectionInLoop _ =>
        cases hplace
        exact .inr ⟨hf, rfl⟩
      | connectEstablished _ | connectDestroyed _ | forceCloseInLoop _ | sendInLoop _
      | shutdownInLoop _ =>
        cases hplace
        exact .inl hf
    rcases hin with hin | ⟨hin, howns⟩
    · cases (hraw f hin hsub).symm.trans (hqueues f (List.mem_append_left _ hin) hsub)
    · cases howns.symm.trans (hqueues f (List.mem_append_right _ hin) hsub)
  have hst := h.stage k c hc
  have hzero : (s.queue c.loop).count (.connectDestroyed k) = 0 :=
    List.count_eq_zero.mpr fun hm => hfree _ _ hm rfl
  generalize h1 : (s.queue c.loop).count (.connectEstablished k) = n1 at hst
  generalize h2 : (s.queue none).count (.removeConnectionInLoop k) = n2 at hst
  generalize h3 : (s.queue c.loop).count (.connectDestroyed k) = n3 at hst
  cases hst with
  | gone hd _ hen hadd =>
    refine ⟨{ c with released := true }, ?_, ?_⟩
    · unfold ServerConn.destroy
      rw [check_ok hd, check_ok hadd]
      rfl
    · refine h.move (d := { c with released := true }) hc rfl rfl
        (fun l f hf hs => absurd hs (hfree l f hf)) (fun _ _ _ => rfl) (fun _ _ hf => .inl hf) ?_
      show Stage _ ((s.queue c.loop).count _) _ ((s.queue c.loop).count _)
      rw [h1, h2, h3]
      exact .gone hd hmap hen hadd fun _ => ⟨htested, hstored⟩
  | removed => cases h3.symm.trans hzero
  | waiting _ hno | up _ hno | closing _ hno => cases hno.symm.trans hmap

/-! ### New connections -/

theorem Lives.not_pending (h : s.Lives) {f : ServerFunctor} (hk : s.conns.length ≤ f.subject)
    (loop : Option Nat) : (s.queue loop).count f = 0 := by
  rw [List.count_eq_zero]
  intro hm
  obtain ⟨c, hc, -⟩ := h.placed loop f hm
  exact absurd (List.getElem?_eq_some_iff.mp hc).1 (Nat.not_lt.mpr hk)

theorem succ_mod_wrap {n k : Nat} (hn : n ≠ 0) :
    (if n ≤ k % n + 1 then 0 else k % n + 1) = (k + 1) % n := by
  have hlt := Nat.mod_lt k (Nat.pos_of_ne_zero hn)
  rw [← Nat.mod_add_mod]
  split
  next h =>
    have heq : k % n + 1 = n := Nat.le_antisymm hlt h
    rw [heq, Nat.mod_self]
  next h => rw [Nat.mod_eq_of_lt (Nat.lt_of_not_le h)]

theorem getNextLoop_spec (h : s.Lives) :
    ∃ next, s.getNextLoop = (home s.numThreads s.conns.length, { s with next := next }) ∧
      (s.numThreads ≠ 0 → next = (s.conns.length + 1) % s.numThreads) := by
  unfold getNextLoop home
  by_cases hn : s.numThreads = 0
  · rw [if_pos hn, if_pos hn]
    exact ⟨s.next, rfl, fun hne => absurd hn hne⟩
  · rw [if_neg hn, if_neg hn, h.next hn]
    exact ⟨_, rfl, fun _ => succ_mod_wrap hn⟩

theorem Lives.add (h : s.Lives) (hid : c.id = s.nextConnId)
    (hloop : c.loop = home s.numThreads s.conns.length) (halive : c.released = false) {next : Nat}
    (hnext : s.numThreads ≠ 0 → next = (s.conns.length + 1) % s.numThreads)
    {queue : Option Nat → List ServerFunctor}
    (hothers : ∀ loop f, f.subject ≠ s.conns.length →
      (queue loop).count f = (s.queue loop).count f)
    (hplaced : ∀ loop f, f ∈ queue loop →
      f ∈ s.queue loop ∨ f.subject = s.conns.length ∧ f.place c = loop)
    (hstage : Stage c ((queue c.loop).count (.connectEstablished s.conns.length))
      ((queue none).count (.removeConnectionInLoop s.conns.length))
      ((queue c.loop).count (.connectDestroyed s.conns.length))) :
    Lives { s with
      next := next
      nextConnId := s.nextConnId + 1
      conns := s.conns ++ [c]
      queue := queue } := by
  have hlen : (s.conns ++ [c]).length = s.conns.length + 1 := List.length_append
  have hnew : (s.conns ++ [c])[s.conns.length]? = some c := List.getElem?_concat_length
  refine ⟨?_, ?_, ?_, ?_, ?_, ?_⟩
  · rw [hlen, h.nextConnId]
  · rw [hlen, List.range_succ, List.map_append, List.map_append, h.ids]
    show _ ++ [c.id] = _ ++ [s.conns.length + 1]
    rw [hid, h.nextConnId]
  · rw [hlen]
    exact hnext
  · rw [hlen, List.range_succ, List.map_append, List.map_append, h.homes]
    show _ ++ [c.loop] = _
    rw [hloop]
    rfl
  · intro j e he
    by_cases hj : j < s.conns.length
    · have hst := h.stage j e ((List.getElem?_append_left hj).symm.trans he)
      have hne := Nat.ne_of_lt hj
      show Stage e ((queue e.loop).count _) ((queue none).count _) ((queue e.loop).count _)
      rw [hothers _ (.connectEstablished j) hne, hothers _ (.removeConnectionInLoop j) hne,
        hothers _ (.connectDestroyed j) hne]
      exact hst
    · have hlt := (List.getElem?_eq_some_iff.mp he).1
      rw [hlen] at hlt
      have hj : j = s.conns.length := Nat.le_antisymm (Nat.le_of_lt_succ hlt) (Nat.not_lt.mp hj)
      subst hj
      cases hnew.symm.trans he
      exact hstage
  · intro loop f hf
    rcases hplaced loop f hf with hold | ⟨hsub, hpl⟩
    · obtain ⟨e, he, hpl, her⟩ := h.placed loop f hold
      have hlt := (List.getElem?_eq_some_iff.mp he).1
      exact ⟨e, (List.getElem?_append_left hlt).trans he, hpl, her⟩
    · refine ⟨c, ?_, hpl, halive⟩
      rw [hsub]
      exact hnew

/-- The connection is named, given to the next loop, and established there. -/
theorem Lives.newConnection (h : s.Lives) (hid : s.nextConnId + 1 ≤ intMax) (sockfd : Nat) :
    ∃ t, s.newConnection sockfd = .ok t ∧ t.Lives := by
  obtain ⟨next, hnl, hnext⟩ := getNextLoop_spec h
  have hnone (loop f) (hf : ServerFunctor.subject f = s.conns.length) :
      (s.queue loop).count f = 0 := h.not_pending (Nat.le_of_eq hf.symm) loop
  unfold ServerProcess.newConnection
  simp only [hnl, check_ok hid, ok_bind]
  by_cases hn : s.numThreads = 0
  · have hhome : home s.numThreads s.conns.length = none := if_pos hn
    rw [hhome]
    refine ⟨_, rfl, ?_⟩
    refine h.add (c := ⟨s.nextConnId, sockfd, none, .kConnected, true, true, true, [], [], false⟩)
      rfl hhome.symm rfl hnext (fun _ _ _ => rfl) (fun _ _ hf => .inl hf) ?_
    rw [hnone _ _ rfl, hnone _ _ rfl, hnone _ _ rfl]
    exact .up (.inl rfl) rfl rfl
  · have hhome : home s.numThreads s.conns.length = some (s.conns.length % s.numThreads) :=
      if_neg hn
    rw [hhome]
    refine ⟨_, rfl, ?_⟩
    refine h.add rfl hhome.symm rfl hnext ?_ ?_ ?_
    · intro l g hg
      have hne : ServerFunctor.connectEstablished s.conns.length ≠ g := fun he => hg (he ▸ rfl)
      show (Function.update s.queue _ _ l).count g = _
      rw [count_push, if_neg fun he => hne he.2, Nat.add_zero]
    · intro l g hg
      rcases mem_push (q := s.queue) hg with hold | ⟨rfl, rfl⟩
      · exact .inl hold
      · exact .inr ⟨rfl, rfl⟩
    · show Stage _ ((Function.update s.queue _ _ _).count _)
        ((Function.update s.queue _ _ _).count _) ((Function.update s.queue _ _ _).count _)
      rw [count_push, count_push, count_push, hnone _ _ rfl, hnone _ _ rfl, hnone _ _ rfl]
      simp only [reduceCtorEq, and_false, if_false, and_self, if_true]
      exact .waiting rfl rfl rfl rfl rfl rfl

/-! ### Runs -/

theorem Lives.conn (h : s.Lives) (hc : s.conns[k]? = some c) {a : ConnAct}
    (hg : s.Orderly (.conn k a)) {x : Except Assertion ServerProcess}
    (hx : s.connStep k c a = some x) : ∃ t, x = .ok t ∧ t.Lives := by
  cases a with
  | event hup eof =>
    simp only [connStep] at hx
    split at hx
    next hen =>
      cases hx
      exact h.event hc hen.2 hg
    · cases hx
  | test call =>
    simp only [connStep] at hx
    split at hx
    next hen =>
      cases hx
      exact ⟨_, rfl, h.test hc hen.1 hen.2⟩
    · cases hx
  | store call =>
    simp only [connStep] at hx
    split at hx
    next hen =>
      cases hx
      simp only [Orderly, hc, Option.any_some, decide_eq_false_iff_not] at hg
      exact ⟨_, rfl, h.store hc hen.1 hg⟩
    · cases hx
  | inLoop call own =>
    simp only [connStep] at hx
    split at hx
    next hcall =>
      cases hx
      refine ⟨_, rfl, ?_⟩
      split
      · exact (h.inLoop hc hcall).1
      · exact (h.inLoop hc hcall).2
    · cases hx
  | release =>
    simp only [connStep] at hx
    split at hx
    next hen =>
      obtain ⟨d, hd, hlives⟩ := h.release hc hen.1 (hg c hc)
      rw [hd] at hx
      cases hx
      exact ⟨_, rfl, hlives.congr rfl rfl rfl rfl rfl⟩
    · cases hx

theorem Lives.emfile (h : s.Lives) (ht : s.emfile = some t) : t.Lives := by
  unfold ServerProcess.emfile at ht
  split at ht
  · cases ht
  · cases ht
    exact h.congr rfl rfl rfl rfl rfl
  · split at ht
    · cases ht
      exact h.congr rfl rfl rfl rfl rfl
    · cases ht
      exact h.congr rfl rfl rfl rfl rfl
  · cases ht
    exact h.congr rfl rfl rfl rfl rfl
  · split at ht
    · cases ht
      exact h.congr rfl rfl rfl rfl rfl
    · cases ht
      exact h.congr rfl rfl rfl rfl rfl

/-- No orderly step of any thread fails an assertion. -/
theorem Lives.step (h : s.Lives) {a : ServerAct} (hg : s.Orderly a)
    {x : Except Assertion ServerProcess} (hx : s.step a = some x) : ∃ t, x = .ok t ∧ t.Lives := by
  cases a with
  | arrive =>
    cases hx
    exact ⟨_, rfl, h.congr rfl rfl rfl rfl rfl⟩
  | handleRead =>
    simp only [ServerProcess.step] at hx
    split at hx
    · cases hx
      unfold ServerProcess.handleRead
      cases s.fds.alloc with
      | none => exact ⟨_, rfl, h.congr rfl rfl rfl rfl rfl⟩
      | some y =>
        have hcongr : Lives { s with
            woken := s.woken + 1
            fds := y.2
            backlog := s.backlog - 1
            taken := s.taken + 1 } := h.congr rfl rfl rfl rfl rfl
        exact hcongr.newConnection hg y.1
    · cases hx
  | emfile =>
    obtain ⟨t, ht, rfl⟩ := Option.map_eq_some_iff.mp hx
    exact ⟨t, rfl, h.emfile ht⟩
  | run loop =>
    simp only [ServerProcess.step] at hx
    split at hx
    · split at hx
      · cases hx
      next f rest hq =>
        obtain ⟨t, ht, hlives⟩ := h.runFunctor hq
        cases hx.symm.trans ht
        exact ⟨t, rfl, hlives⟩
    · cases hx
  | conn k a =>
    obtain ⟨c, hc, hx⟩ := Option.bind_eq_some_iff.mp hx
    exact h.conn hc hg hx
  | foreignOpen | foreignClose i =>
    obtain ⟨_, _, rfl⟩ := Option.map_eq_some_iff.mp hx
    exact ⟨_, rfl, h.congr rfl rfl rfl rfl rfl⟩

theorem holds_twice {j : Nat} (hc : s.conns[j]? = some c) (hd : s.conns[k]? = some d)
    (hjk : j ≠ k) (hcrel : c.released = false) (hdrel : d.released = false) (hfd : c.fd = d.fd) :
    2 ≤ s.conns.countP (ServerConn.holds c.fd) := by
  have hadd := countP_set_add (b := { c with released := true })
    (p := ServerConn.holds c.fd) hc
  have hcp : ServerConn.holds c.fd c = true := by
    unfold ServerConn.holds
    rw [hcrel, beq_self_eq_true]
    rfl
  have hdp : ServerConn.holds c.fd d = true := by
    unfold ServerConn.holds
    rw [hdrel, hfd, beq_self_eq_true]
    rfl
  have hmem : d ∈ s.conns.set j { c with released := true } :=
    List.mem_of_getElem? ((List.getElem?_set_ne hjk).trans hd)
  have hpos := List.countP_pos_iff.mpr ⟨d, hmem, hdp⟩
  have hnew : ServerConn.holds c.fd { c with released := true } = false := rfl
  rw [hcp, hnew, if_pos rfl] at hadd
  simp only [Bool.false_eq_true, if_false] at hadd
  omega

def load (s : ServerProcess) (i : Nat) : Nat := s.conns.countP fun c => c.loop == some i

theorem Lives.load_eq (h : s.Lives) {i : Nat} (hi : i < s.numThreads) :
    s.load i = s.conns.length / s.numThreads +
      if i < s.conns.length % s.numThreads then 1 else 0 := by
  have hpos := Nat.zero_lt_of_lt hi
  have hcard := Nat.count_modEq_card s.conns.length hpos i
  rw [Nat.mod_eq_of_lt hi] at hcard
  rw [← hcard]
  calc s.load i = (s.conns.map (·.loop)).countP (· == some i) := by
        rw [List.countP_map]
        rfl
    _ = (List.range s.conns.length).countP fun k => home s.numThreads k == some i := by
      rw [h.homes, List.countP_map]
      rfl
    _ = Nat.count (· ≡ i [MOD s.numThreads]) s.conns.length := by
      refine List.countP_congr fun k _ => ?_
      rw [beq_iff_eq, decide_eq_true_eq, home, if_neg (Nat.ne_of_gt hpos), Option.some.injEq]
      show k % s.numThreads = i ↔ k % s.numThreads = i % s.numThreads
      rw [Nat.mod_eq_of_lt hi]

/-- Every open descriptor has one holder and no two connections have the same; a connection has
its socket as long as it is up, and leaves the map only when it is down; names are not used
twice, and the loops take connections in turn. -/
structure Sound (s : ServerProcess) : Prop where
  accounted : s.fds.Accounted s.holders
  apart : ∀ (j k : Nat) (c d : ServerConn), s.conns[j]? = some c → s.conns[k]? = some d →
    c.released = false → d.released = false → c.fd = d.fd → j = k
  sockets : ∀ c ∈ s.conns, c.state ≠ .kDisconnected → c.inMap = true ∧ s.fds.isOpen c.fd = true
  names : (s.conns.map (·.id)).Nodup
  homes : s.conns.map (·.loop) = (List.range s.conns.length).map (home s.numThreads)
  balanced : ∀ i j, i < s.numThreads → j < s.numThreads → s.load i ≤ s.load j + 1

theorem Lives.sound (h : s.Lives) (hkept : s.Kept) : s.Sound where
  accounted := hkept.accounted
  apart j k c d hc hd hcrel hdrel hfd := by
    by_contra hjk
    have htwo := holds_twice hc hd hjk hcrel hdrel hfd
    have hone := hkept.accounted.le_one c.fd
    unfold holders at hone
    omega
  sockets c hc hup := by
    obtain ⟨k, hk⟩ := List.mem_iff_getElem?.mp hc
    have hheld : c.inMap = true ∧ c.released = false := by
      have hst := h.stage k c hk
      generalize (s.queue c.loop).count (.connectEstablished k) = n1 at hst
      generalize (s.queue none).count (.removeConnectionInLoop k) = n2 at hst
      generalize (s.queue c.loop).count (.connectDestroyed k) = n3 at hst
      cases hst with
      | waiting _ hmap _ _ _ hrel | up _ hmap hrel => exact ⟨hmap, hrel⟩
      | closing hno | removed hno | gone hno => exact absurd hno hup
    refine ⟨hheld.1, hkept.accounted.isOpen ?_⟩
    have hcp : ServerConn.holds c.fd c = true := by
      unfold ServerConn.holds
      rw [hheld.2, beq_self_eq_true]
      rfl
    have hpos := List.countP_pos_iff.mpr ⟨c, hc, hcp⟩
    unfold holders
    omega
  names := by
    rw [h.ids]
    exact (List.nodup_range).map (Nat.succ_injective)
  homes := h.homes
  balanced i j hi hj := by
    rw [h.load_eq hi, h.load_eq hj]
    split <;> split <;> omega

variable {limit numThreads : Nat} {hlimit : 5 ≤ limit} {acts : List ServerAct}

/-- In every orderly run of the threads of the server and of the rest of the process no assertion
fails, also where the process runs out of descriptors, and every descriptor and connection is
accounted for. -/
theorem server_runs {x : Except Assertion ServerProcess}
    (hg : (machine limit numThreads hlimit).Along Orderly (new limit numThreads hlimit) acts)
    (h : (machine limit numThreads hlimit).run (new limit numThreads hlimit) acts = some x) :
    ∃ t, x = .ok t ∧ t.Sound ∧ t.numThreads = numThreads := by
  have hstep : ∀ s a x, s.Lives ∧ s.Kept ∧ s.numThreads = numThreads → s.Orderly a →
      (machine limit numThreads hlimit).step s a = some x →
      ∃ t, x = .ok t ∧ t.Lives ∧ t.Kept ∧ t.numThreads = numThreads := by
    intro s a x hs hgs hx
    obtain ⟨t, rfl, hlives⟩ := hs.1.step hgs hx
    have hgoes := hs.2.1.step hx
    exact ⟨t, rfl, hlives, hgoes.kept, hgoes.numThreads.trans hs.2.2⟩
  obtain ⟨t, ht, hlives, hkept, hnum⟩ := Machine.run_ok hstep
    ⟨new_lives limit numThreads hlimit, new_kept limit numThreads hlimit, rfl⟩ hg h
  exact ⟨t, ht, hlives.sound hkept, hnum⟩

theorem server_runs_used_up : (machine 6 2 (by decide)).Along Orderly (new 6 2 (by decide)) usedUp ∧
    ∃ t, (machine 6 2 (by decide)).run (new 6 2 (by decide)) usedUp = some (.ok t) ∧ t.Sound := by
  have hg : (machine 6 2 (by decide)).Along Orderly (new 6 2 (by decide)) usedUp := by
    decide +kernel
  have hr : (machine 6 2 (by decide)).runsTo (new 6 2 (by decide)) usedUp
      (fun t => t.conns.map (·.fd) == [5, 5]) = true := by decide +kernel
  obtain ⟨t, ht, _⟩ := Machine.exists_of_runsTo hr
  obtain ⟨u, hu, hsound, _⟩ := server_runs hg ht
  cases hu
  exact ⟨hg, t, ht, hsound⟩

theorem orderly_needed :
    (machine 6 1 (by decide)).run (new 6 1 (by decide)) [.arrive, .handleRead, .run (some 0),
      .conn 0 (.event true true)] = some (.error .handleClose) ∧
    (machine 6 1 (by decide)).run (new 6 1 (by decide)) [.arrive, .handleRead, .run (some 0),
      .conn 0 (.test .shutdown), .conn 0 (.event true false), .conn 0 (.store .shutdown),
      .conn 0 (.inLoop .shutdown false), .run none, .run (some 0), .run (some 0),
      .conn 0 .release] = some (.error .connectionDestructor) ∧
    (machine 6 1 (by decide)).run (new 6 1 (by decide)) [.arrive, .handleRead, .run (some 0),
      .conn 0 (.test .send), .conn 0 (.event true false), .run none,
      .conn 0 (.inLoop .send false), .run (some 0), .conn 0 .release, .run (some 0)] =
      some (.error .useOfConnection) := by
  refine ⟨?_, ?_, ?_⟩
  · exact Machine.run_of_failsWith (by decide +kernel)
  · exact Machine.run_of_failsWith (by decide +kernel)
  · exact Machine.run_of_failsWith (by decide +kernel)

end ServerProcess

end TstMuduo.Net
