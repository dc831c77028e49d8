import TstMuduo.Base.ThriftConnectionPool

/-!
# Waiters of the thrift connection pool (muduo/base/thrift_connection_pool.h)

A thread in the wait of `get_connection` hears of a returned client, but not of one that
is destroyed, though that makes room for a new one.
-/

namespace TstMuduo.Base
open TstMuduo.Lib

namespace ThriftConnectionPool

def Available (limits : PoolLimits) (s : ThriftConnectionPool) (host : Host) : Prop :=
  s.idle host ≠ [] ∨
    s.count host < limits.maxConnPerHost.toNat ∧ s.totalConn < limits.maxConn

/-- No thread waits, without a notification since, for a host that has something for it. -/
def NoneForgotten (limits : PoolLimits) (s : ThriftConnectionPool) : Prop :=
  ∀ host ∈ s.cond.waiting, ¬ s.Available limits host

/- A client is destroyed only while nobody waits for its host, or for another host that has
fewer clients than it may have. -/
def DestroysUnwaited (limits : PoolLimits) (s : ThriftConnectionPool) : ThriftAction → Prop
  | .destroy i =>
    match s.handles[i]? with
    | some a => a.phase = .held → ∀ host ∈ s.cond.waiting,
        host ≠ a.host ∧ limits.maxConnPerHost.toNat ≤ s.count host
    | none => True
  | _ => True

instance (limits : PoolLimits) (s : ThriftConnectionPool) (a : ThriftAction) :
    Decidable (s.DestroysUnwaited limits a) := by
  unfold DestroysUnwaited
  split
  · split
    next a _ =>
      exact @instDecidableForall _ _ _ (List.decidableBAll
        (fun host => host ≠ a.host ∧ limits.maxConnPerHost.toNat ≤ s.count host) s.cond.waiting)
    · infer_instance
  · infer_instance

theorem NoneForgotten.mono {limits : PoolLimits} {s t : ThriftConnectionPool}
    (hs : s.NoneForgotten limits) (hw : ∀ host ∈ t.cond.waiting, host ∈ s.cond.waiting)
    (ha : ∀ host ∈ s.cond.waiting, t.Available limits host → s.Available limits host) :
    t.NoneForgotten limits := by
  intro host hmem hav
  exact hs host (hw host hmem) (ha host (hw host hmem) hav)

theorem count_lt_iff {limits : PoolLimits} {s : ThriftConnectionPool} (hs : s.Accounts limits)
    (host : Host) :
    UInt32.ofNat (s.count host) < limits.maxConnPerHost ↔
      s.count host < limits.maxConnPerHost.toNat := by
  have hsmall := Nat.lt_of_le_of_lt (hs.host_le host) limits.maxConnPerHost.toNat_lt
  rw [UInt32.lt_iff_toNat_lt, UInt32.toNat_ofNat_of_lt' hsmall]

theorem NoneForgotten.getLoop {limits : PoolLimits} {s t : ThriftConnectionPool} {host : Host}
    {newClient : Option Nat} (hi : s.Inv limits) (hs : s.NoneForgotten limits)
    (hmem : host ∈ s.activeKeys) (h : s.getLoop limits host newClient = some (.ok t)) :
    t.NoneForgotten limits := by
  have hkeys : host ∈ s.idleKeys ∧ host ∈ s.activeKeys := by
    rw [hi.accounts.keys]
    exact ⟨hmem, hmem⟩
  obtain ⟨c, rest, hidle, hx⟩ | ⟨hidle, hhost, htotal, hx⟩ | ⟨hidle, hfull, hx⟩ :=
    getLoop_cases hkeys h
  · cases hx
    refine hs.mono (fun _ hw => hw) ?_
    intro other hw hav
    -- nobody waits for this host, since it has an idle client
    have hne : other ≠ host := by
      rintro rfl
      exact hs other hw (.inl (by rw [hidle]; exact List.cons_ne_nil _ _))
    unfold Available count at hav ⊢
    simp only [reuse, Function.update_of_ne hne] at hav
    exact hav
  · rcases hx with ⟨-, hx⟩ | ⟨c, hnew, hx⟩
    · cases hx
      exact hs
    · cases hx
      refine hs.mono (fun _ hw => hw) ?_
      intro other hw hav
      rcases hav with hav | ⟨hcount, htot⟩
      · exact .inl hav
      · right
        have hle : s.count other ≤ (s.create host c).count other := by
          unfold count
          by_cases he : other = host
          · rw [he]
            simp only [create, Function.update_self]
            have := Finset.card_le_card (Finset.subset_insert c (s.active host))
            omega
          · simp only [create, Function.update_of_ne he]
            exact Nat.le_refl _
        exact ⟨Nat.lt_of_le_of_lt hle hcount, htotal⟩
  · cases hx
    intro other hw hav
    rcases List.mem_append.mp hw with hw | hw
    · exact hs other hw hav
    · rw [List.mem_singleton.mp hw] at hav
      rcases hav with hav | ⟨hcount, htot⟩
      · exact hav hidle
      · exact hfull ⟨(count_lt_iff hi.accounts host).mpr hcount, htot⟩

/-- What is available for other hosts and for this one after a client is destroyed. -/
theorem available_destroy {limits : PoolLimits} {s t : ThriftConnectionPool} {host : Host} {c : Nat}
    (hs : s.Accounts limits) (hc : c ∈ s.active host) (hacc : t.Accounts limits)
    (ht : t = { s with
      active := Function.update s.active host ((s.active host).erase c),
      live := s.live.erase c,
      totalConn := s.totalConn - 1 }) (other : Host) (hidle : s.idle other = []) :
    t.Available limits other ↔ other = host ∨ s.count other < limits.maxConnPerHost.toNat := by
  have hpos := Finset.card_pos.mpr ⟨c, hc⟩
  have hmem : host ∈ s.activeKeys := by
    by_contra hno
    rw [(hs.absent host hno).2] at hc
    exact Finset.notMem_empty _ hc
  have hat : t.count host + 1 = s.count host := by
    rw [ht]
    simp only [count, Function.update_self]
    rw [Finset.card_erase_of_mem hc]
    omega
  have hoff : ∀ h, h ≠ host → t.count h = s.count h := by
    intro h hne
    rw [ht]
    simp only [count, Function.update_of_ne hne]
  have hsum := total_change (s := s) (t := t) (by rw [ht]) hmem hoff
  have hroom : t.totalConn < limits.maxConn := by
    have h1 := UInt32.le_iff_toNat_le.mp hs.total_le
    have h2 := hs.counted
    have h3 := hacc.counted
    apply UInt32.lt_iff_toNat_lt.mpr
    omega
  have hnone : t.idle other = [] := by
    rw [ht]
    exact hidle
  have hhost := hs.host_le host
  constructor
  · rintro (hav | ⟨hcount, -⟩)
    · exact absurd hnone hav
    · by_cases he : other = host
      · exact .inl he
      · rw [hoff other he] at hcount
        exact .inr hcount
  · intro h
    refine .inr ⟨?_, hroom⟩
    by_cases he : other = host
    · rw [he]
      omega
    · rw [hoff other he]
      exact h.resolve_left he

theorem NoneForgotten.destroy_iff {limits : PoolLimits} {s t : ThriftConnectionPool} {i : Nat}
    {a : ThriftConnection} (hi : s.Inv limits) (hs : s.NoneForgotten limits)
    (hget : s.handles[i]? = some a) (ha : a.phase = .held) (h : s.destroy i a = some (.ok t)) :
    t.NoneForgotten limits ↔ ∀ host ∈ s.cond.waiting,
      host ≠ a.host ∧ limits.maxConnPerHost.toNat ≤ s.count host := by
  have hact := hi.holders.held i a hget ha
  obtain ⟨u, hu, hacc, heq⟩ := hi.accounts.destroyConnection hact
  have ht : t = u.setPhase i a .destroying := by
    simp only [ThriftConnectionPool.destroy, ha, hu, ok_bind] at h
    cases h
    rfl
  have hav : ∀ host ∈ s.cond.waiting, t.Available limits host ↔
      host = a.host ∨ s.count host < limits.maxConnPerHost.toNat := by
    intro host hw
    have hidle : s.idle host = [] := by
      by_contra hne
      exact hs host hw (.inl hne)
    rw [← available_destroy hi.accounts hact hacc heq host hidle, ht]
    exact Iff.rfl
  have hcond : t.cond = s.cond := by
    rw [ht, heq]
    rfl
  unfold NoneForgotten
  rw [hcond]
  constructor
  · intro hall host hw
    have hnot := hall host hw
    rw [hav host hw, not_or] at hnot
    exact ⟨hnot.1, Nat.le_of_not_lt hnot.2⟩
  · intro hall host hw
    obtain ⟨hne, hle⟩ := hall host hw
    rw [hav host hw, not_or]
    exact ⟨hne, Nat.not_lt_of_le hle⟩

theorem NoneForgotten.step {limits : PoolLimits} {s t : ThriftConnectionPool} {a : ThriftAction}
    (hi : s.Inv limits) (hs : s.NoneForgotten limits) (hg : s.DestroysUnwaited limits a)
    (h : s.step limits a = some (.ok t)) : t.NoneForgotten limits := by
  cases a with
  | get host newClient =>
    have hnone : (s.initConnectionMap host).NoneForgotten limits := by
      rw [initConnectionMap_eq hi.accounts host]
      exact hs
    exact NoneForgotten.getLoop (hi.initConnectionMap host) hnone (Finset.mem_insert_self _ _) h
  | wake k =>
    simp only [ThriftConnectionPool.step] at h
    split at h
    · cases h
    next cond hc =>
      cases h
      refine hs.mono ?_ (fun _ _ hav => hav)
      intro host hw
      unfold Condition.wakeSpuriously at hc
      split at hc
      · cases hc
        exact List.mem_of_mem_eraseIdx hw
      · cases hc
  | resume w k newClient =>
    simp only [ThriftConnectionPool.step] at h
    split at h
    · cases h
    next host cond hc =>
      obtain ⟨hmem, hsub⟩ := Condition.mem_threads_resume hc
      have hwait := Condition.resume_waiting hc
      have hnone : { s with cond := cond }.NoneForgotten limits := by
        refine hs.mono ?_ (fun _ _ hav => hav)
        intro host hw
        rw [← hwait]
        exact hw
      exact NoneForgotten.getLoop (hi.cond hsub) hnone (hi.waiters host hmem) h
  | timeout k =>
    simp only [ThriftConnectionPool.step] at h
    split at h
    · cases h
    · cases h
      refine hs.mono ?_ (fun _ _ hav => hav)
      intro host hw
      exact List.mem_of_mem_eraseIdx hw
  | expire w k =>
    simp only [ThriftConnectionPool.step] at h
    split at h
    · cases h
    next host cond hc =>
      cases h
      have hwait := Condition.resume_waiting hc
      refine hs.mono ?_ (fun _ _ hav => hav)
      intro host hw
      rw [← hwait]
      exact hw
  | destroy i =>
    simp only [ThriftConnectionPool.step, DestroysUnwaited] at h hg
    split at h
    · cases h
    next a hget =>
      rw [hget] at hg
      by_cases ha : a.phase = .held
      · exact (NoneForgotten.destroy_iff hi hs hget ha h).mpr (hg ha)
      · unfold ThriftConnectionPool.destroy at h
        split at h
        next hp => exact absurd hp ha
        · cases h
          exact hs
        · cases h
  | clear i =>
    simp only [ThriftConnectionPool.step] at h
    split at h
    · cases h
    · split at h
      · cases h
        exact hs
      · cases h
  | destruct i =>
    simp only [ThriftConnectionPool.step] at h
    split at h
    · cases h
    next a hget =>
      unfold ThriftConnectionPool.destruct at h
      split at h
      next hp =>
        obtain ⟨u, hu, -, heq⟩ :=
          hi.accounts.returnConnection (hi.holders.held i a hget hp)
        simp only [hu, ok_bind] at h
        cases h
        intro host hw
        rw [heq] at hw
        cases hw
      · cases h
        exact hs
      · cases h

/-- In every interleaving nobody is forgotten all along exactly if no client was destroyed
while a thread waited for its host, or for another host below its limit. -/
theorem waiters_woken_iff (limits : PoolLimits) (as : List ThriftAction)
    (x : Except ThriftFault ThriftConnectionPool)
    (h : (thriftConnectionPool limits).run .init as = some x) :
    (∀ pre, pre <+: as → ∃ t, (thriftConnectionPool limits).run .init pre = some (.ok t) ∧
      t.NoneForgotten limits) ↔
    (thriftConnectionPool limits).Along (DestroysUnwaited limits) .init as := by
  refine Machine.run_always_iff (P := fun s => Inv limits s ∧ NoneForgotten limits s)
    (fun _ hp => hp.2) ?_ ?_ ⟨Inv.init limits, fun _ hw => by cases hw⟩ h
  · intro s a x hp hg hx
    obtain ⟨t, rfl, hinv, -⟩ := hp.1.step hx
    exact ⟨t, rfl, hinv, NoneForgotten.step hp.1 hp.2 hg hx⟩
  · intro s a t hp hng hx hnone
    apply hng
    cases a with
    | destroy i =>
      change s.step limits (.destroy i) = some (.ok t) at hx
      simp only [ThriftConnectionPool.step, DestroysUnwaited] at hx ⊢
      split at hx
      · cases hx
      next a hget =>
        rw [hget]
        intro ha
        exact (NoneForgotten.destroy_iff hp.1 hp.2 hget ha hx).mp hnone
    | _ => trivial

/- The second thread waits for the client of the first, which returns it. -/
def waitForReturn : List ThriftAction :=
  [.get (1, 80) (some 10), .get (1, 80) none, .destruct 0, .resume .signal 0 none]

theorem waiters_woken_by_return :
    ∃ t, (thriftConnectionPool ⟨1, 1⟩).run .init waitForReturn = some (.ok t) ∧
      t.handles[1]? = some ⟨10, (1, 80), .held⟩ ∧ t.NoneForgotten ⟨1, 1⟩ := by
  have hrun : (thriftConnectionPool ⟨1, 1⟩).runsTo .init waitForReturn
      (fun t => t.handles[1]? == some ⟨10, (1, 80), .held⟩) = true := by
    decide +kernel
  obtain ⟨t, ht, htest⟩ := Machine.exists_of_runsTo hrun
  have hall := (waiters_woken_iff ⟨1, 1⟩ waitForReturn _ ht).mpr (by decide +kernel)
  obtain ⟨u, hu, hnone⟩ := hall waitForReturn (List.prefix_refl _)
  cases ht.symm.trans hu
  exact ⟨t, ht, beq_iff_eq.mp htest, hnone⟩

/- The first thread destroys its client instead: there is room for a new one, and the second
thread is not told. -/
def waitForDestroy : List ThriftAction :=
  [.get (1, 80) (some 10), .get (1, 80) none, .destroy 0]

theorem waiter_forgotten :
    ∃ t, (thriftConnectionPool ⟨1, 1⟩).run .init waitForDestroy = some (.ok t) ∧
      t.cond.waiting = [(1, 80)] ∧ t.count (1, 80) = 0 ∧ t.totalConn = 0 ∧
      ¬ t.NoneForgotten ⟨1, 1⟩ := by
  have hrun : (thriftConnectionPool ⟨1, 1⟩).runsTo .init waitForDestroy
      (fun t => t.cond.waiting == [(1, 80)] && t.count (1, 80) == 0 && t.totalConn == 0) =
        true := by
    decide +kernel
  obtain ⟨t, ht, htest⟩ := Machine.exists_of_runsTo hrun
  simp only [Bool.and_eq_true, beq_iff_eq] at htest
  obtain ⟨⟨hwait, hcount⟩, htotal⟩ := htest
  refine ⟨t, ht, hwait, hcount, htotal, ?_⟩
  intro hnone
  apply hnone (1, 80)
  · rw [hwait]
    exact List.mem_singleton_self _
  · right
    rw [hcount, htotal]
    decide

end ThriftConnectionPool

end TstMuduo.Base
