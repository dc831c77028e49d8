import Mathlib.Data.List.Nodup
import Mathlib.Logic.Function.Basic
import TstMuduo.Cthrift.ServerFrames
import TstMuduo.Lib.ListUpdate
import TstMuduo.Lib.Machine
import TstMuduo.Net.TcpConnection

/-!
# The wheel of idle connections (cthrift/cthrift_svr.h, cthrift_svr.cc)

An IO thread has a ring of buckets. Every message puts the entry of its connection into the newest
bucket again, and a timer pushes an empty bucket, so that the oldest one goes. An entry is
destroyed with the last bucket that holds it, and shuts its connection down.
-/

namespace TstMuduo.Cthrift
open TstMuduo.Lib TstMuduo.Net

variable {C : Type} [DecidableEq C]

/-- The wheel of an IO thread. The oldest bucket comes first. `useCount` counts the shared pointers
to the entry of a connection, and `conns` has the states of the connections that exist.
`destroyed` and `shutdowns` list the entries that were destroyed and the connections that they shut
down; `kicks` counts the kicks, and `insertedAt` says how many there had been when an entry was
last inserted. -/
structure IdleWheel (C : Type) where
  buckets : List (List C)
  useCount : C → Nat
  conns : C → Option StateE
  i32_curr_conn_num : Int
  destroyed : List C
  shutdowns : List C
  kicks : Nat
  insertedAt : C → Option Nat

namespace IdleWheel

/- After `ConnThreadInit` (`cthrift_svr.cc:494`). -/
def init (N : Nat) : IdleWheel C where
  buckets := List.replicate N []
  useCount _ := 0
  conns _ := none
  i32_curr_conn_num := 0
  destroyed := []
  shutdowns := []
  kicks := 0
  insertedAt _ := none

/- `insert` of an `unordered_set`. -/
def insertSet (c : C) (b : List C) : List C := if c ∈ b then b else b ++ [c]

/- `back().insert(sp_conn_entry)`. -/
def insertBack (w : IdleWheel C) (c : C) : IdleWheel C :=
  let back := w.buckets.length - 1
  { w with
    buckets := w.buckets.modify back (insertSet c)
    useCount :=
      if c ∈ (w.buckets[back]?).getD [] then w.useCount
      else Function.update w.useCount c (w.useCount c + 1)
    insertedAt := Function.update w.insertedAt c (some w.kicks) }

/- `~ConnEntry` (`cthrift_svr.h:26`). -/
def destroyEntry (w : IdleWheel C) (c : C) : IdleWheel C :=
  if w.conns c = some .kConnected then
    { w with
      conns := Function.update w.conns c (some .kDisconnecting)
      destroyed := w.destroyed ++ [c]
      shutdowns := w.shutdowns ++ [c] }
  else
    { w with destroyed := w.destroyed ++ [c] }

/- A shared pointer to an entry goes; the entry goes with the last one. -/
def release (w : IdleWheel C) (c : C) : IdleWheel C :=
  let u := { w with useCount := Function.update w.useCount c (w.useCount c - 1) }
  if w.useCount c ≤ 1 then u.destroyEntry c else u

/- `OnConn` (`cthrift_svr.cc:267`) of a connection that is up. -/
def onConnUp (w : IdleWheel C) (c : C) : IdleWheel C :=
  insertBack { w with
    conns := Function.update w.conns c (some .kConnected)
    i32_curr_conn_num := w.i32_curr_conn_num + 1 } c

def onConnDown (w : IdleWheel C) (c : C) : IdleWheel C :=
  { w with
    conns := Function.update w.conns c (some .kDisconnected)
    i32_curr_conn_num :=
      if 0 < w.i32_curr_conn_num then w.i32_curr_conn_num - 1 else w.i32_curr_conn_num }

/- `pfnInsertTimeWheel` (`cthrift_svr.cc:416`): the weak pointer of the context is locked. -/
def pfnInsertTimeWheel (w : IdleWheel C) (c : C) : Option (IdleWheel C) :=
  if w.useCount c = 0 then none else some (w.insertBack c)

/- `OnMsg` (`cthrift_svr.cc:400`): an insertion at the start, and one after each frame. -/
def onMsg (w : IdleWheel C) (c : C) : Nat → IdleWheel C
  | 0 => (w.pfnInsertTimeWheel c).getD w
  | frames + 1 =>
    match w.pfnInsertTimeWheel c with
    | none => w
    | some u => u.onMsg c frames

/- `TimewheelKick` (`cthrift_svr.cc:490`): the oldest bucket is overwritten by an empty one. -/
def timewheelKick (w : IdleWheel C) : IdleWheel C :=
  let u := { w with buckets := w.buckets.tail ++ [[]], kicks := w.kicks + 1 }
  (w.buckets.headD []).foldl release u

/-- What happens on the thread: a connection is opened, has sent a message with some frames, is shut
down by somebody else, goes down, is destroyed; and the timer. -/
inductive Action (C : Type) where
  | connUp (c : C)
  | onMsg (c : C) (frames : Nat)
  | connShutdown (c : C)
  | connDown (c : C)
  | connGone (c : C)
  | timewheelKick
  deriving DecidableEq

def step (w : IdleWheel C) : Action C → Option (Except Empty (IdleWheel C))
  | .connUp c => if w.insertedAt c = none then some (.ok (w.onConnUp c)) else none
  | .onMsg c frames =>
    if w.conns c = some .kConnected ∨ w.conns c = some .kDisconnecting then
      some (.ok (w.onMsg c frames))
    else none
  | .connShutdown c =>
    if w.conns c = some .kConnected then
      some (.ok { w with conns := Function.update w.conns c (some .kDisconnecting) })
    else none
  | .connDown c =>
    if w.conns c = some .kConnected ∨ w.conns c = some .kDisconnecting then
      some (.ok (w.onConnDown c))
    else none
  | .connGone c =>
    if w.conns c = some .kDisconnected then
      some (.ok { w with conns := Function.update w.conns c none })
    else none
  | .timewheelKick => some (.ok w.timewheelKick)

end IdleWheel

/-- The wheel with `N` buckets. -/
def idleWheel (N : Nat) : Machine (IdleWheel C) (IdleWheel.Action C) Empty :=
  ⟨.init N, IdleWheel.step⟩

namespace IdleWheel

/-! ### What a wheel keeps -/

/-- An entry is in the bucket of its last insertion, while that exists, and in no newer one; it is
counted once for each bucket. -/
structure Inv (N : Nat) (w : IdleWheel C) : Prop where
  length : w.buckets.length = N
  nodup : ∀ b ∈ w.buckets, b.Nodup
  count : ∀ c, w.useCount c = w.buckets.countP fun b => c ∈ b
  newest : ∀ c i, w.insertedAt c = some i →
    i ≤ w.kicks ∧ (w.kicks < i + N → ∃ b, w.buckets[i + N - 1 - w.kicks]? = some b ∧ c ∈ b)
  older : ∀ (j : Nat) b c, w.buckets[j]? = some b → c ∈ b →
    ∃ i, w.insertedAt c = some i ∧ j + w.kicks + 1 ≤ i + N

variable {N : Nat} {w v : IdleWheel C} {c d : C}

theorem init_inv : (init N : IdleWheel C).Inv N where
  length := List.length_replicate
  nodup b hb := by
    rw [List.eq_of_mem_replicate hb]
    exact List.nodup_nil
  count c := by
    rw [init, List.countP_replicate]
    simp
  newest c i h := by simp [init] at h
  older j b c h hc := by
    have hb : b = [] := List.eq_of_mem_replicate (List.mem_of_getElem? h)
    rw [hb] at hc
    simp at hc

theorem Inv.useCount_pos_iff (h : w.Inv N) (c : C) :
    0 < w.useCount c ↔ ∃ i, w.insertedAt c = some i ∧ w.kicks < i + N := by
  rw [h.count, List.countP_pos_iff]
  constructor
  · rintro ⟨b, hb, hc⟩
    obtain ⟨j, hj⟩ := List.getElem?_of_mem hb
    obtain ⟨i, hi, hle⟩ := h.older j b c hj (of_decide_eq_true hc)
    exact ⟨i, hi, by omega⟩
  · rintro ⟨i, hi, hlt⟩
    obtain ⟨b, hb, hc⟩ := (h.newest c i hi).2 hlt
    exact ⟨b, List.mem_of_getElem? hb, decide_eq_true hc⟩

/-! ### Insertions -/

theorem mem_insertSet {b : List C} : d ∈ insertSet c b ↔ d ∈ b ∨ d = c := by
  unfold insertSet
  split_ifs with hc
  · exact ⟨Or.inl, fun hd => hd.elim id fun e => e ▸ hc⟩
  · simp

theorem nodup_insertSet {b : List C} (h : b.Nodup) : (insertSet c b).Nodup := by
  unfold insertSet
  split_ifs with hc
  · exact h
  · exact List.nodup_append'.mpr ⟨h, List.nodup_singleton c, by simpa using hc⟩

theorem insertBack_getElem? (h : w.buckets.length = N) (c : C) (j : Nat) :
    (w.insertBack c).buckets[j]? =
      (w.buckets[j]?).map fun b => if j + 1 = N then insertSet c b else b := by
  show (w.buckets.modify (w.buckets.length - 1) (insertSet c))[j]? = _
  rw [List.getElem?_modify, h]
  cases hj : w.buckets[j]? with
  | none => rfl
  | some b =>
    have hlt : j < w.buckets.length := (List.getElem?_eq_some_iff.mp hj).1
    have hback : N - 1 = j ↔ j + 1 = N := by omega
    simp only [hback, Option.map_eq_map, Option.map_some]

theorem Inv.insertBack (h : w.Inv N) (hN : 0 < N) (c : C) : (w.insertBack c).Inv N where
  length := by
    rw [← h.length]
    exact List.length_modify ..
  nodup b hb := by
    obtain ⟨j, hj⟩ := List.getElem?_of_mem hb
    rw [insertBack_getElem? h.length] at hj
    obtain ⟨a, ha, rfl⟩ := Option.map_eq_some_iff.mp hj
    have hnodup := h.nodup a (List.mem_of_getElem? ha)
    split_ifs
    · exact nodup_insertSet hnodup
    · exact hnodup
  count d := by
    obtain ⟨back, hback⟩ : ∃ back, w.buckets[w.buckets.length - 1]? = some back :=
      ⟨_, List.getElem?_eq_getElem (by rw [h.length]; omega)⟩
    have hcount := countP_modify (p := fun b => decide (d ∈ b)) (f := insertSet c) hback
    have hold := h.count d
    show (if c ∈ (w.buckets[w.buckets.length - 1]?).getD [] then w.useCount
      else Function.update w.useCount c (w.useCount c + 1)) d =
        (w.buckets.modify (w.buckets.length - 1) (insertSet c)).countP fun b => decide (d ∈ b)
    rw [hback, Option.getD_some]
    simp only [decide_eq_true_eq, mem_insertSet] at hcount
    by_cases hd : d = c
    · subst hd
      by_cases hmem : d ∈ back
      · simp only [hmem, if_true, true_or] at hcount ⊢
        omega
      · simp only [hmem, if_false, or_true, if_true, Function.update_self] at hcount ⊢
        omega
    · have hsame : (if c ∈ back then w.useCount
          else Function.update w.useCount c (w.useCount c + 1)) d = w.useCount d := by
        split_ifs
        · rfl
        · exact Function.update_of_ne hd _ _
      rw [hsame]
      simp only [hd, or_false] at hcount
      omega
  newest d i hi := by
    have hi : Function.update w.insertedAt c (some w.kicks) d = some i := hi
    show i ≤ w.kicks ∧ (w.kicks < i + N → ∃ b, (w.insertBack c).buckets[i + N - 1 - w.kicks]? =
      some b ∧ d ∈ b)
    simp only [insertBack_getElem? h.length]
    by_cases hd : d = c
    · subst hd
      rw [Function.update_self] at hi
      obtain rfl := Option.some.inj hi
      obtain ⟨back, hback⟩ : ∃ back, w.buckets[w.kicks + N - 1 - w.kicks]? = some back :=
        ⟨_, List.getElem?_eq_getElem (by rw [h.length]; omega)⟩
      have hd : d ∈ if w.kicks + N - 1 - w.kicks + 1 = N then insertSet d back else back := by
        rw [if_pos (by omega)]
        exact mem_insertSet.mpr (.inr rfl)
      exact ⟨Nat.le_refl _, fun _ => ⟨_, congrArg _ hback, hd⟩⟩
    · rw [Function.update_of_ne hd] at hi
      obtain ⟨hle, hin⟩ := h.newest d i hi
      refine ⟨hle, fun hlt => ?_⟩
      obtain ⟨b, hb, hmem⟩ := hin hlt
      refine ⟨_, congrArg _ hb, ?_⟩
      split_ifs
      · exact mem_insertSet.mpr (.inl hmem)
      · exact hmem
  older j b d hj hd := by
    rw [insertBack_getElem? h.length] at hj
    obtain ⟨a, ha, rfl⟩ := Option.map_eq_some_iff.mp hj
    have hlt : j < N := by
      rw [← h.length]
      exact (List.getElem?_eq_some_iff.mp ha).1
    show ∃ i, Function.update w.insertedAt c (some w.kicks) d = some i ∧ j + w.kicks + 1 ≤ i + N
    by_cases hdc : d = c
    · subst hdc
      exact ⟨w.kicks, Function.update_self .., by omega⟩
    · rw [Function.update_of_ne hdc]
      apply h.older j a d ha
      split_ifs at hd
      · exact (mem_insertSet.mp hd).resolve_right hdc
      · exact hd

/-! ### Kicks -/

/-- What the release of the entries of `l` does: an entry whose only pointer goes is destroyed, and
its connection, if connected, is shut down. -/
structure Released (l : List C) (w v : IdleWheel C) : Prop where
  buckets : v.buckets = w.buckets
  kicks : v.kicks = w.kicks
  insertedAt : v.insertedAt = w.insertedAt
  useCount : ∀ c, v.useCount c = w.useCount c - if c ∈ l then 1 else 0
  conns : ∀ c, v.conns c = if c ∈ l ∧ w.useCount c ≤ 1 ∧ w.conns c = some .kConnected then
    some .kDisconnecting else w.conns c
  destroyed : ∀ c, v.destroyed.count c =
    w.destroyed.count c + if c ∈ l ∧ w.useCount c ≤ 1 then 1 else 0
  shutdowns : ∀ c, v.shutdowns.count c = w.shutdowns.count c +
    if c ∈ l ∧ w.useCount c ≤ 1 ∧ w.conns c = some .kConnected then 1 else 0

theorem released_nil (w : IdleWheel C) : Released [] w w := by
  constructor <;> simp

theorem released_singleton (w : IdleWheel C) (c : C) : Released [c] w (w.release c) := by
  have hcount : ∀ d, Function.update w.useCount c (w.useCount c - 1) d =
      w.useCount d - if d ∈ [c] then 1 else 0 := by
    intro d
    by_cases hd : d = c
    · subst hd
      simp
    · simp [hd]
  have hother : ∀ d, d ≠ c → List.count d [c] = 0 := by
    intro d hd
    exact List.count_eq_zero.mpr (by simpa using hd)
  unfold release
  by_cases hlast : w.useCount c ≤ 1
  · simp only [if_pos hlast]
    unfold destroyEntry
    by_cases hconn : w.conns c = some .kConnected
    · simp only [if_pos hconn]
      refine ⟨rfl, rfl, rfl, hcount, fun d => ?_, fun d => ?_, fun d => ?_⟩
      all_goals
        by_cases hd : d = c
        · subst hd
          simp [hlast, hconn]
        · simp [hd, hother]
    · simp only [if_neg hconn]
      refine ⟨rfl, rfl, rfl, hcount, fun d => ?_, fun d => ?_, fun d => ?_⟩
      all_goals
        by_cases hd : d = c
        · subst hd
          simp [hlast, hconn]
        · simp [hd, hother]
  · simp only [if_neg hlast]
    refine ⟨rfl, rfl, rfl, hcount, fun d => ?_, fun d => ?_, fun d => ?_⟩
    all_goals
      by_cases hd : d = c
      · subst hd
        simp [hlast]
      · simp [hd]

theorem Released.cons {l : List C} {u : IdleWheel C} (hc : Released [c] w u) (hl : Released l u v)
    (hnot : c ∉ l) : Released (c :: l) w v := by
  have huse : ∀ d, d ≠ c → u.useCount d = w.useCount d := by
    intro d hd
    rw [hc.useCount, if_neg (by simpa using hd), Nat.sub_zero]
  have hconns : ∀ d, d ≠ c → u.conns d = w.conns d := by
    intro d hd
    rw [hc.conns, if_neg fun h => hd (by simpa using h.1)]
  refine ⟨hl.buckets.trans hc.buckets, hl.kicks.trans hc.kicks, hl.insertedAt.trans hc.insertedAt,
    fun d => ?_, fun d => ?_, fun d => ?_, fun d => ?_⟩
  · rw [hl.useCount, hc.useCount]
    by_cases hd : d = c
    · subst hd
      simp [hnot]
    · simp [hd]
  · rw [hl.conns]
    by_cases hd : d = c
    · subst hd
      rw [if_neg fun h => hnot h.1, hc.conns]
      simp
    · simp [hd, huse d hd, hconns d hd]
  · rw [hl.destroyed, hc.destroyed]
    by_cases hd : d = c
    · subst hd
      simp [hnot]
    · simp [hd, huse d hd]
  · rw [hl.shutdowns, hc.shutdowns]
    by_cases hd : d = c
    · subst hd
      simp [hnot]
    · simp [hd, huse d hd, hconns d hd]

theorem released_foldl {l : List C} (hl : l.Nodup) (w : IdleWheel C) :
    Released l w (l.foldl release w) := by
  induction l generalizing w with
  | nil => exact released_nil w
  | cons c l ih =>
    rw [List.nodup_cons] at hl
    exact (released_singleton w c).cons (ih hl.2 (w.release c)) hl.1

/-- An entry goes with the next kick: `N` kicks will have come since its last insertion. -/
def Due (N : Nat) (w : IdleWheel C) (c : C) : Prop :=
  (w.insertedAt c).map (· + N) = some (w.kicks + 1)

instance (N : Nat) (w : IdleWheel C) (c : C) : Decidable (w.Due N c) :=
  inferInstanceAs (Decidable (_ = _))

theorem Inv.due_iff {oldest : List C} {rest : List (List C)} (h : w.Inv N)
    (hb : w.buckets = oldest :: rest) (c : C) :
    (c ∈ oldest ∧ w.useCount c ≤ 1) ↔ w.Due N c := by
  have h0 : w.buckets[0]? = some oldest := by rw [hb]; rfl
  have hsucc : ∀ j, w.buckets[j + 1]? = rest[j]? := fun j => by rw [hb]; rfl
  have hcount := h.count c
  rw [hb, List.countP_cons] at hcount
  unfold Due
  rw [Option.map_eq_some_iff]
  constructor
  · rintro ⟨hc, hle⟩
    obtain ⟨i, hi, hlow⟩ := h.older 0 oldest c h0 hc
    refine ⟨i, hi, ?_⟩
    by_contra hne
    -- otherwise a newer bucket holds the entry too
    obtain ⟨b, hbi, hcb⟩ := (h.newest c i hi).2 (by omega)
    obtain ⟨j, hj⟩ : ∃ j, i + N - 1 - w.kicks = j + 1 := ⟨i + N - 2 - w.kicks, by omega⟩
    rw [hj, hsucc] at hbi
    have hpos : 0 < rest.countP fun b => decide (c ∈ b) :=
      List.countP_pos_iff.mpr ⟨b, List.mem_of_getElem? hbi, decide_eq_true hcb⟩
    simp only [hc, decide_true, if_true] at hcount
    omega
  · rintro ⟨i, hi, hN⟩
    obtain ⟨b, hbi, hcb⟩ := (h.newest c i hi).2 (by omega)
    have hzero : i + N - 1 - w.kicks = 0 := by omega
    rw [hzero, h0] at hbi
    obtain rfl := Option.some.inj hbi
    refine ⟨hcb, ?_⟩
    have hnone : rest.countP (fun b => decide (c ∈ b)) = 0 := by
      rw [List.countP_eq_zero]
      intro a ha hca
      obtain ⟨j, hj⟩ := List.getElem?_of_mem ha
      obtain ⟨i', hi', hle⟩ := h.older (j + 1) a c ((hsucc j).trans hj) (of_decide_eq_true hca)
      rw [hi] at hi'
      have := Option.some.inj hi'
      omega
    rw [hcount, hnone]
    split_ifs <;> omega

theorem exists_oldest (h : w.Inv N) (hN : 0 < N) :
    ∃ oldest rest, w.buckets = oldest :: rest := by
  cases hb : w.buckets with
  | nil =>
    rw [← h.length, hb] at hN
    exact absurd hN (Nat.lt_irrefl 0)
  | cons oldest rest => exact ⟨oldest, rest, rfl⟩

theorem Inv.kick_released {oldest : List C} {rest : List (List C)} (h : w.Inv N)
    (hb : w.buckets = oldest :: rest) :
    Released oldest { w with buckets := rest ++ [[]], kicks := w.kicks + 1 } w.timewheelKick := by
  have hnodup : oldest.Nodup := h.nodup oldest (by rw [hb]; exact List.mem_cons_self)
  have hkick : w.timewheelKick =
      oldest.foldl release { w with buckets := rest ++ [[]], kicks := w.kicks + 1 } := by
    simp only [timewheelKick, hb, List.headD_cons, List.tail_cons]
  rw [hkick]
  exact released_foldl hnodup _

theorem Inv.timewheelKick (h : w.Inv N) (hN : 0 < N) : w.timewheelKick.Inv N := by
  obtain ⟨oldest, rest, hb⟩ := exists_oldest h hN
  have hr := h.kick_released hb
  have hsucc : ∀ j, w.buckets[j + 1]? = rest[j]? := fun j => by rw [hb]; rfl
  have hlen : rest.length + 1 = N := by rw [← h.length, hb]; rfl
  have hbuckets : w.timewheelKick.buckets = rest ++ [[]] := hr.buckets
  have hkicks : w.timewheelKick.kicks = w.kicks + 1 := hr.kicks
  have hinserted : w.timewheelKick.insertedAt = w.insertedAt := hr.insertedAt
  constructor
  · rw [hbuckets, List.length_append]
    exact hlen
  · intro b hmem
    rw [hbuckets, List.mem_append, List.mem_singleton] at hmem
    rcases hmem with hmem | rfl
    · exact h.nodup b (by rw [hb]; exact List.mem_cons_of_mem _ hmem)
    · exact List.nodup_nil
  · intro c
    have hold := h.count c
    have hnew := hr.useCount c
    rw [hb, List.countP_cons] at hold
    simp only at hnew
    rw [hnew, hbuckets, List.countP_append, hold]
    by_cases hc : c ∈ oldest <;> simp [hc]
  · intro c i hi
    rw [hinserted] at hi
    obtain ⟨hle, hin⟩ := h.newest c i hi
    rw [hkicks, hbuckets]
    refine ⟨by omega, fun hlt => ?_⟩
    obtain ⟨b, hj, hmem⟩ := hin (by omega)
    obtain ⟨j, hj'⟩ : ∃ j, i + N - 1 - w.kicks = j + 1 := ⟨i + N - 2 - w.kicks, by omega⟩
    have hidx : i + N - 1 - (w.kicks + 1) = j := by omega
    rw [hj', hsucc] at hj
    rw [hidx, List.getElem?_append_left (List.getElem?_eq_some_iff.mp hj).1]
    exact ⟨b, hj, hmem⟩
  · intro j b c hj hmem
    rw [hbuckets] at hj
    have hjlt : j < rest.length := by
      by_contra hge
      rw [List.getElem?_append_right (by omega)] at hj
      obtain rfl : b = [] := by simpa using List.mem_of_getElem? hj
      simp at hmem
    rw [List.getElem?_append_left hjlt, ← hsucc] at hj
    obtain ⟨i, hi, hle⟩ := h.older (j + 1) b c hj hmem
    rw [hinserted, hkicks]
    exact ⟨i, hi, by omega⟩

/-! ### Runs -/

theorem onMsg_cases (w : IdleWheel C) (c : C) (frames : Nat) (P : IdleWheel C → Prop) (hw : P w)
    (hstep : ∀ u, P u → P (u.insertBack c)) : P (w.onMsg c frames) := by
  induction frames generalizing w with
  | zero =>
    unfold onMsg pfnInsertTimeWheel
    split_ifs
    · exact hw
    · exact hstep w hw
  | succ frames ih =>
    unfold onMsg pfnInsertTimeWheel
    split_ifs
    · exact hw
    · exact ih _ (hstep w hw)

theorem step_inv (hN : 0 < N) {a : Action C} (h : w.Inv N) (hs : w.step a = some (.ok v)) :
    v.Inv N := by
  have hkeep : ∀ conns num, Inv N { w with conns := conns, i32_curr_conn_num := num } :=
    fun conns num => ⟨h.length, h.nodup, h.count, h.newest, h.older⟩
  cases a with
  | connUp c =>
    simp only [step] at hs
    split_ifs at hs
    obtain rfl := Except.ok.inj (Option.some.inj hs)
    exact (hkeep _ _).insertBack hN c
  | onMsg c frames =>
    simp only [step] at hs
    split_ifs at hs
    obtain rfl := Except.ok.inj (Option.some.inj hs)
    exact onMsg_cases w c frames (Inv N) h fun u hu => hu.insertBack hN c
  | connShutdown c =>
    simp only [step] at hs
    split_ifs at hs
    obtain rfl := Except.ok.inj (Option.some.inj hs)
    exact hkeep _ _
  | connDown c =>
    simp only [step] at hs
    split_ifs at hs
    obtain rfl := Except.ok.inj (Option.some.inj hs)
    exact hkeep _ _
  | connGone c =>
    simp only [step] at hs
    split_ifs at hs
    obtain rfl := Except.ok.inj (Option.some.inj hs)
    exact hkeep _ _
  | timewheelKick =>
    obtain rfl := Except.ok.inj (Option.some.inj hs)
    exact h.timewheelKick hN

theorem run_inv (hN : 0 < N) {as : List (Action C)}
    (h : (idleWheel N).run (init N) as = some (.ok w)) : w.Inv N :=
  Machine.run_inv_all (fun _ _ _ hi hs => step_inv hN hi hs) init_inv h

/-- The actions that insert the entry of `c`: its connection is opened, or sends while the entry
exists. -/
def Inserts (w : IdleWheel C) (c : C) : Action C → Prop
  | .connUp d => d = c
  | .onMsg d _ => d = c ∧ 0 < w.useCount c
  | _ => False

instance (w : IdleWheel C) (c : C) (a : Action C) : Decidable (w.Inserts c a) := by
  cases a <;> unfold Inserts <;> infer_instance

theorem release_frame (w : IdleWheel C) (c : C) :
    (w.release c).kicks = w.kicks ∧ (w.release c).insertedAt = w.insertedAt := by
  have h := released_singleton w c
  exact ⟨h.kicks, h.insertedAt⟩

theorem kick_frame (w : IdleWheel C) :
    w.timewheelKick.kicks = w.kicks + 1 ∧ w.timewheelKick.insertedAt = w.insertedAt := by
  have hfold : ∀ (l : List C) (u : IdleWheel C), (l.foldl release u).kicks = u.kicks ∧
      (l.foldl release u).insertedAt = u.insertedAt := by
    intro l
    induction l with
    | nil => exact fun u => ⟨rfl, rfl⟩
    | cons c l ih =>
      intro u
      obtain ⟨hk, hi⟩ := release_frame u c
      exact ⟨(ih _).1.trans hk, (ih _).2.trans hi⟩
  exact hfold _ _

theorem insertBack_useCount (h : 0 < w.useCount c) : 0 < (w.insertBack c).useCount c := by
  simp only [insertBack]
  split
  · exact h
  · rw [Function.update_self]
    exact Nat.succ_pos _

theorem onMsg_frame (w : IdleWheel C) (c : C) (frames : Nat) :
    (w.onMsg c frames).kicks = w.kicks ∧ (w.onMsg c frames).insertedAt =
      if 0 < w.useCount c then Function.update w.insertedAt c (some w.kicks) else w.insertedAt := by
  by_cases h : 0 < w.useCount c
  · rw [if_pos h]
    have hp : ∀ u : IdleWheel C, 0 < u.useCount c → u.pfnInsertTimeWheel c = some (u.insertBack c) :=
      fun u hu => if_neg (Nat.pos_iff_ne_zero.mp hu)
    induction frames generalizing w with
    | zero =>
      rw [onMsg, hp w h]
      exact ⟨rfl, rfl⟩
    | succ frames ih =>
      obtain ⟨hk, hi⟩ := ih (w.insertBack c) (insertBack_useCount h)
      rw [onMsg, hp w h]
      refine ⟨hk, hi.trans ?_⟩
      exact Function.update_idem _ _ _
  · rw [if_neg h]
    have hp : w.pfnInsertTimeWheel c = none := if_pos (Nat.eq_zero_of_not_pos h)
    cases frames with
    | zero => simp only [onMsg, hp, Option.getD_none, and_self]
    | succ frames => simp only [onMsg, hp, and_self]

theorem step_kicks {a : Action C} (hs : w.step a = some (.ok v)) :
    v.kicks = w.kicks + if a = .timewheelKick then 1 else 0 := by
  cases a with
  | timewheelKick =>
    obtain rfl := Except.ok.inj (Option.some.inj hs)
    exact (kick_frame w).1
  | onMsg c frames =>
    simp only [step] at hs
    split_ifs at hs
    obtain rfl := Except.ok.inj (Option.some.inj hs)
    exact (onMsg_frame w c frames).1
  | _ =>
    simp only [step] at hs
    split_ifs at hs
    obtain rfl := Except.ok.inj (Option.some.inj hs)
    rfl

theorem run_kicks {as : List (Action C)} (h : (idleWheel N).run w as = some (.ok v)) :
    v.kicks = w.kicks + as.count .timewheelKick := by
  induction as generalizing w with
  | nil =>
    cases h
    rfl
  | cons a as ih =>
    obtain ⟨u, hu, hr⟩ := Machine.run_cons_ok h
    have hk := step_kicks hu
    rw [ih hr, hk, List.count_cons]
    simp only [beq_iff_eq]
    omega

theorem step_insertedAt {a : Action C} (hs : w.step a = some (.ok v)) (c : C) :
    v.insertedAt c = if w.Inserts c a then some w.kicks else w.insertedAt c := by
  have hupdate : ∀ d, Function.update w.insertedAt d (some w.kicks) c =
      if d = c then some w.kicks else w.insertedAt c := by
    intro d
    rw [Function.update_apply]
    simp only [eq_comm]
  cases a with
  | timewheelKick =>
    obtain rfl := Except.ok.inj (Option.some.inj hs)
    exact congrFun (kick_frame w).2 c
  | onMsg d frames =>
    simp only [step] at hs
    split_ifs at hs
    obtain rfl := Except.ok.inj (Option.some.inj hs)
    rw [(onMsg_frame w d frames).2]
    by_cases hd : d = c
    · subst hd
      by_cases hu : 0 < w.useCount d
      · simp only [Inserts, hu, and_self, if_true, Function.update_self]
      · simp only [Inserts, hu, and_false, if_false]
    · by_cases hu : 0 < w.useCount d
      · simp only [Inserts, hd, hu, if_true, false_and, if_false, hupdate]
      · simp only [Inserts, hd, hu, false_and, if_false]
  | connUp d =>
    simp only [step] at hs
    split_ifs at hs
    obtain rfl := Except.ok.inj (Option.some.inj hs)
    exact hupdate d
  | _ =>
    simp only [step] at hs
    split_ifs at hs
    obtain rfl := Except.ok.inj (Option.some.inj hs)
    rfl

theorem step_destroyed {a : Action C} (ha : a ≠ .timewheelKick) (hs : w.step a = some (.ok v)) :
    v.destroyed = w.destroyed ∧ v.shutdowns = w.shutdowns := by
  cases a with
  | onMsg c frames =>
    simp only [step] at hs
    split_ifs at hs
    obtain rfl := Except.ok.inj (Option.some.inj hs)
    exact onMsg_cases w c frames (fun u => u.destroyed = w.destroyed ∧ u.shutdowns = w.shutdowns)
      ⟨rfl, rfl⟩ fun u hu => hu
  | timewheelKick => exact absurd rfl ha
  | _ =>
    simp only [step] at hs
    split_ifs at hs
    obtain rfl := Except.ok.inj (Option.some.inj hs)
    exact ⟨rfl, rfl⟩

/-- In every run, an entry exists while fewer than `N` kicks came since its last insertion, which
is the opening of its connection or a message since then. It is destroyed by the `N`-th one and by
nothing else, and that shuts its connection down if it is still connected. -/
theorem entry_destroyed_at_kick (hN : 0 < N) {as : List (Action C)} {a : Action C}
    (hrun : (idleWheel N).run (init N) as = some (.ok w)) (hs : w.step a = some (.ok v)) (c : C) :
    (0 < w.useCount c ↔ ∃ i, w.insertedAt c = some i ∧ w.kicks < i + N) ∧
      w.kicks = as.count .timewheelKick ∧
      v.insertedAt c = (if w.Inserts c a then some w.kicks else w.insertedAt c) ∧
      v.destroyed.count c =
        w.destroyed.count c + (if a = .timewheelKick ∧ w.Due N c then 1 else 0) ∧
      v.shutdowns.count c = w.shutdowns.count c +
        if a = .timewheelKick ∧ w.Due N c ∧ w.conns c = some .kConnected then 1 else 0 := by
  have hi := run_inv hN hrun
  have hkicks := run_kicks hrun
  rw [show (init N : IdleWheel C).kicks = 0 from rfl, Nat.zero_add] at hkicks
  refine ⟨hi.useCount_pos_iff c, hkicks, step_insertedAt hs c, ?_⟩
  by_cases ha : a = .timewheelKick
  · subst ha
    obtain rfl := Except.ok.inj (Option.some.inj hs)
    obtain ⟨oldest, rest, hb⟩ := exists_oldest hi hN
    have hr := hi.kick_released hb
    have hdue := hi.due_iff hb c
    have hdestroyed := hr.destroyed c
    have hshutdowns := hr.shutdowns c
    simp only [hdue] at hdestroyed
    simp only [← and_assoc, hdue] at hshutdowns
    simp only [true_and]
    exact ⟨hdestroyed, hshutdowns⟩
  · obtain ⟨hdestroyed, hshutdowns⟩ := step_destroyed ha hs
    simp only [ha, false_and, if_false, Nat.add_zero, hdestroyed, hshutdowns, and_self]

theorem Inv.insertTimeWheel_isSome (h : w.Inv kI8TimeWheelGridNum) {i : Nat}
    (hi : w.insertedAt c = some i) {s : SvrConn} (hs : s.kicks = w.kicks - i) :
    s.insertTimeWheel.isSome ↔ (w.pfnInsertTimeWheel c).isSome := by
  have hpos := h.useCount_pos_iff c
  have hle := (h.newest c i hi).1
  simp only [hi, Option.some.injEq, exists_eq_left'] at hpos
  unfold SvrConn.insertTimeWheel pfnInsertTimeWheel
  rw [hs]
  split_ifs <;> simp <;> omega

/- The wheel of the server, when the connection sends again after the first kick. -/
def afterFourKicks : List (Action Nat) :=
  [.connUp 7, .timewheelKick, .onMsg 7 1, .timewheelKick, .timewheelKick, .timewheelKick]

/- The message renews the entry: the fourth kick leaves it, and the fifth destroys it. -/
theorem entry_destroyed_at_kick_fourth :
    ∃ w v : IdleWheel Nat, (idleWheel 4).run (init 4) afterFourKicks = some (.ok w) ∧
      ((0 < w.useCount 7 ↔ ∃ i, w.insertedAt 7 = some i ∧ w.kicks < i + 4) ∧
        w.kicks = afterFourKicks.count .timewheelKick ∧
        v.insertedAt 7 =
          (if w.Inserts 7 (.timewheelKick : Action Nat) then some w.kicks else w.insertedAt 7) ∧
        v.destroyed.count 7 = w.destroyed.count 7 +
          (if Action.timewheelKick = (.timewheelKick : Action Nat) ∧ w.Due 4 7 then 1 else 0) ∧
        v.shutdowns.count 7 = w.shutdowns.count 7 +
          if Action.timewheelKick = (.timewheelKick : Action Nat) ∧ w.Due 4 7 ∧
            w.conns 7 = some .kConnected then 1 else 0) ∧
      w.insertedAt 7 = some 1 ∧ w.destroyed = [] ∧ v.destroyed = [7] ∧ v.shutdowns = [7] := by
  have hrun : (idleWheel 4).runsTo (init 4) afterFourKicks
      (fun w => w.insertedAt 7 = some 1 ∧ w.destroyed = [] ∧ w.timewheelKick.destroyed = [7] ∧
        w.timewheelKick.shutdowns = [7]) = true := by decide
  obtain ⟨w, hw, hp⟩ := Machine.exists_of_runsTo hrun
  exact ⟨w, w.timewheelKick, hw, entry_destroyed_at_kick (by decide) hw rfl 7, of_decide_eq_true hp⟩

end IdleWheel

end TstMuduo.Cthrift
