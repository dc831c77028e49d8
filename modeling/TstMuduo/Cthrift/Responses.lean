import Mathlib.Data.List.AList
import Mathlib.Data.List.Induction
import TstMuduo.Cthrift.BinaryProtocol

/-!
# Requests and their responses (cthrift/cthrift_client_worker.cc)

The worker keeps the context of every request that waits for its response in
`map_id_sharedcontextsp_`. Four things take a context out again: a frame with its id, a
timeout of its transport, and for asynchronous requests the time wheel.

The wheel holds weak pointers. A context lives as long as the map or an `AsyncCallback`
functor holds it.
-/

namespace TstMuduo.Cthrift
open TstMuduo.Lib TstMuduo.Net

/- `boost::lexical_cast<std::string>` of an integer. -/
def lexicalCast (i : Int) : String := toString i

theorem lexicalCast_inj {i j : Int} (hi : 0 < i) (hj : 0 < j) (h : lexicalCast i = lexicalCast j) :
    i = j := by
  obtain ⟨m, rfl⟩ := Int.eq_ofNat_of_zero_le (Int.le_of_lt hi)
  obtain ⟨n, rfl⟩ := Int.eq_ofNat_of_zero_le (Int.le_of_lt hj)
  have hrepr : m.repr = n.repr := h
  have hdigits : Nat.toDigits 10 m = Nat.toDigits 10 n := by
    rw [← Nat.toList_repr, hrepr, Nat.toList_repr]
  have hval := congrArg (fun ds => Nat.ofDigitChars 10 ds 0) hdigits
  simp only [Nat.ofDigitChars_ten_toDigits] at hval
  rw [hval]

/-- A `SharedBetweenWorkerTransport` object: which one it is, and the fields that the worker
goes by. -/
structure SharedContext where
  obj : Nat
  str_id : String
  async_flag : Bool
  deriving DecidableEq, Repr

/-- A context whose read buffer was filled and signalled, or whose callback was scheduled,
with the frame that did it. -/
structure Completion where
  context : SharedContext
  seqid : BitVec 32
  body : Bytes
  deriving DecidableEq, Repr

/- `expired` has the contexts whose transport has dropped `sp_bool_timeout_`, and `callbacks`
the functors that the asynchronous loop has not run yet. -/
structure ClientWorker where
  map_id_sharedcontextsp : AList fun _ : String => SharedContext
  cnxt_entry_circul_buf : List (List SharedContext)
  callbacks : List (SharedContext × Bytes)
  expired : List Nat
  completed : List Completion

def kI8TimeWheelNum : Nat := 5

namespace ClientWorker

/- A worker after `EnableAsync` (`cthrift_client_worker.cc:1014`). -/
def new : ClientWorker where
  map_id_sharedcontextsp := ∅
  cnxt_entry_circul_buf := List.replicate kI8TimeWheelNum []
  callbacks := []
  expired := []
  completed := []

def erase (w : ClientWorker) (str_id : String) : ClientWorker :=
  { w with map_id_sharedcontextsp := w.map_id_sharedcontextsp.erase str_id }

/- The end of `SendTransportReq` (`cthrift_client_worker.cc:1006`). -/
def registerSync (w : ClientWorker) (c : SharedContext) : ClientWorker :=
  { w with map_id_sharedcontextsp := w.map_id_sharedcontextsp.insert c.str_id c }

/- `cnxt_entry_circul_buf_.back().insert(entry)`. -/
def insertBack (c : SharedContext) : List (List SharedContext) → List (List SharedContext)
  | [] => []
  | [bucket] => [bucket ++ [c]]
  | bucket :: later => bucket :: insertBack c later

/- The end of `AsyncSendReq` (`cthrift_client_worker.cc:1138`). -/
def registerAsync (w : ClientWorker) (c : SharedContext) : ClientWorker :=
  { w.registerSync c with
    cnxt_entry_circul_buf := insertBack c w.cnxt_entry_circul_buf }

/- What `HandleThriftMsg` does to the context that it has found. -/
def respond (w : ClientWorker) (sp_shared : SharedContext) (seqid : BitVec 32) (buf : Bytes) :
    ClientWorker :=
  if sp_shared.async_flag then
    { w with
      callbacks := w.callbacks ++ [(sp_shared, buf)]
      completed := w.completed ++ [⟨sp_shared, seqid, buf⟩] }
  else if sp_shared.obj ∈ w.expired then w
  else { w with completed := w.completed ++ [⟨sp_shared, seqid, buf⟩] }

/- `HandleThriftMsg` (`cthrift_client_worker.cc:744`), and whether it shuts the connection
down. -/
def handleThriftMsg (p : CthriftTBinaryProtocol) (w : ClientWorker) (buf : Bytes) :
    Except TException (ClientWorker × Bool) := do
  let i32_seqid ← p.getSeqID (.resetBuffer buf)
  if i32_seqid.toInt ≤ 0 then return (w, true)
  else
    match w.map_id_sharedcontextsp.lookup (lexicalCast i32_seqid.toInt) with
    | none => return (w, false)
    | some sp_shared => return ((w.respond sp_shared i32_seqid buf).erase sp_shared.str_id, false)

/- Whether `wp_cnxt_.lock()` gets the context. -/
def holds (w : ClientWorker) (c : SharedContext) : Bool :=
  decide (c ∈ w.map_id_sharedcontextsp.entries.map Sigma.snd) ||
    decide (c ∈ w.callbacks.map Prod.fst)

/- `~CnxtEntry` (`cthrift_client_worker.h:113`). -/
def destroyCnxtEntry (w : ClientWorker) (c : SharedContext) : ClientWorker :=
  if w.holds c then w.erase c.str_id else w

/- `TimewheelKick` (`cthrift_client_worker.cc:1009`): the buffer is full, so that the new
bucket replaces the oldest one. -/
def timewheelKick (w : ClientWorker) : ClientWorker :=
  match w.cnxt_entry_circul_buf with
  | [] => w
  | oldest :: later =>
    oldest.foldl destroyCnxtEntry { w with cnxt_entry_circul_buf := later ++ [[]] }

/-! ### Runs -/

/- What happens in the worker's loop, beside a transport that gives up its flag and the
asynchronous loop that runs a functor. -/
inductive Act where
  | sendTransportReq (c : SharedContext)
  | asyncSendReq (c : SharedContext)
  | receive (body : Bytes)
  | giveUp (obj : Nat)
  | delContextMapByID (str_id : String)
  | timewheelKick
  | asyncCallback
  deriving DecidableEq, Repr

def step (p : CthriftTBinaryProtocol) (w : ClientWorker) :
    Act → Option (Except TException ClientWorker)
  | .sendTransportReq c => some (.ok (w.registerSync c))
  | .asyncSendReq c => some (.ok (w.registerAsync c))
  | .receive body => some ((w.handleThriftMsg p body).map Prod.fst)
  | .giveUp obj => some (.ok { w with expired := obj :: w.expired })
  | .delContextMapByID str_id => some (.ok (w.erase str_id))
  | .timewheelKick => some (.ok w.timewheelKick)
  | .asyncCallback =>
    match w.callbacks with
    | [] => none
    | _ :: later => some (.ok { w with callbacks := later })

def machine (p : CthriftTBinaryProtocol) : Machine ClientWorker Act TException where
  init := new
  step := step p

def Act.registers : Act → Option SharedContext
  | .sendTransportReq c => some c
  | .asyncSendReq c => some c
  | _ => none

/-- A frame with the id of the context, or the timeout of that id. -/
def Act.Removes (p : CthriftTBinaryProtocol) (c : SharedContext) : Act → Prop
  | .receive body => ∃ id : BitVec 32, p.getSeqID ⟨body⟩ = .ok id ∧ 0 < id.toInt ∧
      lexicalCast id.toInt = c.str_id
  | .delContextMapByID str_id => str_id = c.str_id
  | _ => False

def kicks (acts : List Act) : Nat := acts.count .timewheelKick

/-- Registered in the history, and since then neither answered nor timed out nor, if the
registration put it into the wheel, carried once around. -/
def Outstanding (p : CthriftTBinaryProtocol) (acts : List Act) (c : SharedContext) : Prop :=
  ∃ pre a post, acts = pre ++ a :: post ∧ a.registers = some c ∧
    (∀ b ∈ post, ¬ b.Removes p c) ∧ (a = .asyncSendReq c → kicks post < kI8TimeWheelNum)

/-- The requests of a history have pairwise distinct ids. -/
def DistinctIds (acts : List Act) : Prop :=
  (acts.filterMap Act.registers).Pairwise fun c d => c.str_id ≠ d.str_id

/-! ### Histories -/

variable {p : CthriftTBinaryProtocol} {h : List Act} {a b : Act} {c d : SharedContext}

theorem kicks_snoc_kick : kicks (h ++ [.timewheelKick]) = kicks h + 1 := by
  rw [kicks, List.count_append]
  rfl

theorem kicks_snoc_of_ne (hk : a ≠ .timewheelKick) : kicks (h ++ [a]) = kicks h := by
  rw [kicks, List.count_append]
  exact congrArg (_ + ·) (List.count_eq_zero_of_not_mem fun hm =>
    hk (List.mem_singleton.mp hm).symm)

theorem snoc_eq_append_cons {α : Type} {xs pre post : List α} {x y : α}
    (h : xs ++ [x] = pre ++ y :: post) :
    (pre = xs ∧ y = x ∧ post = []) ∨ ∃ post', post = post' ++ [x] ∧ xs = pre ++ y :: post' := by
  rcases List.eq_nil_or_concat post with rfl | ⟨post', z, rfl⟩
  · obtain ⟨hxs, hx⟩ := List.append_inj' h rfl
    cases hx
    exact .inl ⟨hxs.symm, rfl, rfl⟩
  · rw [List.concat_eq_append, ← List.cons_append, ← List.append_assoc] at h
    obtain ⟨hxs, hx⟩ := List.append_inj' h rfl
    cases hx
    exact .inr ⟨post', List.concat_eq_append, hxs⟩

theorem outstanding_snoc :
    Outstanding p (h ++ [a]) c ↔ a.registers = some c ∨
      (¬ a.Removes p c ∧ ∃ pre r post, h = pre ++ r :: post ∧ r.registers = some c ∧
        (∀ b ∈ post, ¬ b.Removes p c) ∧
        (r = .asyncSendReq c → kicks post + kicks [a] < kI8TimeWheelNum)) := by
  constructor
  · rintro ⟨pre, r, post, he, hr, hrem, hkick⟩
    rcases snoc_eq_append_cons he with ⟨-, rfl, -⟩ | ⟨post', rfl, hh⟩
    · exact .inl hr
    · refine .inr ⟨hrem a (List.mem_append_right _ (List.mem_singleton_self a)), pre, r, post', hh,
        hr, fun b hb => hrem b (List.mem_append_left _ hb), ?_⟩
      intro hra
      have hk := hkick hra
      rwa [kicks, List.count_append] at hk
  · rintro (hr | ⟨hrem, pre, r, post, rfl, hr, hall, hkick⟩)
    · refine ⟨h, a, [], rfl, hr, ?_, ?_⟩
      · intro b hb
        cases hb
      · intro _
        decide
    · refine ⟨pre, r, post ++ [a], List.append_assoc .., hr, ?_, ?_⟩
      · intro b hb
        rcases List.mem_append.mp hb with hb | hb
        · exact hall b hb
        · rw [List.mem_singleton.mp hb]
          exact hrem
      · intro hra
        rw [kicks, List.count_append]
        exact hkick hra

theorem outstanding_snoc_of_ne (hk : a ≠ .timewheelKick) :
    Outstanding p (h ++ [a]) c ↔
      a.registers = some c ∨ (Outstanding p h c ∧ ¬ a.Removes p c) := by
  have hzero : kicks [a] = 0 := List.count_eq_zero_of_not_mem fun hm =>
    hk (List.mem_singleton.mp hm).symm
  rw [outstanding_snoc, hzero]
  unfold Outstanding
  exact or_congr_right and_comm

theorem Outstanding.registered (ho : Outstanding p h c) : ∃ a ∈ h, a.registers = some c := by
  obtain ⟨pre, r, post, rfl, hr, -, -⟩ := ho
  exact ⟨r, List.mem_append_right _ List.mem_cons_self, hr⟩

theorem DistinctIds.left (hd : DistinctIds (h ++ [a])) : DistinctIds h := by
  unfold DistinctIds at hd ⊢
  rw [List.filterMap_append] at hd
  exact (List.pairwise_append.mp hd).1

/-- Under distinct ids a request is registered once. -/
theorem DistinctIds.unique (hd : DistinctIds h) {pre pre' post post' : List Act}
    (he : h = pre ++ a :: post) (he' : h = pre' ++ b :: post') (ha : a.registers = some c)
    (hb : b.registers = some d) (hid : c.str_id = d.str_id) : a = b ∧ post = post' ∧ c = d := by
  have hapart : ∀ (u v w : List Act) (x y : Act) (e f : SharedContext),
      h = u ++ x :: (v ++ y :: w) → x.registers = some e → y.registers = some f →
      e.str_id ≠ f.str_id := by
    intro u v w x y e f hh hx hy
    unfold DistinctIds at hd
    rw [hh, List.filterMap_append, List.filterMap_cons_some hx, List.filterMap_append,
      List.filterMap_cons_some hy] at hd
    have hrest := (List.pairwise_append.mp hd).2.1
    exact (List.pairwise_cons.mp hrest).1 f (List.mem_append_right _ List.mem_cons_self)
  rcases List.append_eq_append_iff.mp (he.symm.trans he') with ⟨t, hpre, ht⟩ | ⟨t, hpre, ht⟩
  · cases t with
    | nil =>
      cases ht
      exact ⟨rfl, rfl, Option.some.inj (ha.symm.trans hb)⟩
    | cons x t =>
      cases ht
      exact absurd hid (hapart pre t post' a b c d he ha hb)
  · cases t with
    | nil =>
      cases ht
      exact ⟨rfl, rfl, Option.some.inj (ha.symm.trans hb)⟩
    | cons x t =>
      cases ht
      exact absurd hid.symm (hapart pre' t post b a d c he' hb ha)

theorem DistinctIds.eq_of_registered (hd : DistinctIds h) (hc : ∃ a ∈ h, a.registers = some c)
    (hd' : ∃ a ∈ h, a.registers = some d) (hid : c.str_id = d.str_id) : c = d := by
  obtain ⟨a, ha, hac⟩ := hc
  obtain ⟨b, hb, hbd⟩ := hd'
  obtain ⟨pre, post, he⟩ := List.append_of_mem ha
  obtain ⟨pre', post', he'⟩ := List.append_of_mem hb
  exact (hd.unique he he' hac hbd hid).2.2

/-! ### The wheel -/

/-- The asynchronous requests after whose registration the wheel was kicked `n` times. -/
def aged : List Act → Nat → List SharedContext
  | [], _ => []
  | .asyncSendReq c :: later, n => (if kicks later = n then [c] else []) ++ aged later n
  | _ :: later, n => aged later n

theorem mem_aged {n : Nat} :
    c ∈ aged h n ↔ ∃ pre post, h = pre ++ .asyncSendReq c :: post ∧ kicks post = n := by
  induction h with
  | nil =>
    constructor
    · intro hm
      cases hm
    · rintro ⟨pre, post, he, -⟩
      exact absurd he.symm (List.append_ne_nil_of_right_ne_nil pre (List.cons_ne_nil _ _))
  | cons x later ih =>
    have hsplit : (∃ pre post, x :: later = pre ++ .asyncSendReq c :: post ∧ kicks post = n) ↔
        (x = .asyncSendReq c ∧ kicks later = n) ∨ c ∈ aged later n := by
      rw [ih]
      constructor
      · rintro ⟨pre, post, he, hk⟩
        cases pre with
        | nil =>
          cases he
          exact .inl ⟨rfl, hk⟩
        | cons y pre =>
          cases he
          exact .inr ⟨pre, post, rfl, hk⟩
      · rintro (⟨rfl, hk⟩ | ⟨pre, post, rfl, hk⟩)
        · exact ⟨[], later, rfl, hk⟩
        · exact ⟨x :: pre, post, rfl, hk⟩
    rw [hsplit]
    cases x with
    | asyncSendReq d =>
      rw [aged, List.mem_append]
      split
      next hk =>
        rw [List.mem_singleton]
        constructor
        · rintro (rfl | hm)
          · exact .inl ⟨rfl, hk⟩
          · exact .inr hm
        · rintro (⟨hx, -⟩ | hm)
          · cases hx
            exact .inl rfl
          · exact .inr hm
      next hk =>
        constructor
        · rintro (hm | hm)
          · cases hm
          · exact .inr hm
        · rintro (⟨-, hk'⟩ | hm)
          · exact absurd hk' hk
          · exact .inr hm
    | _ => simp [aged]

theorem aged_snoc_kick (n : Nat) : aged (h ++ [.timewheelKick]) (n + 1) = aged h n := by
  induction h with
  | nil => rfl
  | cons x later ih =>
    cases x with
    | asyncSendReq d =>
      simp only [List.cons_append, aged, ih, kicks_snoc_kick, Nat.add_right_cancel_iff]
    | _ => exact ih

theorem aged_snoc_kick_zero : aged (h ++ [.timewheelKick]) 0 = [] := by
  induction h with
  | nil => rfl
  | cons x later ih =>
    cases x with
    | asyncSendReq d =>
      rw [List.cons_append, aged, ih, kicks_snoc_kick, if_neg (Nat.succ_ne_zero _)]
      rfl
    | _ => exact ih

theorem aged_snoc_async (n : Nat) :
    aged (h ++ [.asyncSendReq c]) n = aged h n ++ if n = 0 then [c] else [] := by
  induction h with
  | nil =>
    cases n with
    | zero => rfl
    | succ n => rfl
  | cons x later ih =>
    have hk : kicks (later ++ [.asyncSendReq c]) = kicks later := kicks_snoc_of_ne (by simp)
    cases x with
    | asyncSendReq d => simp only [List.cons_append, aged, ih, hk, List.append_assoc]
    | _ => exact ih

theorem aged_snoc_of_ne (n : Nat) (hk : a ≠ .timewheelKick) (ha : ∀ c, a ≠ .asyncSendReq c) :
    aged (h ++ [a]) n = aged h n := by
  induction h with
  | nil =>
    cases a with
    | asyncSendReq c => exact absurd rfl (ha c)
    | _ => rfl
  | cons x later ih =>
    cases x with
    | asyncSendReq d => simp only [List.cons_append, aged, ih, kicks_snoc_of_ne hk]
    | _ => exact ih

/-! ### The invariant -/

theorem DistinctIds.fresh (hd : DistinctIds (h ++ [a])) (ha : a.registers = some c)
    (hreg : ∃ b ∈ h, b.registers = some d) : d.str_id ≠ c.str_id := by
  obtain ⟨b, hb, hbd⟩ := hreg
  unfold DistinctIds at hd
  rw [List.filterMap_append, List.filterMap_cons_some ha] at hd
  exact (List.pairwise_append.mp hd).2.2 d (List.mem_filterMap.mpr ⟨b, hb, hbd⟩) c
    List.mem_cons_self

theorem not_outstanding_snoc (hd : DistinctIds (h ++ [a]))
    (hreg : ∃ b ∈ h, b.registers = some c) (hno : ¬ Outstanding p h c) :
    ¬ Outstanding p (h ++ [a]) c := by
  intro ho
  rcases outstanding_snoc.mp ho with ha | ⟨-, pre, r, post, he, hr, hall, hk⟩
  · exact hd.fresh ha hreg rfl
  · exact hno ⟨pre, r, post, he, hr, hall,
      fun hra => Nat.lt_of_le_of_lt (Nat.le_add_right _ _) (hk hra)⟩

theorem lookup_erase (m : AList fun _ : String => SharedContext) (s t : String) :
    (m.erase s).lookup t = if t = s then none else m.lookup t := by
  by_cases hts : t = s
  · rw [if_pos hts, hts, AList.lookup_erase]
  · rw [if_neg hts, AList.lookup_erase_ne hts]

theorem lookup_insert (m : AList fun _ : String => SharedContext) (s t : String)
    (c : SharedContext) : (m.insert s c).lookup t = if t = s then some c else m.lookup t := by
  by_cases hts : t = s
  · rw [if_pos hts, hts, AList.lookup_insert]
  · rw [if_neg hts, AList.lookup_insert_ne hts]

/- The completed requests of a history. -/
structure Completed (p : CthriftTBinaryProtocol) (h : List Act) (ks : List Completion) : Prop where
  done : ∀ k ∈ ks, (∃ a ∈ h, a.registers = some k.context) ∧ ¬ Outstanding p h k.context
  own : ∀ k ∈ ks, p.getSeqID ⟨k.body⟩ = .ok k.seqid ∧ 0 < k.seqid.toInt ∧
    lexicalCast k.seqid.toInt = k.context.str_id ∧ .receive k.body ∈ h
  once : (ks.map Completion.context).Nodup

theorem Completed.snoc {ks : List Completion} (hc : Completed p h ks)
    (hd : DistinctIds (h ++ [a])) : Completed p (h ++ [a]) ks where
  done k hk := by
    obtain ⟨hreg, hno⟩ := hc.done k hk
    refine ⟨?_, not_outstanding_snoc hd hreg hno⟩
    obtain ⟨b, hb, hbc⟩ := hreg
    exact ⟨b, List.mem_append_left _ hb, hbc⟩
  own k hk := by
    obtain ⟨hseq, hpos, hid, hm⟩ := hc.own k hk
    exact ⟨hseq, hpos, hid, List.mem_append_left _ hm⟩
  once := hc.once

structure Inv (p : CthriftTBinaryProtocol) (h : List Act) (w : ClientWorker) : Prop where
  key : ∀ {s c}, w.map_id_sharedcontextsp.lookup s = some c → c.str_id = s
  map : ∀ c, w.map_id_sharedcontextsp.lookup c.str_id = some c ↔ Outstanding p h c
  wheel : w.cnxt_entry_circul_buf = [aged h 4, aged h 3, aged h 2, aged h 1, aged h 0]
  completed : Completed p h w.completed

variable {w v : ClientWorker}

theorem inv_new (p : CthriftTBinaryProtocol) : Inv p [] new where
  key hl := by
    rw [new, AList.lookup_empty] at hl
    cases hl
  map c := by
    constructor
    · intro hl
      rw [new, AList.lookup_empty] at hl
      cases hl
    · rintro ⟨pre, a, post, he, -⟩
      exact absurd he.symm (List.append_ne_nil_of_right_ne_nil pre (List.cons_ne_nil _ _))
  wheel := rfl
  completed := {
    done := fun k hk => by cases hk
    own := fun k hk => by cases hk
    once := List.nodup_nil }

namespace Inv

theorem idle (hi : Inv p h w) (hd : DistinctIds (h ++ [a])) (hr : a.registers = none)
    (hrem : ∀ c, Outstanding p h c → ¬ a.Removes p c) (hk : a ≠ .timewheelKick)
    (hmap : v.map_id_sharedcontextsp = w.map_id_sharedcontextsp)
    (hbuf : v.cnxt_entry_circul_buf = w.cnxt_entry_circul_buf)
    (hdone : v.completed = w.completed) : Inv p (h ++ [a]) v where
  key hl := hi.key (hmap ▸ hl)
  map c := by
    rw [hmap, hi.map, outstanding_snoc_of_ne hk, hr]
    constructor
    · intro ho
      exact .inr ⟨ho, hrem c ho⟩
    · rintro (hn | ⟨ho, -⟩)
      · cases hn
      · exact ho
  wheel := by
    have ha : ∀ c, a ≠ .asyncSendReq c := by
      rintro c rfl
      cases hr
    rw [hbuf, hi.wheel]
    simp only [aged_snoc_of_ne _ hk ha]
  completed := hdone ▸ hi.completed.snoc hd

theorem map_register (hi : Inv p h w) (hd : DistinctIds (h ++ [a])) (hr : a.registers = some c)
    (hrem : ∀ e, ¬ a.Removes p e) (hk : a ≠ .timewheelKick) (d : SharedContext) :
    (w.registerSync c).map_id_sharedcontextsp.lookup d.str_id = some d ↔
      Outstanding p (h ++ [a]) d := by
  have hnew : (w.registerSync c).map_id_sharedcontextsp.lookup d.str_id =
      if d.str_id = c.str_id then some c else w.map_id_sharedcontextsp.lookup d.str_id :=
    lookup_insert ..
  rw [hnew, outstanding_snoc_of_ne hk, hr]
  split
  next hid =>
    constructor
    · intro he
      exact .inl he
    · rintro (he | ⟨ho, -⟩)
      · exact he
      · exact absurd hid (hd.fresh hr ho.registered)
  next hid =>
    rw [hi.map]
    constructor
    · intro ho
      exact .inr ⟨ho, hrem d⟩
    · rintro (he | ⟨ho, -⟩)
      · cases he
        exact absurd rfl hid
      · exact ho

theorem key_register (hi : Inv p h w) {s : String} {d : SharedContext}
    (hl : (w.registerSync c).map_id_sharedcontextsp.lookup s = some d) : d.str_id = s := by
  have hnew : (w.registerSync c).map_id_sharedcontextsp.lookup s =
      if s = c.str_id then some c else w.map_id_sharedcontextsp.lookup s := lookup_insert ..
  rw [hnew] at hl
  split at hl
  next hs =>
    cases hl
    exact hs.symm
  · exact hi.key hl

theorem sendTransportReq (hi : Inv p h w) (hd : DistinctIds (h ++ [.sendTransportReq c])) :
    Inv p (h ++ [.sendTransportReq c]) (w.registerSync c) where
  key := hi.key_register
  map := hi.map_register hd rfl (fun _ => id) (by simp)
  wheel := by
    rw [show (w.registerSync c).cnxt_entry_circul_buf = w.cnxt_entry_circul_buf from rfl, hi.wheel]
    simp only [aged_snoc_of_ne _ (show Act.sendTransportReq c ≠ .timewheelKick by simp) (by simp)]
  completed := hi.completed.snoc hd

theorem asyncSendReq (hi : Inv p h w) (hd : DistinctIds (h ++ [.asyncSendReq c])) :
    Inv p (h ++ [.asyncSendReq c]) (w.registerAsync c) where
  key := hi.key_register
  map := hi.map_register hd rfl (fun _ => id) (by simp)
  wheel := by
    rw [show (w.registerAsync c).cnxt_entry_circul_buf =
      insertBack c w.cnxt_entry_circul_buf from rfl, hi.wheel]
    simp [insertBack, aged_snoc_async]
  completed := hi.completed.snoc hd

theorem map_erase (hi : Inv p h w) {s : String} (hr : a.registers = none)
    (hk : a ≠ .timewheelKick) (hrem : ∀ e, Outstanding p h e → (a.Removes p e ↔ e.str_id = s))
    (d : SharedContext) :
    (w.map_id_sharedcontextsp.erase s).lookup d.str_id = some d ↔
      Outstanding p (h ++ [a]) d := by
  rw [lookup_erase, outstanding_snoc_of_ne hk, hr]
  split
  next hid =>
    constructor
    · intro he
      cases he
    · rintro (he | ⟨ho, hno⟩)
      · cases he
      · exact absurd ((hrem d ho).mpr hid) hno
  next hid =>
    rw [hi.map]
    constructor
    · intro ho
      exact .inr ⟨ho, fun hr => hid ((hrem d ho).mp hr)⟩
    · rintro (he | ⟨ho, -⟩)
      · cases he
      · exact ho

theorem key_erase (hi : Inv p h w) {s t : String} {d : SharedContext}
    (hl : (w.map_id_sharedcontextsp.erase s).lookup t = some d) : d.str_id = t := by
  rw [lookup_erase] at hl
  split at hl
  · cases hl
  · exact hi.key hl

theorem delContextMapByID (hi : Inv p h w) {s : String}
    (hd : DistinctIds (h ++ [.delContextMapByID s])) :
    Inv p (h ++ [.delContextMapByID s]) (w.erase s) where
  key := hi.key_erase
  map := hi.map_erase rfl (by simp) fun e _ => eq_comm
  wheel := by
    rw [show (w.erase s).cnxt_entry_circul_buf = w.cnxt_entry_circul_buf from rfl, hi.wheel]
    simp only [aged_snoc_of_ne _ (show Act.delContextMapByID s ≠ .timewheelKick by simp) (by simp)]
  completed := hi.completed.snoc hd

end Inv

/-! ### Frames -/

theorem handleThriftMsg_cases {body : Bytes} {shutdown : Bool}
    (hm : w.handleThriftMsg p body = .ok (v, shutdown)) :
    ∃ id, p.getSeqID ⟨body⟩ = .ok id ∧
      ((id.toInt ≤ 0 ∧ v = w ∧ shutdown = true) ∨
        (0 < id.toInt ∧ shutdown = false ∧
          ((w.map_id_sharedcontextsp.lookup (lexicalCast id.toInt) = none ∧ v = w) ∨
            ∃ c, w.map_id_sharedcontextsp.lookup (lexicalCast id.toInt) = some c ∧
              v = (w.respond c id body).erase c.str_id))) := by
  obtain ⟨id, hid, hrest⟩ := bind_eq_ok hm
  refine ⟨id, hid, ?_⟩
  split at hrest
  next hneg =>
    cases hrest
    exact .inl ⟨hneg, rfl, rfl⟩
  next hpos =>
    refine .inr ⟨Int.not_le.mp hpos, ?_⟩
    split at hrest
    next hl =>
      cases hrest
      exact ⟨rfl, .inl ⟨hl, rfl⟩⟩
    next c hl =>
      cases hrest
      exact ⟨rfl, .inr ⟨c, hl, rfl⟩⟩

theorem handleThriftMsg_unknown {body : Bytes} {id : BitVec 32} (hid : p.getSeqID ⟨body⟩ = .ok id)
    (hpos : 0 < id.toInt)
    (hl : w.map_id_sharedcontextsp.lookup (lexicalCast id.toInt) = none) :
    w.handleThriftMsg p body = .ok (w, false) := by
  simp only [handleThriftMsg, TMemoryBuffer.resetBuffer, hid, ok_bind,
    if_neg (Int.not_le.mpr hpos), hl]
  rfl

theorem respond_map (w : ClientWorker) (c : SharedContext) (id : BitVec 32) (body : Bytes) :
    (w.respond c id body).map_id_sharedcontextsp = w.map_id_sharedcontextsp := by
  unfold respond
  split
  · rfl
  · split
    · rfl
    · rfl

theorem respond_wheel (w : ClientWorker) (c : SharedContext) (id : BitVec 32) (body : Bytes) :
    (w.respond c id body).cnxt_entry_circul_buf = w.cnxt_entry_circul_buf := by
  unfold respond
  split
  · rfl
  · split
    · rfl
    · rfl

theorem respond_completed (w : ClientWorker) (c : SharedContext) (id : BitVec 32) (body : Bytes) :
    (w.respond c id body).completed = w.completed ∨
      (w.respond c id body).completed = w.completed ++ [⟨c, id, body⟩] := by
  unfold respond
  split
  · exact .inr rfl
  · split
    · exact .inl rfl
    · exact .inr rfl

theorem Completed.respond {ks : List Completion} {id : BitVec 32} {body : Bytes}
    (hc : Completed p h ks) (hd : DistinctIds (h ++ [.receive body])) (ho : Outstanding p h c)
    (hid : p.getSeqID ⟨body⟩ = .ok id) (hpos : 0 < id.toInt)
    (hown : lexicalCast id.toInt = c.str_id) :
    Completed p (h ++ [.receive body]) (ks ++ [⟨c, id, body⟩]) := by
  have hold := hc.snoc hd
  have hgone : ¬ Outstanding p (h ++ [.receive body]) c := by
    rw [outstanding_snoc_of_ne (by simp)]
    rintro (hr | ⟨-, hno⟩)
    · cases hr
    · exact hno ⟨id, hid, hpos, hown⟩
  refine ⟨?_, ?_, ?_⟩
  · intro k hk
    rcases List.mem_append.mp hk with hk | hk
    · exact hold.done k hk
    · rw [List.mem_singleton.mp hk]
      obtain ⟨b, hb, hbc⟩ := ho.registered
      exact ⟨⟨b, List.mem_append_left _ hb, hbc⟩, hgone⟩
  · intro k hk
    rcases List.mem_append.mp hk with hk | hk
    · exact hold.own k hk
    · rw [List.mem_singleton.mp hk]
      exact ⟨hid, hpos, hown, List.mem_append_right _ List.mem_cons_self⟩
  · rw [List.map_append, List.nodup_append]
    refine ⟨hc.once, List.nodup_singleton _, ?_⟩
    intro x hx y hy hxy
    obtain ⟨k, hk, rfl⟩ := List.mem_map.mp hx
    rw [List.mem_singleton.mp hy] at hxy
    exact (hc.done k hk).2 (hxy ▸ ho)

namespace Inv

theorem receive (hi : Inv p h w) {body : Bytes} {shutdown : Bool}
    (hd : DistinctIds (h ++ [.receive body]))
    (hm : w.handleThriftMsg p body = .ok (v, shutdown)) : Inv p (h ++ [.receive body]) v := by
  obtain ⟨id, hid, ⟨hneg, rfl, -⟩ | ⟨hpos, -, ⟨hl, rfl⟩ | ⟨c, hl, rfl⟩⟩⟩ :=
    handleThriftMsg_cases hm
  · refine hi.idle hd rfl ?_ (by simp) rfl rfl rfl
    rintro c - ⟨id', hid', hpos, -⟩
    cases hid.symm.trans hid'
    omega
  · refine hi.idle hd rfl ?_ (by simp) rfl rfl rfl
    rintro c ho ⟨id', hid', -, hown⟩
    cases hid.symm.trans hid'
    rw [hown, (hi.map c).mpr ho] at hl
    cases hl
  · have hown : c.str_id = lexicalCast id.toInt := hi.key hl
    have ho : Outstanding p h c := by
      rw [← hi.map, hown]
      exact hl
    refine ⟨?_, ?_, ?_, ?_⟩
    · intro s d hs
      rw [erase, respond_map] at hs
      exact hi.key_erase hs
    · intro d
      rw [erase, respond_map]
      refine hi.map_erase rfl (by simp) ?_ d
      intro e _
      constructor
      · rintro ⟨id', hid', -, hown'⟩
        cases hid.symm.trans hid'
        rw [← hown', hown]
      · intro he
        exact ⟨id, hid, hpos, by rw [← hown, he]⟩
    · rw [erase, respond_wheel, hi.wheel]
      simp only [aged_snoc_of_ne _ (show Act.receive body ≠ .timewheelKick by simp) (by simp)]
    · rw [erase]
      rcases respond_completed w c id body with hc | hc
      · rw [hc]
        exact hi.completed.snoc hd
      · rw [hc]
        exact hi.completed.respond hd ho hid hpos hown.symm

end Inv

/-! ### Kicks of the wheel -/

theorem holds_of_lookup {s : String} (hl : w.map_id_sharedcontextsp.lookup s = some c) :
    w.holds c = true := by
  have hm := AList.mem_lookup_iff.mp hl
  have hmem : c ∈ w.map_id_sharedcontextsp.entries.map Sigma.snd := List.mem_map.mpr ⟨_, hm, rfl⟩
  rw [holds, decide_eq_true hmem, Bool.true_or]

theorem destroyCnxtEntry_spec (w : ClientWorker) (c : SharedContext)
    (hown : ∀ d, w.map_id_sharedcontextsp.lookup c.str_id = some d → d = c) :
    ∃ m, w.destroyCnxtEntry c = { w with map_id_sharedcontextsp := m } ∧
      ∀ s, m.lookup s = if s = c.str_id then none else w.map_id_sharedcontextsp.lookup s := by
  unfold destroyCnxtEntry
  split
  · exact ⟨_, rfl, fun s => lookup_erase ..⟩
  next hh =>
    refine ⟨_, rfl, ?_⟩
    intro s
    split
    next hs =>
      rw [hs]
      cases hl : w.map_id_sharedcontextsp.lookup c.str_id with
      | none => rfl
      | some d =>
        cases hown d hl
        exact absurd (holds_of_lookup hl) hh
    · rfl

theorem destroyAll_spec (cs : List SharedContext) (w : ClientWorker)
    (hown : ∀ c ∈ cs, ∀ d, w.map_id_sharedcontextsp.lookup c.str_id = some d → d = c) :
    ∃ m, cs.foldl destroyCnxtEntry w = { w with map_id_sharedcontextsp := m } ∧
      ∀ s, m.lookup s = if s ∈ cs.map SharedContext.str_id then none
        else w.map_id_sharedcontextsp.lookup s := by
  induction cs generalizing w with
  | nil => exact ⟨_, rfl, fun s => rfl⟩
  | cons c cs ih =>
    obtain ⟨m, hw, hm⟩ := destroyCnxtEntry_spec w c (hown c List.mem_cons_self)
    obtain ⟨m', hw', hm'⟩ := ih { w with map_id_sharedcontextsp := m } (by
      intro e he d hl
      simp only [hm] at hl
      split at hl
      · cases hl
      · exact hown e (List.mem_cons_of_mem _ he) d hl)
    refine ⟨m', ?_, ?_⟩
    · rw [List.foldl_cons, hw, hw']
    · intro s
      simp only [hm', hm, List.map_cons, List.mem_cons]
      by_cases hs : s = c.str_id
      · simp only [hs, true_or, if_true]
        split
        · rfl
        · rfl
      · simp only [hs, false_or, if_false]

theorem aged_registered {n : Nat} (hm : c ∈ aged h n) : ∃ a ∈ h, a.registers = some c := by
  obtain ⟨pre, post, rfl, -⟩ := mem_aged.mp hm
  exact ⟨_, List.mem_append_right _ List.mem_cons_self, rfl⟩

theorem outstanding_snoc_kick (hd : DistinctIds h) :
    Outstanding p (h ++ [.timewheelKick]) c ↔
      Outstanding p h c ∧ c.str_id ∉ (aged h 4).map SharedContext.str_id := by
  have hone : kicks [.timewheelKick] = 1 := rfl
  rw [outstanding_snoc, hone]
  constructor
  · rintro (hr | ⟨-, pre, r, post, he, hr, hall, hk⟩)
    · cases hr
    · refine ⟨⟨pre, r, post, he, hr, hall, fun hra => Nat.lt_of_succ_lt (hk hra)⟩, ?_⟩
      intro hm
      obtain ⟨d, hdm, hid⟩ := List.mem_map.mp hm
      obtain ⟨pre', post', he', hk'⟩ := mem_aged.mp hdm
      obtain ⟨rfl, rfl, rfl⟩ := hd.unique he he' hr rfl hid.symm
      have h5 := hk rfl
      rw [hk'] at h5
      exact absurd h5 (by decide)
  · rintro ⟨⟨pre, r, post, he, hr, hall, hk⟩, hno⟩
    refine .inr ⟨id, pre, r, post, he, hr, hall, ?_⟩
    rintro rfl
    have h5 := hk rfl
    have h4 : kicks post ≠ 4 := by
      intro h4
      exact hno (List.mem_map_of_mem (mem_aged.mpr ⟨pre, post, he, h4⟩))
    unfold kI8TimeWheelNum at h5 ⊢
    omega

namespace Inv

theorem timewheelKick (hi : Inv p h w) (hd : DistinctIds (h ++ [.timewheelKick])) :
    Inv p (h ++ [.timewheelKick]) w.timewheelKick := by
  have hown : ∀ c ∈ aged h 4, ∀ d,
      w.map_id_sharedcontextsp.lookup c.str_id = some d → d = c := by
    intro c hc d hl
    have hid : d.str_id = c.str_id := hi.key hl
    have ho : Outstanding p h d := by
      rw [← hi.map, hid]
      exact hl
    exact hd.left.eq_of_registered ho.registered (aged_registered hc) hid
  obtain ⟨m, hw, hm⟩ := destroyAll_spec (aged h 4)
    { w with cnxt_entry_circul_buf := [aged h 3, aged h 2, aged h 1, aged h 0, []] } hown
  have hkick : w.timewheelKick = { w with
      map_id_sharedcontextsp := m
      cnxt_entry_circul_buf := [aged h 3, aged h 2, aged h 1, aged h 0, []] } := by
    rw [ClientWorker.timewheelKick, hi.wheel]
    exact hw
  rw [hkick]
  refine ⟨?_, ?_, ?_, hi.completed.snoc hd⟩
  · intro s c hl
    simp only [hm] at hl
    split at hl
    · cases hl
    · exact hi.key hl
  · intro c
    simp only [hm]
    rw [outstanding_snoc_kick hd.left, ← hi.map]
    split
    next hmem => exact iff_of_false (fun he => by cases he) (fun hand => hand.2 hmem)
    next hmem => exact (and_iff_left hmem).symm
  · simp only [aged_snoc_kick, aged_snoc_kick_zero]

theorem step (hi : Inv p h w) (hd : DistinctIds (h ++ [a]))
    (hs : ClientWorker.step p w a = some (.ok v)) : Inv p (h ++ [a]) v := by
  cases a with
  | sendTransportReq c =>
    cases hs
    exact hi.sendTransportReq hd
  | asyncSendReq c =>
    cases hs
    exact hi.asyncSendReq hd
  | receive body =>
    have hmap : (w.handleThriftMsg p body).map Prod.fst = .ok v := Option.some.inj hs
    cases hm : w.handleThriftMsg p body with
    | error e =>
      rw [hm] at hmap
      cases hmap
    | ok r =>
      rw [hm] at hmap
      cases hmap
      exact hi.receive hd hm
  | giveUp obj =>
    cases hs
    exact hi.idle hd rfl (fun _ _ => id) (by simp) rfl rfl rfl
  | delContextMapByID s =>
    cases hs
    exact hi.delContextMapByID hd
  | timewheelKick =>
    cases hs
    exact hi.timewheelKick hd
  | asyncCallback =>
    simp only [ClientWorker.step] at hs
    split at hs
    · cases hs
    · cases hs
      exact hi.idle hd rfl (fun _ _ => id) (by simp) rfl rfl rfl

end Inv

theorem run_inv {acts : List Act} (hd : DistinctIds acts)
    (hr : (machine p).run new acts = some (.ok w)) : Inv p acts w := by
  induction acts using List.reverseRecOn generalizing w with
  | nil =>
    cases hr
    exact inv_new p
  | append_singleton acts a ih =>
    obtain ⟨u, hu, hs⟩ := Machine.run_append_ok hr
    exact (ih hd.left hu).step hd (Machine.run_singleton_ok hs)

/-- In every history of requests with distinct ids, responses, timeouts and kicks, a request
is completed at most once and by a frame with its own id; a frame with another id changes
nothing; and the map holds exactly the requests that are outstanding. -/
theorem response_matching (p : CthriftTBinaryProtocol) (acts : List Act) (hd : DistinctIds acts)
    (w : ClientWorker) (hr : (machine p).run (machine p).init acts = some (.ok w)) :
    (w.completed.map Completion.context).Nodup ∧
    (∀ k ∈ w.completed, .receive k.body ∈ acts ∧ p.getSeqID ⟨k.body⟩ = .ok k.seqid ∧
      ∀ n : Int, 0 < n → k.context.str_id = lexicalCast n → k.seqid.toInt = n) ∧
    (∀ body id, p.getSeqID ⟨body⟩ = .ok id → 0 < id.toInt →
      lexicalCast id.toInt ∉ w.map_id_sharedcontextsp →
      (machine p).step w (.receive body) = some (.ok w)) ∧
    ∀ s c, w.map_id_sharedcontextsp.lookup s = some c ↔
      c.str_id = s ∧ Outstanding p acts c := by
  have hi := run_inv hd hr
  refine ⟨hi.completed.once, ?_, ?_, ?_⟩
  · intro k hk
    obtain ⟨hseq, hpos, hown, hm⟩ := hi.completed.own k hk
    refine ⟨hm, hseq, ?_⟩
    intro n hn he
    exact lexicalCast_inj hpos hn (hown.trans he)
  · intro body id hid hpos hno
    have hu := handleThriftMsg_unknown hid hpos (AList.lookup_eq_none.mpr hno)
    simp only [machine, ClientWorker.step, hu]
    rfl
  · intro s c
    constructor
    · intro hl
      have hs := hi.key hl
      refine ⟨hs, ?_⟩
      rw [← hi.map, hs]
      exact hl
    · rintro ⟨rfl, ho⟩
      exact (hi.map c).mpr ho

def sampleFrame (id : BitVec 32) : Bytes :=
  (CthriftTBinaryProtocol.new.writeMessageBegin [101, 99, 104, 111] 2 id).flatten

def sampleActs : List Act :=
  [.sendTransportReq ⟨0, "7", false⟩, .asyncSendReq ⟨1, "8", true⟩, .receive (sampleFrame 8),
    .timewheelKick, .receive (sampleFrame 8), .asyncCallback, .giveUp 0,
    .delContextMapByID "7", .receive (sampleFrame 7)]

theorem response_matching_sample :
    ∃ w, (machine .new).run (machine .new).init sampleActs = some (.ok w) ∧
      w.completed = [⟨⟨1, "8", true⟩, 8, sampleFrame 8⟩] ∧
      (w.completed.map Completion.context).Nodup ∧
      ∀ c, ¬ Outstanding .new sampleActs c := by
  have hrun : (machine .new).runsTo (machine .new).init sampleActs (fun w =>
      decide (w.completed = [⟨⟨1, "8", true⟩, 8, sampleFrame 8⟩] ∧
        w.map_id_sharedcontextsp.entries = [])) = true := by
    decide +kernel
  obtain ⟨w, hw, hend⟩ := Machine.exists_of_runsTo hrun
  obtain ⟨hdone, hempty⟩ := of_decide_eq_true hend
  have hmap : w.map_id_sharedcontextsp = ∅ := AList.ext hempty
  obtain ⟨honce, -, -, hout⟩ := response_matching .new sampleActs
    (by unfold DistinctIds; decide +kernel) w hw
  refine ⟨w, hw, hdone, honce, ?_⟩
  intro c ho
  have hl := (hout c.str_id c).mpr ⟨rfl, ho⟩
  rw [hmap, AList.lookup_empty] at hl
  cases hl

end ClientWorker

end TstMuduo.Cthrift
