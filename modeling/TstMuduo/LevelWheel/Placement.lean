import TstMuduo.LevelWheel.TimeWheel
import TstMuduo.Lib.Slots

/-!
# Where the timers of the wheel wait (examples/tsttimewheel/timewheel.cpp)

A position of the wheel is a time in the round of the minutes. Seen from the current time, a
later time has one list; the list that comes up in a step is that of the next time.
-/

namespace TstMuduo.LevelWheel
open TstMuduo.Lib

/-! ### Positions as times -/

def posOf (stepMs f : Int) : TimePos := ⟨f % 1000 / stepMs, f % 60000 / 1000, f / 60000⟩

def Config.round (c : Config) : Int := 60000 * c.maxMin

theorem Config.step_mul (c : Config) : c.stepMs * (1000 / c.stepMs) = 1000 :=
  Int.mul_ediv_cancel' c.dvd

theorem Config.low_pos (c : Config) : 0 < 1000 / c.stepMs := by
  have hmul := c.step_mul
  by_contra hle
  have hnonpos := Int.mul_nonpos_of_nonneg_of_nonpos (Int.le_of_lt c.pos) (Int.not_lt.mp hle)
  omega

theorem arith_ok {x : Int} (h : -2147483648 ≤ x ∧ x ≤ 2147483647) : arith x = .ok x := by
  simp only [arith, int32_ok h]

variable {c : Config}

theorem dvd_emod_1000 {f : Int} (h : c.stepMs ∣ f) : c.stepMs ∣ f % 1000 := by
  rw [Int.emod_def]
  exact Int.dvd_sub h (Int.dvd_trans c.dvd (Int.dvd_mul_right _ _))

theorem step_mul_div {f : Int} (h : c.stepMs ∣ f) : c.stepMs * (f % 1000 / c.stepMs) = f % 1000 :=
  Int.mul_ediv_cancel' (dvd_emod_1000 h)

theorem msPos_bounds (c : Config) (f : Int) :
    0 ≤ f % 1000 / c.stepMs ∧ f % 1000 / c.stepMs < 1000 / c.stepMs := by
  refine ⟨Int.ediv_nonneg (by omega) (Int.le_of_lt c.pos), ?_⟩
  refine Int.ediv_lt_of_lt_mul c.pos ?_
  rw [Int.mul_comm, c.step_mul]
  omega

theorem msPos_inj {f g : Int} (hf : c.stepMs ∣ f) (hg : c.stepMs ∣ g)
    (h : f % 1000 / c.stepMs = g % 1000 / c.stepMs) : f % 1000 = g % 1000 := by
  rw [← step_mul_div hf, ← step_mul_div hg, h]

theorem step_le_of_lt {f g : Int} (hf : c.stepMs ∣ f) (hg : c.stepMs ∣ g) (h : f < g) :
    f + c.stepMs ≤ g := by
  have hle := Int.le_of_dvd (by omega) (Int.dvd_sub hg hf)
  omega

/-- The wheel with the counts of the configuration, at the time `cur` of the round. -/
structure Config.At (c : Config) (w : TimeWheel) (cur : Int) : Prop where
  step : w.stepMs = c.stepMs
  low : w.lowCount = 1000 / c.stepMs
  mid : w.midCount = 60
  high : w.highCount = c.maxMin
  pos : w.timePos = posOf c.stepMs cur
  nonneg : 0 ≤ cur
  lt : cur < c.round
  dvd : c.stepMs ∣ cur
  int : cur ≤ 2147483647

theorem Config.wheel_at (c : Config) : c.At c.wheel 0 where
  step := rfl
  low := Int.tdiv_eq_ediv_of_nonneg (by decide)
  mid := rfl
  high := rfl
  pos := by
    simp only [wheel, posOf, Int.zero_emod, Int.zero_ediv]
  nonneg := Int.le_refl 0
  lt := by
    have hmin := c.minutes
    unfold round
    omega
  dvd := Int.dvd_zero _
  int := by decide

theorem Config.initTimerWheel_eq (c : Config) :
    TimeWheel.initTimerWheel c.stepMs c.maxMin = some c.wheel := by
  unfold TimeWheel.initTimerWheel
  rw [if_neg (by rw [Int.tmod_eq_zero_of_dvd c.dvd]; decide)]
  rfl

variable {w : TimeWheel} {cur : Int}

theorem getMS_posOf (hstep : w.stepMs = c.stepMs) {f : Int} (h : c.stepMs ∣ f) :
    w.getMS (posOf c.stepMs f) = f := by
  unfold TimeWheel.getMS posOf
  rw [hstep]
  simp only [step_mul_div h]
  omega

theorem Config.At.getMS (h : c.At w cur) : w.getMS w.timePos = cur := by
  rw [h.pos]
  exact getMS_posOf h.step h.dvd

theorem Config.At.nCount (h : c.At w cur) : w.nCount = 1000 / c.stepMs + 60 + c.maxMin := by
  unfold TimeWheel.nCount
  rw [h.low, h.mid, h.high]

theorem Config.At.getNextTrigerPos (h : c.At w cur) {d g : Int} (hg : 0 ≤ g ∧ g < c.round)
    (hd : cur + d = g ∨ cur + d = g + c.round) (hint : cur + d ≤ 2147483647) :
    w.getNextTrigerPos d = .ok (posOf c.stepMs g) := by
  have hcur := h.nonneg
  have hmin := c.minutes
  have hround : c.round = 60000 * c.maxMin := rfl
  have hf : 0 ≤ cur + d := by omega
  generalize hfuture : cur + d = f at hd hint hf
  have hms : f % 1000 = g % 1000 := by omega
  have hs : f % 60000 / 1000 = g % 60000 / 1000 := by omega
  have hminute : f / 1000 / 60 % c.maxMin = g / 60000 := by
    rcases hd with hd | hd
    · rw [Int.emod_eq_of_lt (by omega) (by omega)]
      omega
    · have hshift : f / 1000 / 60 = g / 60000 + c.maxMin := by omega
      rw [hshift, Int.add_emod_right, Int.emod_eq_of_lt (by omega) (by omega)]
  have h1 : ((f.tdiv 1000).tdiv 60).tmod c.maxMin = g / 60000 := by
    rw [Int.tdiv_eq_ediv_of_nonneg hf, Int.tdiv_eq_ediv_of_nonneg (by omega),
      Int.tmod_eq_emod_of_nonneg (by omega), hminute]
  have h2 : (f.tmod (1000 * 60)).tdiv 1000 = g % 60000 / 1000 := by
    rw [Int.tmod_eq_emod_of_nonneg hf, Int.tdiv_eq_ediv_of_nonneg (by omega)]
    exact hs
  have h3 : (f.tmod 1000).tdiv c.stepMs = g % 1000 / c.stepMs := by
    rw [Int.tmod_eq_emod_of_nonneg hf, Int.tdiv_eq_ediv_of_nonneg (by omega), hms]
  unfold TimeWheel.getNextTrigerPos
  rw [h.getMS, arith_ok ⟨by omega, h.int⟩, ok_bind, hfuture, arith_ok ⟨by omega, hint⟩, ok_bind,
    h.high, h.step, h1, h2, h3]
  rfl

/-! ### The list of a time -/

def Config.slot (c : Config) (cur g : Int) : Int :=
  if g / 60000 ≠ cur / 60000 then 1000 / c.stepMs + 60 + g / 60000
  else if g % 60000 / 1000 ≠ cur % 60000 / 1000 then 1000 / c.stepMs + g % 60000 / 1000
  else g % 1000 / c.stepMs

theorem Config.slot_bounds (c : Config) (cur : Int) {g : Int} (hg : 0 ≤ g ∧ g < c.round) :
    0 ≤ c.slot cur g ∧ c.slot cur g < 1000 / c.stepMs + 60 + c.maxMin := by
  have hms := msPos_bounds c g
  have hlow := c.low_pos
  have hmin := c.minutes
  have hround : c.round = 60000 * c.maxMin := rfl
  unfold slot
  split
  · omega
  · split <;> omega

theorem Config.slot_ne (cur : Int) {next g : Int} (hnext : c.stepMs ∣ next) (hg : c.stepMs ∣ g)
    (hpos : 0 ≤ next ∧ 0 ≤ g) (hne : g ≠ next) : c.slot next g ≠ c.slot cur next := by
  have hms := msPos_bounds c g
  have hms' := msPos_bounds c next
  have hlow := c.low_pos
  intro he
  unfold slot at he
  split at he
  next hmin => split at he <;> [omega; split at he <;> omega]
  next hmin =>
    split at he
    next hs => split at he <;> [omega; split at he <;> omega]
    next hs =>
      have hinj : g % 1000 / c.stepMs ≠ next % 1000 / c.stepMs := by
        intro heq
        have hsame := msPos_inj hg hnext heq
        omega
      split at he <;> [omega; split at he <;> omega]

theorem Config.slot_stays {cur next g : Int} (hlt : cur < next) (hle : next ≤ g)
    (hne : c.slot cur g ≠ c.slot cur next) : c.slot next g = c.slot cur g := by
  unfold slot at hne ⊢
  by_cases hmin : g / 60000 = cur / 60000
  · have hmin' : next / 60000 = cur / 60000 := by omega
    have hmin'' : g / 60000 = next / 60000 := by omega
    simp only [hmin, hmin', ne_eq, not_true_eq_false, if_false] at hne ⊢
    by_cases hs : g % 60000 / 1000 = cur % 60000 / 1000
    · have hs' : next % 60000 / 1000 = cur % 60000 / 1000 := by omega
      simp only [hs, hs', not_true_eq_false, if_false]
    · by_cases hs' : next % 60000 / 1000 = cur % 60000 / 1000
      · simp only [hs', hs, not_false_eq_true, if_true]
      · by_cases hs'' : g % 60000 / 1000 = next % 60000 / 1000
        · simp only [hs'', hs', not_false_eq_true, if_true] at hne
          exact absurd trivial hne
        · simp only [hs, hs'', not_false_eq_true, if_true]
  · by_cases hmin' : next / 60000 = cur / 60000
    · simp only [hmin', hmin, ne_eq, not_false_eq_true, if_true]
    · by_cases hmin'' : g / 60000 = next / 60000
      · simp only [hmin'', hmin', ne_eq, not_false_eq_true, if_true] at hne
        exact absurd trivial hne
      · simp only [hmin, hmin'', ne_eq, not_false_eq_true, if_true]

theorem Config.At.slot_cases (h : c.At w cur) {g : Int} (hg : c.stepMs ∣ g) (hne : g ≠ cur) :
    let q := posOf c.stepMs g
    (q.minPos ≠ w.timePos.minPos ∧ w.lowCount + w.midCount + q.minPos = c.slot cur g) ∨
      (q.minPos = w.timePos.minPos ∧ q.sPos ≠ w.timePos.sPos ∧
        w.lowCount + q.sPos = c.slot cur g) ∨
      (q.minPos = w.timePos.minPos ∧ q.sPos = w.timePos.sPos ∧ q.msPos ≠ w.timePos.msPos ∧
        q.msPos = c.slot cur g) := by
  rw [h.pos, h.low, h.mid]
  simp only [posOf, slot]
  by_cases hmin : g / 60000 = cur / 60000
  · by_cases hs : g % 60000 / 1000 = cur % 60000 / 1000
    · right
      right
      refine ⟨hmin, hs, ?_, by rw [if_neg (not_not_intro hmin), if_neg (not_not_intro hs)]⟩
      intro heq
      have hsame := msPos_inj hg h.dvd heq
      omega
    · exact .inr (.inl ⟨hmin, hs, by rw [if_neg (not_not_intro hmin), if_pos hs]⟩)
  · exact .inl ⟨hmin, by rw [if_pos hmin]⟩

/-! ### A timer and its time -/

def Config.startOf (c : Config) (e : EventInfo) : Int :=
  c.stepMs * e.timePos.msPos + e.timePos.sPos * 1000 + e.timePos.minPos * 60 * 1000

def Config.due (c : Config) (e : EventInfo) : Int := c.startOf e + e.interval

def Config.wrap (c : Config) (f : Int) : Int := if f < c.round then f else f - c.round

/-- A timer whose period has begun in this round and is not over. -/
structure Config.Waiting (c : Config) (cur : Int) (e : EventInfo) : Prop where
  pos : e.timePos = posOf c.stepMs (c.startOf e)
  start_nonneg : 0 ≤ c.startOf e
  start_le : c.startOf e ≤ cur
  start_dvd : c.stepMs ∣ c.startOf e
  interval_pos : 0 < e.interval
  interval_lt : e.interval < c.round
  interval_dvd : c.stepMs ∣ e.interval
  room : e.interval + (c.maxMin + 1) * 60 * 1000 ≤ 2147483647
  cur_le : cur ≤ c.due e

def Config.home (c : Config) (cur : Int) (e : EventInfo) : Nat :=
  (c.slot cur (c.wrap (c.due e))).toNat

def Config.next (c : Config) (cur : Int) (e : EventInfo) : EventInfo :=
  if c.due e = cur then { e with timePos := posOf c.stepMs cur } else e

theorem startOf_posOf {e : EventInfo} {f : Int} (h : c.stepMs ∣ f)
    (hpos : e.timePos = posOf c.stepMs f) : c.startOf e = f := by
  unfold Config.startOf
  rw [hpos]
  simp only [posOf, step_mul_div h]
  omega

theorem Config.next_callBack (cur : Int) (e : EventInfo) :
    (c.next cur e).callBack = e.callBack := by
  unfold next
  split <;> rfl

theorem Config.next_interval (cur : Int) (e : EventInfo) :
    (c.next cur e).interval = e.interval := by
  unfold next
  split <;> rfl

theorem Config.Waiting.next {e : EventInfo} (h : c.Waiting cur e) (hcur : c.stepMs ∣ cur) :
    c.Waiting cur (c.next cur e) ∧ cur < c.due (c.next cur e) := by
  have hpos := h.interval_pos
  have hnonneg := h.start_nonneg
  have hle := h.start_le
  have hdue : c.due e = c.startOf e + e.interval := rfl
  unfold Config.next
  split
  next hfired =>
    have hstart : c.startOf { e with timePos := posOf c.stepMs cur } = cur := startOf_posOf hcur rfl
    have hdue' : c.due { e with timePos := posOf c.stepMs cur } = cur + e.interval :=
      congrArg (· + e.interval) hstart
    refine ⟨⟨by rw [hstart], ?_, ?_, ?_, hpos, h.interval_lt, h.interval_dvd, h.room, ?_⟩, ?_⟩
    · rw [hstart]
      omega
    · rw [hstart]
    · rw [hstart]
      exact hcur
    · rw [hdue']
      omega
    · rw [hdue']
      omega
  next hlater =>
    have hcurle := h.cur_le
    exact ⟨h, by omega⟩

theorem Config.Waiting.target {e : EventInfo} (h : c.Waiting cur e) (hlt : cur < c.due e)
    (hround : cur < c.round) :
    (0 ≤ c.wrap (c.due e) ∧ c.wrap (c.due e) < c.round) ∧ c.stepMs ∣ c.wrap (c.due e) ∧
      c.wrap (c.due e) ≠ cur ∧
      (c.due e = c.wrap (c.due e) ∨ c.due e = c.wrap (c.due e) + c.round) := by
  have hpos := h.interval_pos
  have hnonneg := h.start_nonneg
  have hle := h.start_le
  have hil := h.interval_lt
  have hdue : c.due e = c.startOf e + e.interval := rfl
  have hdvd : c.stepMs ∣ c.due e := Int.dvd_add h.start_dvd h.interval_dvd
  have hrounds : c.stepMs ∣ c.round :=
    Int.dvd_trans c.dvd ⟨60 * c.maxMin, by unfold Config.round; omega⟩
  unfold Config.wrap
  split
  · exact ⟨⟨by omega, by omega⟩, hdvd, by omega, .inl rfl⟩
  · exact ⟨⟨by omega, by omega⟩, Int.dvd_sub hdvd hrounds, by omega, .inr (by omega)⟩

/-! ### The calls of the wheel -/

theorem Config.At.relist (h : c.At w cur) (lists : Nat → List EventInfo) :
    c.At { w with pCallbackList := lists } cur :=
  ⟨h.step, h.low, h.mid, h.high, h.pos, h.nonneg, h.lt, h.dvd, h.int⟩

theorem pushBack_ok {i : Int} (hi : 0 ≤ i ∧ i < w.nCount) (e : EventInfo) :
    w.pushBack i e = .ok { w with pCallbackList := pushSlot w.pCallbackList i.toNat e } := by
  unfold TimeWheel.pushBack
  rw [check_ok hi, ok_bind]
  rfl

theorem Config.At.insertTimer (h : c.At w cur) {e : EventInfo} (he : c.Waiting cur e)
    (hlt : cur < c.due e) {d : Int} (hd : cur + d = c.due e) :
    w.insertTimer d e = .ok { w with
      pCallbackList := pushSlot w.pCallbackList (c.home cur e) e } := by
  obtain ⟨hbounds, hdvd, hne, hwrap⟩ := he.target hlt h.lt
  have hroom := he.room
  have hle := he.start_le
  have hcurlt := h.lt
  have hround : c.round = 60000 * c.maxMin := rfl
  have hdue : c.due e = c.startOf e + e.interval := rfl
  have hfuture : cur + d = c.wrap (c.due e) ∨ cur + d = c.wrap (c.due e) + c.round := by omega
  have hpos := h.getNextTrigerPos hbounds hfuture (by omega)
  have hindex := c.slot_bounds cur hbounds
  rw [← h.nCount] at hindex
  have hpush := pushBack_ok hindex e
  unfold TimeWheel.insertTimer Config.home
  rw [hpos, ok_bind]
  rcases h.slot_cases hdvd hne with ⟨hmin, hslot⟩ | ⟨hmin, hs, hslot⟩ | ⟨hmin, hs, hms, hslot⟩
  · rw [if_pos hmin, hslot, hpush]
  · rw [if_neg (not_not_intro hmin), if_pos hs, hslot, hpush]
  · rw [if_neg (not_not_intro hmin), if_neg (not_not_intro hs), if_pos hms, hslot, hpush]

/-- Of the timers of a list those that are due fire and start again, and all of them go to
their next lists. -/
theorem Config.At.dealTimeWheeling {items : List EventInfo} (h : c.At w cur)
    (hitems : ∀ e ∈ items, c.Waiting cur e) :
    w.dealTimeWheeling items = .ok ({ w with
        pCallbackList := fun i =>
          w.pCallbackList i ++ (items.map (c.next cur)).filter fun e => c.home cur e = i },
      (items.filter fun e => c.due e = cur).map EventInfo.callBack) := by
  induction items generalizing w with
  | nil =>
    simp only [TimeWheel.dealTimeWheeling, List.map_nil, List.filter_nil, List.append_nil]
  | cons e rest ih =>
    have he := hitems e List.mem_cons_self
    obtain ⟨hnext, hlt⟩ := he.next h.dvd
    have hinsert := fun {d} hd => h.insertTimer hnext hlt (d := d) hd
    have hrest := ih (h.relist (pushSlot w.pCallbackList (c.home cur (c.next cur e))
      (c.next cur e))) fun f hf => hitems f (List.mem_cons_of_mem _ hf)
    simp only [pushSlot_append_filter] at hrest
    have hstart := he.start_nonneg
    have hle := he.start_le
    have hcurle := he.cur_le
    have hpos := he.interval_pos
    have hil := he.interval_lt
    have hroom := he.room
    have hint := h.int
    have hround : c.round = 60000 * c.maxMin := rfl
    have hdue : c.due e = c.startOf e + e.interval := rfl
    have hlast : w.getMS e.timePos = c.startOf e := by
      rw [he.pos, getMS_posOf h.step he.start_dvd]
    have hdiff : (cur - c.startOf e + (c.maxMin + 1) * 60 * 1000).tmod
        ((c.maxMin + 1) * 60 * 1000) = cur - c.startOf e := by
      rw [Int.tmod_eq_emod_of_nonneg (by omega), Int.add_emod_right,
        Int.emod_eq_of_lt (by omega) (by omega)]
    have hperiod : arith ((w.highCount + 1) * 60 * 1000) = .ok ((c.maxMin + 1) * 60 * 1000) := by
      rw [h.high]
      exact arith_ok ⟨by omega, by omega⟩
    unfold TimeWheel.dealTimeWheeling
    rw [h.getMS, arith_ok ⟨by omega, hint⟩, ok_bind, hlast, arith_ok ⟨by omega, by omega⟩, ok_bind,
      hperiod, ok_bind, arith_ok ⟨by omega, by omega⟩, ok_bind]
    simp only [hdiff]
    by_cases hfired : c.due e = cur
    · have hsame : c.next cur e = { e with timePos := w.timePos } := by
        unfold Config.next
        rw [if_pos hfired, h.pos]
      have hnextdue : cur + e.interval = c.due (c.next cur e) := by
        unfold Config.due
        rw [Config.next_interval, startOf_posOf h.dvd (hsame ▸ h.pos)]
      have hfilter : (e :: rest).filter (fun e => c.due e = cur) =
          e :: rest.filter fun e => c.due e = cur := List.filter_cons_of_pos (decide_eq_true hfired)
      rw [if_pos (by omega), ← hsame, hinsert hnextdue, ok_bind, hrest, ok_bind, hfilter]
      rfl
    · have hsame : c.next cur e = e := if_neg hfired
      rw [if_neg (by omega)]
      have hback := hinsert (d := e.interval - (cur - c.startOf e)) (by rw [hsame]; omega)
      rw [hsame] at hback hrest
      have hfilter : (e :: rest).filter (fun e => c.due e = cur) =
          rest.filter fun e => c.due e = cur := List.filter_cons_of_neg (by simpa using hfired)
      rw [hback, ok_bind, hrest, hfilter, List.map_cons, hsame]

/-- A timer whose period straddles the end of the round is not called when it is due: the
time since the start of its period comes out one minute too long. -/
theorem Config.At.straddled (h : c.At w cur) {e : EventInfo}
    (hpos : e.timePos = posOf c.stepMs (c.startOf e)) (hdvd : c.stepMs ∣ c.startOf e)
    (hstart : cur < c.startOf e ∧ c.startOf e < c.round) (hdue : c.due e = cur + c.round)
    {r : TimeWheel × List Nat} (hr : w.dealTimeWheeling [e] = .ok r) : r.2 = [] := by
  have hround : c.round = 60000 * c.maxMin := rfl
  have hsum : c.due e = c.startOf e + e.interval := rfl
  have hnonneg := h.nonneg
  have hint := h.int
  have harith : ∀ {x y : Int}, arith x = .ok y → y = x := by
    intro x y hxy
    unfold arith int32 at hxy
    split at hxy
    next z hz =>
      split at hz
      · cases hz
        cases hxy
        rfl
      · cases hz
    · cases hxy
  have hlast : w.getMS e.timePos = c.startOf e := by
    rw [hpos, getMS_posOf h.step hdvd]
  have hdiff : (cur - c.startOf e + (c.maxMin + 1) * 60 * 1000).tmod ((c.maxMin + 1) * 60 * 1000) =
      e.interval + 60000 := by
    rw [Int.tmod_eq_emod_of_nonneg (by omega), Int.emod_eq_of_lt (by omega) (by omega)]
    omega
  unfold TimeWheel.dealTimeWheeling at hr
  rw [h.getMS, hlast, h.high] at hr
  obtain ⟨curMs, hcurMs, hr⟩ := bind_eq_ok hr
  obtain ⟨lastMs, hlastMs, hr⟩ := bind_eq_ok hr
  obtain ⟨period, hperiod, hr⟩ := bind_eq_ok hr
  obtain ⟨since, hsince, hr⟩ := bind_eq_ok hr
  obtain rfl := harith hcurMs
  obtain rfl := harith hlastMs
  obtain rfl := harith hperiod
  obtain rfl := harith hsince
  simp only [hdiff] at hr
  rw [if_neg (by omega)] at hr
  obtain ⟨v, _, hr⟩ := bind_eq_ok hr
  cases hr
  rfl

/-- One iteration of the loop: the list of the next time is dealt with. -/
theorem Config.At.doLoop {g : Int} (h : c.At w cur) (hg : 0 ≤ g ∧ g < c.round)
    (hstep : cur + c.stepMs = g ∨ cur + c.stepMs = g + c.round)
    (hint : cur + c.stepMs ≤ 2147483647)
    (hitems : ∀ e ∈ w.pCallbackList (c.slot cur g).toNat, c.Waiting g e) :
    w.doLoop = .ok ({ w with
        timePos := posOf c.stepMs g
        pCallbackList := dealSlot w.pCallbackList (c.slot cur g).toNat (c.next g) (c.home g) },
      ((w.pCallbackList (c.slot cur g).toNat).filter fun e => c.due e = g).map EventInfo.callBack) ∧
      c.At { w with timePos := posOf c.stepMs g } g := by
  have hmin := c.minutes
  have hpos := c.pos
  have hshort := c.short
  have hround : c.round = 60000 * c.maxMin := rfl
  have hne : g ≠ cur := by omega
  have hdvd : c.stepMs ∣ g := by
    have hsum : c.stepMs ∣ cur + c.stepMs := Int.dvd_add h.dvd (Int.dvd_refl _)
    have hrounds : c.stepMs ∣ c.round :=
      Int.dvd_trans c.dvd ⟨60 * c.maxMin, by unfold Config.round; omega⟩
    rcases hstep with he | he
    · exact he ▸ hsum
    · exact (Int.dvd_add_left hrounds).mp (he ▸ hsum)
  have hat : c.At { w with timePos := posOf c.stepMs g } g :=
    ⟨h.step, h.low, h.mid, h.high, rfl, hg.1, hg.2, hdvd, by omega⟩
  refine ⟨?_, hat⟩
  have hnext : w.getNextTrigerPos w.stepMs = .ok (posOf c.stepMs g) := by
    rw [h.step]
    exact h.getNextTrigerPos hg hstep hint
  have hindex := c.slot_bounds cur hg
  rw [← h.nCount] at hindex
  have hdeal := hat.dealTimeWheeling hitems
  have htrigger : ∀ i, i = c.slot cur g →
      TimeWheel.trigger { w with timePos := posOf c.stepMs g } i = .ok ({ w with
        timePos := posOf c.stepMs g
        pCallbackList := dealSlot w.pCallbackList (c.slot cur g).toNat (c.next g) (c.home g) },
      ((w.pCallbackList (c.slot cur g).toNat).filter fun e => c.due e = g).map
        EventInfo.callBack) := by
    intro i hi
    subst hi
    have hin : 0 ≤ c.slot cur g ∧
        c.slot cur g < TimeWheel.nCount { w with timePos := posOf c.stepMs g } := hindex
    unfold TimeWheel.trigger
    rw [check_ok hin, ok_bind, hdeal, ok_bind]
    rfl
  unfold TimeWheel.doLoop
  rw [hnext, ok_bind]
  simp only
  rcases h.slot_cases hdvd hne with ⟨hmin, hslot⟩ | ⟨hmin, hs, hslot⟩ | ⟨hmin, hs, hms, hslot⟩
  · rw [if_pos hmin]
    refine htrigger _ ?_
    omega
  · rw [if_neg (not_not_intro hmin), if_pos hs]
    refine htrigger _ ?_
    omega
  · rw [if_neg (not_not_intro hmin), if_neg (not_not_intro hs), if_pos hms]
    exact htrigger _ hslot

end TstMuduo.LevelWheel
