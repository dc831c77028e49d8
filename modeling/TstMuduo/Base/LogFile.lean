import Mathlib.Data.List.Nodup
import Mathlib.Logic.Function.Iterate
import TstMuduo.Base.AsyncLogging
import TstMuduo.Base.UtcTime

/-!
# The log file (muduo/base/LogFile.cc, FileUtil.cc)

A file is left for the next one when it has grown past `rollSize_`, or when a check, made every
`checkEveryN_` lines, finds that another period has begun; but never twice in one second, since
the second of the opening is a part of the name.
-/

namespace TstMuduo.Base
open TstMuduo.Lib CalendarDate

/-! ### The name of a file -/

/- `gmtime_r`, for a time that is not before the Epoch: so many days after 1 January 1970. -/
def gmtimeR (now : Int) : Tm :=
  utcOf (now % 86400) (CalendarDate.succ^[(now / 86400).toNat] ⟨1970, 1, 1⟩) true

/- What `strftime` prints for `%m`, `%d`, `%H`, `%M` and `%S`. -/
def twoDigits (n : Int) : List Char :=
  [Nat.digitChar (n.toNat / 10), Nat.digitChar (n.toNat % 10)]

/- `strftime` with the format `".%Y%m%d-%H%M%S."`. -/
def strftime (tm : Tm) : List Char :=
  '.' :: Nat.toDigits 10 (tm.year + 1900).toNat ++
    (twoDigits (tm.mon + 1) ++ twoDigits tm.mday ++ '-' ::
      (twoDigits tm.hour ++ twoDigits tm.min ++ twoDigits tm.sec ++ ['.']))

/-- What the constructor of the log file is given, and the host name and the process. -/
structure LogFileConfig where
  basename : List Char
  hostname : List Char
  pid : Nat
  rollSize : Int
  flushInterval : Int
  checkEveryN : Int

/- `LogFile::getLogFileName` (`LogFile.cc:106`), for the reading `now` of the clock. -/
def getLogFileName (cfg : LogFileConfig) (now : Int) : List Char :=
  cfg.basename ++ strftime (gmtimeR now) ++ cfg.hostname ++
    ('.' :: Nat.toDigits 10 cfg.pid) ++ ['.', 'l', 'o', 'g']

theorem twoDigits_inj {m n : Int} (hm0 : 0 ≤ m) (hm : m < 100) (hn0 : 0 ≤ n) (hn : n < 100)
    (h : twoDigits m = twoDigits n) : m = n := by
  have hval : ∀ k : Int, k < 100 → Nat.ofDigitChars 10 (twoDigits k) 0 = k.toNat := by
    intro k hk
    rw [twoDigits, Nat.ofDigitChars_cons_digitChar_of_lt_ten (by omega),
      Nat.ofDigitChars_cons_digitChar_of_lt_ten (by omega), Nat.ofDigitChars_nil]
    omega
  have heq := congrArg (Nat.ofDigitChars 10 · 0) h
  simp only [hval m hm, hval n hn] at heq
  omega

theorem year_le_succ (d : CalendarDate) : d.year ≤ d.succ.year := by
  unfold CalendarDate.succ
  split_ifs
  · exact Int.le_refl _
  · exact Int.le_refl _
  · exact Int.le_add_one (Int.le_refl _)

theorem iterate_succ_spec (n : Nat) :
    (CalendarDate.succ^[n] ⟨1970, 1, 1⟩).Valid ∧
      (CalendarDate.succ^[n] ⟨1970, 1, 1⟩).dayNumber = 2440588 + n ∧
        1970 ≤ (CalendarDate.succ^[n] ⟨1970, 1, 1⟩).year := by
  induction n with
  | zero => decide
  | succ n ih =>
    obtain ⟨hvalid, hnumber, hyear⟩ := ih
    rw [Function.iterate_succ_apply']
    refine ⟨hvalid.succ, ?_, ?_⟩
    · rw [dayNumber_succ hvalid, hnumber]
      omega
    · exact hyear.trans (year_le_succ _)

theorem strftime_inj {s t : Tm} (hs : s.Normalised) (ht : t.Normalised) (hsy : 0 ≤ s.year)
    (hty : 0 ≤ t.year) (h : strftime s = strftime t) :
    s.date = t.date ∧ s.hour = t.hour ∧ s.min = t.min ∧ s.sec = t.sec := by
  have hsd := hs.date_valid.day_le
  have htd := ht.date_valid.day_le
  obtain ⟨⟨hsm0, hsm1⟩, hsd0, -⟩ := hs.date_valid
  obtain ⟨⟨htm0, htm1⟩, htd0, -⟩ := ht.date_valid
  obtain ⟨hss, hsmin, hsh, -⟩ := hs
  obtain ⟨hts, htmin, hth, -⟩ := ht
  simp only [Tm.date] at hsd htd hsm0 hsm1 hsd0 htm0 htm1 htd0
  -- The year has no fixed width, what follows it has.
  obtain ⟨hyear, hrest⟩ := List.append_inj' h rfl
  have hy := congrArg (Nat.ofDigitChars 10 · 0) (List.cons.inj hyear).2
  simp only [Nat.ofDigitChars_ten_toDigits] at hy
  obtain ⟨hdate, htime⟩ := List.append_inj hrest rfl
  obtain ⟨hmon, hmday⟩ := List.append_inj hdate rfl
  obtain ⟨hclock, -⟩ := List.append_inj (List.cons.inj htime).2 rfl
  obtain ⟨hhm, hsec⟩ := List.append_inj hclock rfl
  obtain ⟨hhour, hmin⟩ := List.append_inj hhm rfl
  have hmon := twoDigits_inj (by omega) (by omega) (by omega) (by omega) hmon
  have hmday := twoDigits_inj (by omega) (by omega) (by omega) (by omega) hmday
  refine ⟨?_, twoDigits_inj (by omega) (by omega) (by omega) (by omega) hhour,
    twoDigits_inj (by omega) (by omega) (by omega) (by omega) hmin,
    twoDigits_inj (by omega) (by omega) (by omega) (by omega) hsec⟩
  rw [Tm.date, Tm.date, CalendarDate.mk.injEq]
  exact ⟨by omega, by omega, hmday⟩

theorem getLogFileName_inj {cfg : LogFileConfig} {s t : Int} (hs : 0 < s) (ht : 0 < t)
    (h : getLogFileName cfg s = getLogFileName cfg t) : s = t := by
  have hstamp : strftime (gmtimeR s) = strftime (gmtimeR t) := by
    simpa only [getLogFileName, List.append_cancel_right_eq, List.append_cancel_left_eq] using h
  obtain ⟨hvs, hns, hys⟩ := iterate_succ_spec (s / 86400).toNat
  obtain ⟨hvt, hnt, hyt⟩ := iterate_succ_spec (t / 86400).toNat
  obtain ⟨hdate, hhour, hmin, hsec⟩ := strftime_inj
    (utcOf_normalised true hvs (by omega) (by omega))
    (utcOf_normalised true hvt (by omega) (by omega))
    (by dsimp only [utcOf]; omega) (by dsimp only [utcOf]; omega) hstamp
  rw [utcOf_date, utcOf_date] at hdate
  rw [hdate, hnt] at hns
  simp only [utcOf] at hhour hmin hsec
  omega

/-! ### The file -/

/-- What `fwrite_unlocked` accepts of the bytes in its second argument when the file holds
those in the first: no byte past the largest `off_t`. -/
structure Stdio where
  fwrite : Bytes → Bytes → Nat
  fwrite_le : ∀ contents data, fwrite contents data ≤ data.length
  off_max : ∀ contents data, 0 < fwrite contents data →
    contents.length + fwrite contents data < 2 ^ 63

/-- An `AppendFile`, with the reading of the clock at which it was opened and the lines that
were appended to it, each with its time. -/
structure AppendFile where
  filename : List Char
  openTime : Int
  contents : Bytes
  writtenBytes : Int
  lines : List (Int × Bytes)
  deriving DecidableEq, Repr

namespace AppendFile

def new (filename : List Char) (openTime : Int) : AppendFile := ⟨filename, openTime, [], 0, []⟩

/- The loop of `AppendFile::append` (`FileUtil.cc:36`): every pass but the last accepts a byte. -/
def writeRemaining (io : Stdio) : Nat → Bytes → Bytes → Bytes
  | 0, contents, _ => contents
  | fuel + 1, contents, data =>
    if data = [] then contents
    else
      let x := io.fwrite contents data
      if x = 0 then contents
      else writeRemaining io fuel (contents ++ data.take x) (data.drop x)

/- `AppendFile::append` (`FileUtil.cc:32`): the sum of `off_t` and `size_t` is unsigned, and goes
back into an `off_t`. -/
def append (io : Stdio) (f : AppendFile) (time : Int) (logline : Bytes) : AppendFile :=
  let n := io.fwrite f.contents logline
  { f with
    contents := writeRemaining io logline.length (f.contents ++ logline.take n) (logline.drop n)
    writtenBytes := (f.writtenBytes + logline.length).bmod (2 ^ 64)
    lines := f.lines ++ [(time, logline)] }

end AppendFile

/-! ### Rolling -/

def kRollPerSeconds : Int := 60 * 60 * 24

def startOf (now : Int) : Int := now.tdiv kRollPerSeconds * kRollPerSeconds

inductive LogFileFault where
  | nullFile
  deriving DecidableEq, Repr

/-- The log file; `closed` are the files before `file_`, in the order they were opened. -/
structure LogFile where
  count : Int
  startOfPeriod : Int
  lastRoll : Int
  lastFlush : Int
  file : Option AppendFile
  closed : List AppendFile
  deriving DecidableEq, Repr

/-- One call of `append`: the line, the time at which it is written, and the readings of the
clock in `append_unlocked` and in `rollFile`, after which the call ends. -/
structure LogCall where
  logline : Bytes
  start : Int
  check : Int
  roll : Int
  deriving DecidableEq, Repr

namespace LogFile

def files (s : LogFile) : List AppendFile := s.closed ++ s.file.toList

/- `LogFile::rollFile` (`LogFile.cc:87`). -/
def rollFile (cfg : LogFileConfig) (s : LogFile) (now : Int) : LogFile :=
  let filename := getLogFileName cfg now
  let start := startOf now
  if now > s.lastRoll then
    { s with
      lastRoll := now
      lastFlush := now
      startOfPeriod := start
      file := some (AppendFile.new filename now)
      closed := s.files }
  else s

/- `LogFile::LogFile` (`LogFile.cc:12`). -/
def new (cfg : LogFileConfig) (now : Int) : LogFile :=
  rollFile cfg ⟨0, 0, 0, 0, none, []⟩ now

/- What `append_unlocked` does after the line was appended. -/
def afterAppend (cfg : LogFileConfig) (s : LogFile) (writtenBytes : Int) (call : LogCall) :
    LogFile :=
  if writtenBytes > cfg.rollSize then rollFile cfg s call.roll
  else
    let s := { s with count := s.count + 1 }
    if s.count ≥ cfg.checkEveryN then
      let s := { s with count := 0 }
      let now := call.check
      let thisPeriod := startOf now
      if thisPeriod ≠ s.startOfPeriod then rollFile cfg s call.roll
      else if now - s.lastFlush > cfg.flushInterval then { s with lastFlush := now }
      else s
    else s

/- `LogFile::append_unlocked` (`LogFile.cc:60`). -/
def appendUnlocked (cfg : LogFileConfig) (io : Stdio) (s : LogFile) (call : LogCall) :
    Except LogFileFault LogFile :=
  match s.file with
  | none => .error .nullFile
  | some f =>
    let f := f.append io call.start call.logline
    .ok (afterAppend cfg { s with file := some f } f.writtenBytes call)

def machine (cfg : LogFileConfig) (io : Stdio) (now : Int) :
    Machine LogFile LogCall LogFileFault where
  init := new cfg now
  step s call := some (s.appendUnlocked cfg io call)

end LogFile

/-! ### What holds between two appends -/

def AppendFile.late (f : AppendFile) : Nat :=
  f.lines.countP fun l => startOf f.openTime + kRollPerSeconds ≤ l.1

/- All bytes of the next line are accepted. -/
def LogFile.Accepts (io : Stdio) (s : LogFile) (call : LogCall) : Prop :=
  ∀ f ∈ s.file, io.fwrite f.contents call.logline = call.logline.length

instance (io : Stdio) (s : LogFile) (call : LogCall) : Decidable (s.Accepts io call) := by
  unfold LogFile.Accepts
  infer_instance

def Nondecreasing (now : Int) (calls : List LogCall) : Prop :=
  (now :: calls.flatMap fun call => [call.start, call.check, call.roll]).Pairwise (· ≤ ·)

instance (now : Int) (calls : List LogCall) : Decidable (Nondecreasing now calls) := by
  unfold Nondecreasing
  infer_instance

namespace LogFile

variable {cfg : LogFileConfig} {io : Stdio} {s : LogFile} {f : AppendFile} {call : LogCall}
  {done : List LogCall} {now : Int}

/-- The files hold the lines of `done`, and the fields of the log file are those of the file
it has open; `now` is the time. -/
structure Files (cfg : LogFileConfig) (done : List LogCall) (now : Int) (s : LogFile)
    (f : AppendFile) : Prop where
  file : s.file = some f
  lines : s.files.flatMap AppendFile.lines = done.map fun call => (call.start, call.logline)
  contents : ∀ g ∈ s.files, g.contents = (g.lines.map Prod.snd).flatten
  written : f.writtenBytes = f.contents.length
  bound : f.contents.length < 2 ^ 63
  filename : ∀ g ∈ s.files, g.filename = getLogFileName cfg g.openTime
  positive : ∀ g ∈ s.files, 0 < g.openTime
  increasing : s.files.Pairwise fun g h => g.openTime < h.openTime
  lastRoll : s.lastRoll = f.openTime
  startOfPeriod : s.startOfPeriod = startOf f.openTime
  openTime_le : f.openTime ≤ now
  times : ∀ l ∈ f.lines, l.1 ≤ now

/-- In addition the late lines of every file are counted, and a file past its size was opened
in the second in which the last append ended. -/
structure Inv (cfg : LogFileConfig) (done : List LogCall) (now : Int) (s : LogFile)
    (f : AppendFile) : Prop extends Files cfg done now s f where
  count : s.count < cfg.checkEveryN
  late_closed : ∀ g ∈ s.closed, (g.late : Int) ≤ cfg.checkEveryN
  late_open : (f.late : Int) ≤ s.count
  full : cfg.rollSize < f.contents.length → ∃ prev ∈ done.getLast?, prev.roll = f.openTime

theorem Files.files_eq (h : Files cfg done now s f) : s.files = s.closed ++ [f] := by
  rw [files, h.file]
  rfl

theorem Files.mem (h : Files cfg done now s f) : f ∈ s.files := by
  rw [h.files_eq]
  exact List.mem_append_right _ List.mem_cons_self

theorem startOf_eq {t : Int} (h : 0 < t) : startOf t = t / 86400 * 86400 := by
  rw [startOf, kRollPerSeconds, Int.tdiv_eq_ediv_of_nonneg (by omega)]
  rfl

theorem append_eq (haccept : io.fwrite f.contents call.logline = call.logline.length)
    (hwritten : f.writtenBytes = f.contents.length)
    (hbound : f.contents.length < 2 ^ 63) :
    f.append io call.start call.logline =
        ⟨f.filename, f.openTime, f.contents ++ call.logline,
          ((f.contents ++ call.logline).length : Nat),
          f.lines ++ [(call.start, call.logline)]⟩ ∧
      (f.contents ++ call.logline).length < 2 ^ 63 := by
  have hlen : f.contents.length + call.logline.length < 2 ^ 63 := by
    by_cases hempty : call.logline.length = 0
    · omega
    · have hpos : 0 < io.fwrite f.contents call.logline := by omega
      have hmax := io.off_max f.contents call.logline hpos
      omega
  constructor
  · have hrest : ∀ fuel contents, AppendFile.writeRemaining io fuel contents [] = contents := by
      intro fuel contents
      cases fuel with
      | zero => rfl
      | succ fuel => rfl
    have hmod : ((f.contents.length : Int) + call.logline.length).bmod (2 ^ 64) =
        f.contents.length + call.logline.length :=
      Int.bmod_eq_of_le (by omega) (by omega)
    simp only [AppendFile.append, haccept, List.take_length, List.drop_length, hrest, hwritten,
      hmod, List.length_append, Nat.cast_add]
  · rw [List.length_append]
    exact hlen

theorem forall_files_concat {P : AppendFile → Prop} {gs : List AppendFile} {g : AppendFile}
    (hgs : ∀ h ∈ gs, P h) (hg : P g) : ∀ h ∈ gs ++ [g], P h := by
  intro h hmem
  rcases List.mem_append.mp hmem with hold | hlast
  · exact hgs h hold
  · rw [List.mem_singleton.mp hlast]
    exact hg

theorem Files.forall_closed (h : Files cfg done now s f) {P : AppendFile → Prop}
    (hP : ∀ g ∈ s.files, P g) : ∀ g ∈ s.closed, P g := by
  intro g hg
  apply hP
  rw [h.files_eq]
  exact List.mem_append_left _ hg

/-- The line goes to the open file as a whole. -/
theorem Files.append (h : Files cfg done now s f) (hstart : now ≤ call.start)
    (haccept : Accepts io s call) :
    Files cfg (done ++ [call]) call.start
      { s with file := some (f.append io call.start call.logline) }
      (f.append io call.start call.logline) := by
  obtain ⟨heq, hbound⟩ := append_eq (haccept f h.file) h.written h.bound
  rw [heq]
  have hlines := h.lines
  have hincreasing := h.increasing
  have hcontents := h.contents f h.mem
  rw [h.files_eq] at hlines hincreasing
  rw [List.flatMap_append, List.flatMap_singleton] at hlines
  obtain ⟨hclosed, -, hbefore⟩ := List.pairwise_append.mp hincreasing
  exact {
    file := rfl
    lines := by
      simp only [files, Option.toList_some, List.flatMap_append, List.flatMap_singleton,
        List.map_append, List.map_cons, List.map_nil, ← hlines, List.append_assoc]
    contents := by
      apply forall_files_concat (h.forall_closed h.contents)
      simp only [List.map_append, List.flatten_append, ← hcontents, List.map_cons, List.map_nil,
        List.flatten_singleton]
    written := rfl
    bound := hbound
    filename := forall_files_concat (h.forall_closed h.filename) (h.filename f h.mem)
    positive := forall_files_concat (h.forall_closed h.positive) (h.positive f h.mem)
    increasing := by
      apply List.pairwise_append.mpr
      refine ⟨hclosed, List.pairwise_singleton _ _, ?_⟩
      intro g hg k hk
      rw [List.mem_singleton.mp hk]
      exact hbefore g hg f List.mem_cons_self
    lastRoll := h.lastRoll
    startOfPeriod := h.startOfPeriod
    openTime_le := h.openTime_le.trans hstart
    times := by
      intro l hl
      rcases List.mem_append.mp hl with hold | hlast
      · exact (h.times l hold).trans hstart
      · rw [List.mem_singleton.mp hlast] }

theorem Files.mono (h : Files cfg done now s f) {t : Int} (ht : now ≤ t) :
    Files cfg done t s f :=
  { h with
    openTime_le := h.openTime_le.trans ht
    times := fun l hl => (h.times l hl).trans ht }

/-- In a later second than that of the open file `rollFile` opens the next one. -/
theorem Files.roll (h : Files cfg done now s f) {t : Int} (ht : f.openTime < t) :
    Files cfg done t (s.rollFile cfg t) (AppendFile.new (getLogFileName cfg t) t) ∧
      (s.rollFile cfg t).closed = s.files ∧ (s.rollFile cfg t).count = s.count := by
  have hpos := h.positive f h.mem
  have hincreasing := h.increasing
  have hle : ∀ g ∈ s.files, g.openTime ≤ f.openTime := by
    rw [h.files_eq] at hincreasing ⊢
    obtain ⟨-, -, hbefore⟩ := List.pairwise_append.mp hincreasing
    apply forall_files_concat (P := fun g => g.openTime ≤ f.openTime) ?_ (Int.le_refl _)
    intro g hg
    exact Int.le_of_lt (hbefore g hg f List.mem_cons_self)
  have hroll : s.rollFile cfg t =
      { s with
        lastRoll := t
        lastFlush := t
        startOfPeriod := startOf t
        file := some (AppendFile.new (getLogFileName cfg t) t)
        closed := s.files } := by
    rw [rollFile, h.lastRoll, if_pos ht]
  rw [hroll]
  refine ⟨?_, rfl, rfl⟩
  exact {
    file := rfl
    lines := by
      simp only [files, Option.toList_some, List.flatMap_append, List.flatMap_singleton,
        AppendFile.new, List.append_nil]
      rw [← List.flatMap_append]
      exact h.lines
    contents := forall_files_concat h.contents rfl
    written := rfl
    bound := Nat.two_pow_pos 63
    filename := forall_files_concat h.filename rfl
    positive := forall_files_concat h.positive (hpos.trans ht)
    increasing := by
      apply List.pairwise_append.mpr
      refine ⟨h.increasing, List.pairwise_singleton _ _, ?_⟩
      intro g hg k hk
      rw [List.mem_singleton.mp hk]
      exact Int.lt_of_le_of_lt (hle g hg) ht
    lastRoll := rfl
    startOfPeriod := rfl
    openTime_le := Int.le_refl _
    times := fun l hl => by cases hl }

theorem Files.roll_same (h : Files cfg done now s f) {t : Int} (ht : ¬ f.openTime < t) :
    s.rollFile cfg t = s := by
  rw [rollFile, h.lastRoll, if_neg ht]

theorem Files.late_eq_zero (h : Files cfg done now s f)
    (hnow : now < startOf f.openTime + kRollPerSeconds) : f.late = 0 := by
  rw [AppendFile.late, List.countP_eq_zero]
  intro l hl hlate
  have hle := h.times l hl
  have hge := of_decide_eq_true hlate
  omega

theorem late_append_le (f : AppendFile) (io : Stdio) (time : Int) (logline : Bytes) :
    (f.append io time logline).late ≤ f.late + 1 := by
  simp only [AppendFile.late, AppendFile.append, List.countP_append]
  apply Nat.add_le_add_left
  exact List.countP_le_length

theorem Inv.of_roll (h : Files cfg done now s f) (hroll : 0 ≤ cfg.rollSize)
    (hclosed : ∀ g ∈ s.closed, (g.late : Int) ≤ cfg.checkEveryN)
    (hlate : (f.late : Int) ≤ cfg.checkEveryN) (hcount0 : 0 ≤ s.count)
    (hcount : s.count < cfg.checkEveryN) {t : Int} (ht : f.openTime < t) :
    Inv cfg done t (s.rollFile cfg t) (AppendFile.new (getLogFileName cfg t) t) := by
  obtain ⟨hfiles, hold, hkeep⟩ := h.roll ht
  exact {
    hfiles with
    count := by
      rw [hkeep]
      exact hcount
    late_closed := by
      rw [hold, h.files_eq]
      exact forall_files_concat hclosed hlate
    late_open := by
      rw [hkeep]
      exact hcount0
    full := by
      intro hfull
      exact absurd hfull (Int.not_lt.mpr hroll) }

theorem Files.openTime_lt (h : Files cfg done now s f) :
    f.openTime < startOf f.openTime + kRollPerSeconds := by
  have hpos := h.positive f h.mem
  rw [startOf_eq hpos, kRollPerSeconds]
  omega

theorem Files.lt_of_startOf_eq (h : Files cfg done now s f) {t : Int} (ht : now ≤ t)
    (heq : startOf t = s.startOfPeriod) : t < startOf f.openTime + kRollPerSeconds := by
  have hpos := h.positive f h.mem
  have hle := h.openTime_le
  rw [← h.startOfPeriod, ← heq, startOf_eq (by omega), kRollPerSeconds]
  omega

/-- What follows the append of the line, for each of the three reasons to roll or not to. -/
theorem afterAppend_inv (h : Files cfg (done ++ [call]) call.start s f)
    (hroll : 0 ≤ cfg.rollSize) (hcheck : call.start ≤ call.check)
    (hend : call.check ≤ call.roll)
    (hclosed : ∀ g ∈ s.closed, (g.late : Int) ≤ cfg.checkEveryN)
    (hlate : (f.late : Int) ≤ s.count + 1) (hcount0 : 0 ≤ s.count)
    (hcount : s.count < cfg.checkEveryN) :
    ∃ g, Inv cfg (done ++ [call]) call.roll (s.afterAppend cfg f.writtenBytes call) g := by
  have hopen := h.openTime_le
  simp only [afterAppend]
  split
  next hsize =>
    by_cases hlater : f.openTime < call.roll
    · exact ⟨_, Inv.of_roll h hroll hclosed (by omega) hcount0 hcount hlater⟩
    · have hsame : call.roll = f.openTime := by omega
      have hnow : call.start < startOf f.openTime + kRollPerSeconds := by
        have hlt := h.openTime_lt
        omega
      rw [h.roll_same hlater]
      refine ⟨f, { h.mono (hcheck.trans hend) with
        count := hcount, late_closed := hclosed, late_open := ?_, full := fun _ => ?_ }⟩
      · rw [h.late_eq_zero hnow]
        exact hcount0
      · exact ⟨call, by rw [List.getLast?_concat]; rfl, hsame⟩
  next hsize =>
    have hfull : ¬ cfg.rollSize < f.contents.length := by
      rw [← h.written]
      exact hsize
    split
    next hN =>
      -- The counter starts again; without a roll the period has not ended.
      have hfiles : ∀ lastFlush, Files cfg (done ++ [call]) call.start
          { s with count := 0, lastFlush := lastFlush } f := fun _ => { h with }
      have hstay : ∀ lastFlush, startOf call.check = s.startOfPeriod →
          Inv cfg (done ++ [call]) call.roll { s with count := 0, lastFlush := lastFlush } f := by
        intro lastFlush heq
        have hlt := h.lt_of_startOf_eq hcheck heq
        refine { (hfiles lastFlush).mono (hcheck.trans hend) with
          count := by dsimp only; omega, late_closed := hclosed, late_open := ?_
          full := fun hf => absurd hf hfull }
        rw [h.late_eq_zero (by omega)]
        exact Int.le_refl _
      split
      next hperiod =>
        have hlater : f.openTime < call.roll := by
          by_contra hnot
          have hsame : call.check = f.openTime := by omega
          rw [hsame] at hperiod
          exact hperiod h.startOfPeriod.symm
        exact ⟨_, Inv.of_roll (hfiles s.lastFlush) hroll hclosed (by omega) (Int.le_refl 0)
          (by dsimp only; omega) hlater⟩
      next hperiod =>
        have heq : startOf call.check = s.startOfPeriod := not_not.mp hperiod
        split
        · exact ⟨f, hstay call.check heq⟩
        · exact ⟨f, hstay s.lastFlush heq⟩
    next hN =>
      have hfiles : Files cfg (done ++ [call]) call.start { s with count := s.count + 1 } f :=
        { h with }
      exact ⟨f, { hfiles.mono (hcheck.trans hend) with
        count := Int.not_le.mp hN, late_closed := hclosed, late_open := hlate
        full := fun hf => absurd hf hfull }⟩

theorem appendUnlocked_inv (h : Inv cfg done now s f) (hroll : 0 ≤ cfg.rollSize)
    (hstart : now ≤ call.start) (hcheck : call.start ≤ call.check)
    (hend : call.check ≤ call.roll) (haccept : Accepts io s call) :
    ∃ t g, s.appendUnlocked cfg io call = .ok t ∧ Inv cfg (done ++ [call]) call.roll t g := by
  have hlate := late_append_le f io call.start call.logline
  have hopen := h.late_open
  obtain ⟨g, hg⟩ := afterAppend_inv (h.toFiles.append hstart haccept) hroll hcheck hend
    h.late_closed (by dsimp only; omega) (by dsimp only; omega) h.count
  exact ⟨_, g, by simp only [appendUnlocked, h.file], hg⟩

theorem inv_new (hroll : 0 ≤ cfg.rollSize) (hcheck : 1 ≤ cfg.checkEveryN) (hnow : 0 < now) :
    Inv cfg [] now (new cfg now) (AppendFile.new (getLogFileName cfg now) now) := by
  have hnew : new cfg now =
      ⟨0, startOf now, now, now, some (AppendFile.new (getLogFileName cfg now) now), []⟩ := by
    simp only [new, rollFile, if_pos hnow, files, Option.toList_none, List.append_nil]
  rw [hnew]
  have hall : ∀ {P : AppendFile → Prop}, P (AppendFile.new (getLogFileName cfg now) now) →
      ∀ g ∈ [AppendFile.new (getLogFileName cfg now) now], P g := by
    intro P hP g hg
    rw [List.mem_singleton.mp hg]
    exact hP
  exact {
    file := rfl
    lines := rfl
    contents := hall rfl
    written := rfl
    bound := Nat.two_pow_pos 63
    filename := hall rfl
    positive := hall hnow
    increasing := List.pairwise_singleton _ _
    lastRoll := rfl
    startOfPeriod := rfl
    openTime_le := Int.le_refl _
    times := fun l hl => by cases hl
    count := hcheck
    late_closed := fun g hg => by cases hg
    late_open := Int.le_refl 0
    full := fun hf => absurd hf (Int.not_lt.mpr hroll) }

/- The next append is about to start: if its file is already too large, the previous one ended
in the second in which the file was opened. -/
def SizeChecked (cfg : LogFileConfig) (done : List LogCall) (s : LogFile) : Prop :=
  ∃ f ∈ s.file, cfg.rollSize < f.contents.length →
    ∃ prev ∈ done.getLast?, prev.roll = f.openTime

theorem run_inv (opened : Int) (hroll : 0 ≤ cfg.rollSize) (calls : List LogCall)
    (h : Inv cfg done now s f) (hclock : Nondecreasing now calls)
    (haccept : (machine cfg io opened).Along (Accepts io) s calls) :
    ∃ t g last, (machine cfg io opened).run s calls = some (.ok t) ∧
      Inv cfg (done ++ calls) last t g ∧
      ∀ pre suf, calls = pre ++ suf →
        ∃ u, (machine cfg io opened).run s pre = some (.ok u) ∧
          SizeChecked cfg (done ++ pre) u := by
  induction calls generalizing s f done now with
  | nil =>
    refine ⟨s, f, now, rfl, by rw [List.append_nil]; exact h, ?_⟩
    intro pre suf heq
    obtain ⟨rfl, -⟩ := List.append_eq_nil_iff.mp heq.symm
    exact ⟨s, rfl, f, h.file, by rw [List.append_nil]; exact h.full⟩
  | cons call calls ih =>
    obtain ⟨hnow, hreadings⟩ := List.pairwise_cons.mp hclock
    simp only [List.flatMap_cons, List.cons_append, List.nil_append] at hnow hreadings
    obtain ⟨hstart, hrest⟩ := List.pairwise_cons.mp hreadings
    obtain ⟨hcheck, hrest⟩ := List.pairwise_cons.mp hrest
    obtain ⟨t, g, ht, hinv⟩ := appendUnlocked_inv h hroll (hnow _ List.mem_cons_self)
      (hstart _ List.mem_cons_self) (hcheck _ List.mem_cons_self) haccept.1
    have hstep : (machine cfg io opened).step s call = some (.ok t) := congrArg some ht
    obtain ⟨u, k, last, hu, hlast, hsizes⟩ := ih hinv hrest (haccept.2 t hstep)
    refine ⟨u, k, last, by simp only [Machine.run, hstep, hu], ?_, ?_⟩
    · rw [List.append_assoc] at hlast
      exact hlast
    · intro pre suf heq
      cases pre with
      | nil => exact ⟨s, rfl, f, h.file, by rw [List.append_nil]; exact h.full⟩
      | cons c pre =>
        obtain ⟨rfl, htail⟩ := List.cons.inj heq
        obtain ⟨v, hv, hsize⟩ := hsizes pre suf htail
        rw [List.append_assoc] at hsize
        exact ⟨v, by simp only [Machine.run, hstep, hv], hsize⟩

/-- The files, in the order they were opened, hold the lines in the order of the appends, each
in one file. No two files are opened in the same second or have the same name. A file gets no
line past its size unless the line before ended in the second of its opening, and at most
`checkEveryN_` lines after its period. -/
theorem logFile_rolls (cfg : LogFileConfig) (io : Stdio) (now : Int) (calls : List LogCall)
    (hroll : 0 ≤ cfg.rollSize) (hcheck : 1 ≤ cfg.checkEveryN) (hnow : 0 < now)
    (hclock : Nondecreasing now calls)
    (haccept : (machine cfg io now).Along (Accepts io) (machine cfg io now).init calls) :
    ∃ s, (machine cfg io now).run (machine cfg io now).init calls = some (.ok s) ∧
      s.files.flatMap AppendFile.lines = calls.map (fun call => (call.start, call.logline)) ∧
      (∀ f ∈ s.files, f.contents = (f.lines.map Prod.snd).flatten) ∧
      s.files.Pairwise (fun f g => f.openTime < g.openTime) ∧
      (∀ f ∈ s.files, f.filename = getLogFileName cfg f.openTime) ∧
      (s.files.map AppendFile.filename).Nodup ∧
      (∀ f ∈ s.files, (f.late : Int) ≤ cfg.checkEveryN) ∧
      ∀ pre call suf, calls = pre ++ call :: suf →
        ∃ u, (machine cfg io now).run (machine cfg io now).init pre = some (.ok u) ∧
          SizeChecked cfg pre u := by
  obtain ⟨s, f, last, hrun, hinv, hsizes⟩ :=
    run_inv now hroll calls (inv_new hroll hcheck hnow) hclock haccept
  refine ⟨s, hrun, hinv.lines, hinv.contents, hinv.increasing, hinv.filename, ?_, ?_, ?_⟩
  · rw [List.Nodup, List.pairwise_map]
    refine hinv.increasing.imp_of_mem ?_
    intro g k hg hk hlt hname
    rw [hinv.filename g hg, hinv.filename k hk] at hname
    have heq := getLogFileName_inj (hinv.positive g hg) (hinv.positive k hk) hname
    omega
  · rw [hinv.files_eq]
    have hopen := hinv.late_open
    have hcount := hinv.count
    exact forall_files_concat hinv.late_closed (by omega)
  · intro pre call suf heq
    exact hsizes pre (call :: suf) heq

/- A stream that accepts what the file has room for. -/
def roomyStdio : Stdio where
  fwrite contents data := if contents.length + data.length < 2 ^ 63 then data.length else 0
  fwrite_le := by
    intro contents data
    split
    · exact Nat.le_refl _
    · exact Nat.zero_le _
  off_max := by
    intro contents data hpos
    split at hpos
    next h => rw [if_pos h]; exact h
    · cases hpos

def smallConfig : LogFileConfig := ⟨['l'], ['h'], 7, 2, 3, 2⟩

/- The second line passes the size in the second of the opening, so that the third one goes to
the same file; the check after the fourth finds the next day. -/
def twoDays : List LogCall :=
  [⟨[1], 5, 5, 5⟩, ⟨[2, 3], 5, 5, 5⟩, ⟨[4], 5, 6, 6⟩, ⟨[5], 86400, 86400, 86400⟩,
    ⟨[6], 86401, 86401, 86402⟩]

theorem logFile_rolls_twoDays :
    ∃ s, (machine smallConfig roomyStdio 5).run
        (machine smallConfig roomyStdio 5).init twoDays = some (.ok s) ∧
      (s.files.map AppendFile.filename).Nodup ∧
      s.files.map AppendFile.contents = [[1, 2, 3, 4], [5], [6]] := by
  obtain ⟨s, hs, -, -, -, -, hnodup, -⟩ := logFile_rolls smallConfig roomyStdio 5 twoDays
    (by decide) (by decide) (by decide) (by decide) (by decide +kernel)
  have hrun : (machine smallConfig roomyStdio 5).runsTo
      (machine smallConfig roomyStdio 5).init twoDays
      (fun t => decide (t.files.map AppendFile.contents = [[1, 2, 3, 4], [5], [6]])) = true := by
    decide +kernel
  obtain ⟨t, ht, hfiles⟩ := Machine.exists_of_runsTo hrun
  cases hs.symm.trans ht
  exact ⟨s, hs, hnodup, of_decide_eq_true hfiles⟩

end LogFile

end TstMuduo.Base
