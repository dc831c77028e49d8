import TstMuduo.Base.TimeZone
import TstMuduo.Lib.Endian
import TstMuduo.Lib.FileReader

/-!
# Reading a zone file (muduo/base/TimeZone.cc: `File`, `readTimeZoneFile`)

A zone file is its bytes, or nothing where `fopen` fails. What has been read into the data
stays there when a later read throws.
-/

namespace TstMuduo.Base
open TstMuduo.Lib

inductive ReadError
  /-- A `std::logic_error`, which `readTimeZoneFile` catches. -/
  | logicError (what : String)
  /-- An access outside a vector, or an array of negative length. -/
  | undefined
  deriving DecidableEq, Repr

namespace Data

def addLocaltimes (data : Data) (ls : List Localtime) : Data :=
  { data with localtimes := data.localtimes ++ ls }

def addTransitions (data : Data) (ts : List Transition) : Data :=
  { data with transitions := data.transitions ++ ts }

theorem addLocaltimes_nil (data : Data) : data.addLocaltimes [] = data := by
  rw [addLocaltimes, List.append_nil]

theorem addLocaltimes_add (data : Data) (ls ls' : List Localtime) :
    (data.addLocaltimes ls).addLocaltimes ls' = data.addLocaltimes (ls ++ ls') := by
  simp only [addLocaltimes, List.append_assoc]

theorem addTransitions_nil (data : Data) : data.addTransitions [] = data := by
  rw [addTransitions, List.append_nil]

theorem addTransitions_add (data : Data) (ts ts' : List Transition) :
    (data.addTransitions ts).addTransitions ts' = data.addTransitions (ts ++ ts') := by
  simp only [addTransitions, List.append_assoc]

end Data

abbrev ZoneReader := FileReader ReadError Data

namespace ZoneReader

/- The reads of `File`: `n` bytes, or a throw. -/
def fread {α : Type} (n : Nat) (what : String) (value : List UInt8 → α) : ZoneReader α :=
  fun (file, data) =>
    if file.length < n then .error (.logicError what) ([], data)
    else .ok (value (file.take n)) (file.drop n, data)

/- `readBytes` (`TimeZone.cc:118`), whose buffer is `char buf[n]`. -/
def readBytes (n : Int) : ZoneReader (List UInt8) :=
  if n < 0 then throw .undefined else fread n.toNat "no enough data" id

/- `readInt32` (`TimeZone.cc:127`): `be32toh` of the four bytes. -/
def readInt32 (host : Endian) : ZoneReader Int :=
  fread 4 "bad int32_t data" fun bytes => (host.htobe 4 (host.ofObjectBytes 4 bytes)).toInt

/- `readUInt8` (`TimeZone.cc:136`). -/
def readUInt8 : ZoneReader Nat := fread 1 "bad uint8_t data" leVal

/-- The counts of the header. -/
structure Header where
  isgmtcnt : Int
  isstdcnt : Int
  leapcnt : Int
  timecnt : Int
  typecnt : Int
  charcnt : Int

def readCounts (host : Endian) : ZoneReader Header := do
  let _version ← readBytes 1
  let _unused ← readBytes 15
  let isgmtcnt ← readInt32 host
  let isstdcnt ← readInt32 host
  let leapcnt ← readInt32 host
  let timecnt ← readInt32 host
  let typecnt ← readInt32 host
  let charcnt ← readInt32 host
  return ⟨isgmtcnt, isstdcnt, leapcnt, timecnt, typecnt, charcnt⟩

/- "TZif". -/
def magic : List UInt8 := [84, 90, 105, 102]

def readHeader (host : Endian) : ZoneReader Header := do
  let head ← readBytes 4
  if head = magic then readCounts host else throw (.logicError "bad head")

/- `trans.reserve(timecnt)`: a negative count is a huge `size_t`. -/
def reserve (n : Int) : ZoneReader Unit :=
  if n < 0 then throw (.logicError "vector::reserve") else pure ()

/- The three reads for one `Localtime`. -/
def readLocaltime (host : Endian) : ZoneReader Localtime := do
  let gmtoff ← readInt32 host
  let isdst ← readUInt8
  let abbrind ← readUInt8
  return ⟨gmtoff, isdst ≠ 0, abbrind⟩

/- `data->localtimes.push_back`. -/
def pushLocaltime (l : Localtime) : ZoneReader Unit := fun (file, data) =>
  .ok () (file, data.addLocaltimes [l])

def readLocaltimes (host : Endian) : Nat → ZoneReader Unit
  | 0 => pure ()
  | n + 1 => do
    let l ← readLocaltime host
    pushLocaltime l
    readLocaltimes host n

/- One turn of the loop at `TimeZone.cc:189`; the index is not checked. -/
def pushTransition (time : Int) (localIdx : Nat) : ZoneReader Unit := fun (file, data) =>
  match data.localtimes[localIdx]? with
  | none => .error .undefined (file, data)
  | some l => .ok () (file, data.addTransitions [⟨time, time + l.gmtOffset, localIdx⟩])

def pushTransitions : List (Int × Nat) → ZoneReader Unit
  | [] => pure ()
  | (time, localIdx) :: rest => do
    pushTransition time localIdx
    pushTransitions rest

def setAbbreviation (bytes : List UInt8) : ZoneReader Unit := fun (file, data) =>
  .ok () (file, { data with abbreviation := bytes })

def readTables (host : Endian) (h : Header) (trans : List Int) (localtimes : List Nat) :
    ZoneReader Unit := do
  readLocaltimes host h.typecnt.toNat
  pushTransitions (trans.zip localtimes)
  let abbreviation ← readBytes h.charcnt
  setAbbreviation abbreviation

def readBody (host : Endian) (h : Header) : ZoneReader Unit := do
  reserve h.timecnt
  let trans ← FileReader.times (readInt32 host) h.timecnt.toNat
  let localtimes ← FileReader.times readUInt8 h.timecnt.toNat
  readTables host h trans localtimes

/- The `try` block of `readTimeZoneFile`. -/
def readZone (host : Endian) : ZoneReader Unit := do
  let h ← readHeader host
  readBody host h

/- The data after the block and its `catch (logic_error& e)`. -/
def caught : EStateM.Result ReadError (List UInt8 × Data) Unit → Option Data
  | .ok _ (_, data) => some data
  | .error (.logicError _) (_, data) => some data
  | .error .undefined _ => none

end ZoneReader

/- `readTimeZoneFile` (`TimeZone.cc:148`). -/
def readTimeZoneFile (host : Endian) (zonefile : Option (List UInt8)) (data : Data) :
    Option (Bool × Data) :=
  match zonefile with
  | none => some (true, data)
  | some file => do
    let data ← ZoneReader.caught (ZoneReader.readZone host (file, data))
    return (true, data)

/- `TimeZone::TimeZone(const char* zonefile)` (`TimeZone.cc:256`). -/
def TimeZone.ofFile (host : Endian) (zonefile : Option (List UInt8)) : Option TimeZone := do
  let (done, data) ← readTimeZoneFile host zonefile ⟨[], [], []⟩
  return if done then some data else none

/-! ### The reads -/

def be32 (file : List UInt8) : Int := (BitVec.ofNat (8 * 4) (leVal (file.take 4).reverse)).toInt

namespace ZoneReader
open FileReader

def Caught (e : ReadError) : Prop := ∃ what, e = .logicError what

theorem fread_takes {α : Type} (n : Nat) (what : String) (value : List UInt8 → α) :
    Takes Caught (fread n what value) n fun file => value (file.take n) := by
  refine ⟨?_, ?_⟩
  · intro file data h
    exact if_neg (Nat.not_lt.mpr h)
  · intro file data h
    exact ⟨_, [], ⟨what, rfl⟩, if_pos h⟩

theorem readBytes_takes (n : Nat) : Takes Caught (readBytes n) n fun file => file.take n := by
  have hn : ¬ (n : Int) < 0 := by omega
  unfold readBytes
  rw [if_neg hn]
  exact fread_takes n _ id

theorem readInt32_takes (host : Endian) : Takes Caught (readInt32 host) 4 be32 := by
  have h := fread_takes 4 "bad int32_t data"
    fun bytes => (host.htobe 4 (host.ofObjectBytes 4 bytes)).toInt
  refine ⟨?_, h.throws⟩
  intro file data hlen
  have htake : (file.take 4).length = 4 := by
    rw [List.length_take]
    omega
  have hval := Endian.htobe_ofObjectBytes host 4 (file.take 4) htake
  rw [be32, ← hval]
  exact h.enough data hlen

theorem readUInt8_takes : Takes Caught readUInt8 1 fun file => leVal (file.take 1) :=
  fread_takes 1 _ leVal

theorem readCounts_takes (host : Endian) :
    Takes Caught (readCounts host) 40 fun file =>
      ⟨be32 (file.drop 16), be32 (file.drop 20), be32 (file.drop 24), be32 (file.drop 28),
        be32 (file.drop 32), be32 (file.drop 36)⟩ := by
  have h32 := readInt32_takes host
  have hchain := (readBytes_takes 1).bind fun _ => (readBytes_takes 15).bind fun _ =>
    h32.bind fun a => h32.bind fun b => h32.bind fun c => h32.bind fun d => h32.bind fun e =>
      h32.bind fun f => takes_pure Caught (Header.mk a b c d e f)
  apply hchain.congr
  · rfl
  · intro file
    simp only [List.drop_drop, Nat.reduceAdd]

/-- The counts, for a file that has them. -/
def header (file : List UInt8) : Header :=
  ⟨be32 (file.drop 20), be32 (file.drop 24), be32 (file.drop 28), be32 (file.drop 32),
    be32 (file.drop 36), be32 (file.drop 40)⟩

theorem readHeader_ok (host : Endian) {file : List UInt8} (data : Data) (hlen : 44 ≤ file.length)
    (hmagic : file.take 4 = magic) :
    readHeader host (file, data) = .ok (header file) (file.drop 44, data) := by
  have h4 : readBytes 4 (file, data) = .ok (file.take 4) (file.drop 4, data) :=
    (readBytes_takes 4).enough data (by omega)
  have hrest : 40 ≤ (file.drop 4).length := by
    rw [List.length_drop]
    omega
  have hcounts := (readCounts_takes host).enough data hrest
  simp only [List.drop_drop, Nat.reduceAdd] at hcounts
  unfold readHeader
  refine (bind_ok h4).trans ?_
  rw [if_pos hmagic]
  exact hcounts

theorem readHeader_throws (host : Endian) {file : List UInt8} (data : Data)
    (h : file.length < 44 ∨ file.take 4 ≠ magic) :
    ∃ e rest, Caught e ∧ readHeader host (file, data) = .error e (rest, data) := by
  unfold readHeader
  by_cases hlen : 4 ≤ file.length
  · have h4 : readBytes 4 (file, data) = .ok (file.take 4) (file.drop 4, data) :=
      (readBytes_takes 4).enough data hlen
    by_cases hmagic : file.take 4 = magic
    · have hshort : (file.drop 4).length < 40 := by
        rw [List.length_drop]
        rcases h with h | h
        · omega
        · exact absurd hmagic h
      obtain ⟨e, rest, he, hcounts⟩ := (readCounts_takes host).throws data hshort
      refine ⟨e, rest, he, (bind_ok h4).trans ?_⟩
      rw [if_pos hmagic]
      exact hcounts
    · refine ⟨_, file.drop 4, ⟨"bad head", rfl⟩, (bind_ok h4).trans ?_⟩
      rw [if_neg hmagic]
      rfl
  · obtain ⟨e, rest, he, hm⟩ := (readBytes_takes 4).throws data (Nat.lt_of_not_le hlen)
    exact ⟨e, rest, he, bind_error hm⟩

/-! ### The body -/

def localtimeAt (file : List UInt8) : Localtime :=
  ⟨be32 file, leVal ((file.drop 4).take 1) ≠ 0, leVal ((file.drop 5).take 1)⟩

theorem readLocaltime_takes (host : Endian) : Takes Caught (readLocaltime host) 6 localtimeAt := by
  have hchain := (readInt32_takes host).bind fun a => readUInt8_takes.bind fun b =>
    readUInt8_takes.bind fun c => takes_pure Caught (Localtime.mk a (b ≠ 0) c)
  apply hchain.congr
  · rfl
  · intro file
    simp only [localtimeAt, List.drop_drop, Nat.reduceAdd]

theorem readLocaltimes_succ {host : Endian} {n : Nat} {file : List UInt8} {data : Data}
    (h : 6 ≤ file.length) : readLocaltimes host (n + 1) (file, data) =
      readLocaltimes host n (file.drop 6, data.addLocaltimes [localtimeAt file]) :=
  (bind_ok ((readLocaltime_takes host).enough data h)).trans (bind_ok rfl)

theorem readLocaltimes_ok (host : Endian) {n : Nat} {file : List UInt8} (data : Data)
    (h : 6 * n ≤ file.length) :
    ∃ ls : List Localtime, ls.length = n ∧
      readLocaltimes host n (file, data) = .ok () (file.drop (6 * n), data.addLocaltimes ls) := by
  induction n generalizing file data with
  | zero =>
    refine ⟨[], rfl, ?_⟩
    rw [data.addLocaltimes_nil]
    rfl
  | succ n ih =>
    have hrest : 6 * n ≤ (file.drop 6).length := by
      rw [List.length_drop]
      omega
    have hdrop : 6 + 6 * n = 6 * (n + 1) := by omega
    obtain ⟨ls, hlen, hls⟩ := ih (data.addLocaltimes [localtimeAt file]) hrest
    refine ⟨localtimeAt file :: ls, congrArg (· + 1) hlen, ?_⟩
    rw [readLocaltimes_succ (by omega), hls, List.drop_drop, hdrop, Data.addLocaltimes_add]
    rfl

theorem readLocaltimes_throws (host : Endian) {n : Nat} {file : List UInt8} (data : Data)
    (h : file.length < 6 * n) :
    ∃ (ls : List Localtime) (e : ReadError) (rest : List UInt8), ls.length = file.length / 6 ∧
      Caught e ∧ readLocaltimes host n (file, data) = .error e (rest, data.addLocaltimes ls) := by
  induction n generalizing file data with
  | zero => omega
  | succ n ih =>
    by_cases h6 : 6 ≤ file.length
    · have hdrop : (file.drop 6).length = file.length - 6 := List.length_drop
      have hrest : (file.drop 6).length < 6 * n := by omega
      obtain ⟨ls, e, rest, hlen, he, hls⟩ :=
        ih (data.addLocaltimes [localtimeAt file]) hrest
      refine ⟨localtimeAt file :: ls, e, rest, ?_, he, ?_⟩
      · rw [List.length_cons, hlen, hdrop]
        omega
      · rw [readLocaltimes_succ h6, hls, Data.addLocaltimes_add]
        rfl
    · obtain ⟨e, rest, he, hm⟩ := (readLocaltime_takes host).throws data (Nat.lt_of_not_le h6)
      refine ⟨[], e, rest, ?_, he, ?_⟩
      · rw [List.length_nil]
        omega
      · rw [data.addLocaltimes_nil]
        exact bind_error hm

/-- The index of the transition is the one of an entry, and its local time is computed with
that entry. -/
def Entered (ls : List Localtime) (t : Transition) : Prop :=
  ∃ l, ls[t.localtimeIdx]? = some l ∧ t.localtime = t.gmttime + l.gmtOffset

theorem Entered.lt {ls : List Localtime} {t : Transition} (h : Entered ls t) :
    t.localtimeIdx < ls.length := by
  obtain ⟨l, hl, -⟩ := h
  exact (List.getElem?_eq_some_iff.mp hl).1

theorem pushTransition_ok {time : Int} {idx : Nat} {l : Localtime} {file : List UInt8} {data : Data}
    (h : data.localtimes[idx]? = some l) : pushTransition time idx (file, data) =
      .ok () (file, data.addTransitions [⟨time, time + l.gmtOffset, idx⟩]) := by
  unfold pushTransition
  dsimp only
  rw [h]

theorem pushTransitions_ok {ps : List (Int × Nat)} (file : List UInt8) (data : Data)
    (h : ∀ p ∈ ps, p.2 < data.localtimes.length) :
    ∃ ts : List Transition, (∀ t ∈ ts, Entered data.localtimes t) ∧
      pushTransitions ps (file, data) = .ok () (file, data.addTransitions ts) := by
  induction ps generalizing data with
  | nil =>
    refine ⟨[], fun t ht => absurd ht List.not_mem_nil, ?_⟩
    rw [data.addTransitions_nil]
    rfl
  | cons p ps ih =>
    obtain ⟨time, idx⟩ := p
    obtain ⟨l, hl⟩ : ∃ l, data.localtimes[idx]? = some l :=
      ⟨_, List.getElem?_eq_getElem (h (time, idx) List.mem_cons_self)⟩
    obtain ⟨ts, hts, hrun⟩ := ih (data.addTransitions [⟨time, time + l.gmtOffset, idx⟩])
      fun p hp => h p (List.mem_cons_of_mem _ hp)
    refine ⟨⟨time, time + l.gmtOffset, idx⟩ :: ts, ?_, ?_⟩
    · intro t ht
      rcases List.mem_cons.mp ht with rfl | ht
      · exact ⟨_, hl, rfl⟩
      · exact hts t ht
    · refine (bind_ok (pushTransition_ok hl)).trans ?_
      rw [hrun, Data.addTransitions_add]
      rfl

theorem pushTransitions_undefined {ps : List (Int × Nat)} (file : List UInt8) (data : Data)
    (h : ¬ ∀ p ∈ ps, p.2 < data.localtimes.length) :
    ∃ s, pushTransitions ps (file, data) = .error .undefined s := by
  induction ps generalizing data with
  | nil => exact absurd (fun p hp => absurd hp List.not_mem_nil) h
  | cons p ps ih =>
    obtain ⟨time, idx⟩ := p
    cases hl : data.localtimes[idx]? with
    | none =>
      have hpush : pushTransition time idx (file, data) = .error .undefined (file, data) := by
        unfold pushTransition
        dsimp only
        rw [hl]
      exact ⟨_, bind_error hpush⟩
    | some l =>
      have hidx : idx < data.localtimes.length := (List.getElem?_eq_some_iff.mp hl).1
      have hrest : ¬ ∀ p ∈ ps, p.2 < data.localtimes.length := by
        intro hall
        apply h
        intro p hp
        rcases List.mem_cons.mp hp with rfl | hp
        · exact hidx
        · exact hall p hp
      obtain ⟨s, hs⟩ := ih (data.addTransitions [⟨time, time + l.gmtOffset, idx⟩]) hrest
      exact ⟨s, (bind_ok (pushTransition_ok hl)).trans hs⟩

theorem chunks_bytes {n : Nat} {file : List UInt8} (h : n ≤ file.length) :
    chunks 1 (fun file => leVal (file.take 1)) n file = (file.take n).map UInt8.toNat := by
  induction n generalizing file with
  | zero => rfl
  | succ n ih =>
    cases file with
    | nil => exact absurd h (Nat.not_succ_le_zero n)
    | cons b file =>
      have hrest : n ≤ file.length := Nat.le_of_succ_le_succ h
      change leVal [b] :: chunks 1 _ n file = _
      rw [ih hrest]
      rfl

def indices (n : Nat) (file : List UInt8) : List UInt8 := (file.drop (4 * n)).take n

section
variable (host : Endian) {h : Header} {file : List UInt8} (data : Data)

theorem reserve_ok (hcnt : 0 ≤ h.timecnt) :
    reserve h.timecnt (file, data) = .ok () (file, data) := by
  unfold reserve
  rw [if_neg (by omega)]
  rfl

theorem readBody_throws (hshort : h.timecnt < 0 ∨ file.length < 5 * h.timecnt.toNat) :
    ∃ e rest, Caught e ∧ readBody host h (file, data) = .error e (rest, data) := by
  unfold readBody
  by_cases hneg : h.timecnt < 0
  · have hreserve : reserve h.timecnt (file, data) =
        .error (.logicError "vector::reserve") (file, data) := by
      unfold reserve
      rw [if_pos hneg]
      rfl
    exact ⟨_, file, ⟨_, rfl⟩, bind_error hreserve⟩
  · have hlen : file.length < 4 * h.timecnt.toNat + 1 * h.timecnt.toNat := by omega
    have htimes := (readInt32_takes host).times h.timecnt.toNat
    by_cases h4 : 4 * h.timecnt.toNat ≤ file.length
    · have hrest : (file.drop (4 * h.timecnt.toNat)).length < 1 * h.timecnt.toNat := by
        rw [List.length_drop]
        omega
      obtain ⟨e, rest, he, hm⟩ := (readUInt8_takes.times h.timecnt.toNat).throws data hrest
      exact ⟨e, rest, he, (bind_ok (reserve_ok data (by omega))).trans
        ((bind_ok (htimes.enough data h4)).trans (bind_error hm))⟩
    · obtain ⟨e, rest, he, hm⟩ := htimes.throws data (Nat.lt_of_not_le h4)
      exact ⟨e, rest, he, (bind_ok (reserve_ok data (by omega))).trans (bind_error hm)⟩

theorem readBody_tables (hcnt : 0 ≤ h.timecnt) (hlen : 5 * h.timecnt.toNat ≤ file.length) :
    ∃ trans localtimes, (trans.zip localtimes).map Prod.snd =
        (indices h.timecnt.toNat file).map UInt8.toNat ∧
      readBody host h (file, data) =
        readTables host h trans localtimes (file.drop (5 * h.timecnt.toNat), data) := by
  have hrest : 1 * h.timecnt.toNat ≤ (file.drop (4 * h.timecnt.toNat)).length := by
    rw [List.length_drop]
    omega
  have htimes := ((readInt32_takes host).times h.timecnt.toNat).enough data
    (show 4 * h.timecnt.toNat ≤ file.length by omega)
  have hidx := (readUInt8_takes.times h.timecnt.toNat).enough data hrest
  rw [List.drop_drop, show 4 * h.timecnt.toNat + 1 * h.timecnt.toNat = 5 * h.timecnt.toNat by omega,
    chunks_bytes (by omega)] at hidx
  refine ⟨chunks 4 be32 h.timecnt.toNat file, (indices h.timecnt.toNat file).map UInt8.toNat,
    ?_, ?_⟩
  · apply List.map_snd_zip
    rw [length_chunks, List.length_map, indices, List.length_take]
    omega
  · exact (bind_ok (reserve_ok data hcnt)).trans ((bind_ok htimes).trans (bind_ok hidx))

theorem readTables_throws (trans : List Int) (localtimes : List Nat)
    (hlen : file.length < 6 * h.typecnt.toNat) :
    ∃ (ls : List Localtime) (e : ReadError) (rest : List UInt8), ls.length = file.length / 6 ∧
      Caught e ∧ readTables host h trans localtimes (file, data) =
        .error e (rest, data.addLocaltimes ls) := by
  obtain ⟨ls, e, rest, hls, he, hm⟩ := readLocaltimes_throws host data hlen
  exact ⟨ls, e, rest, hls, he, bind_error hm⟩

variable {trans : List Int} {localtimes : List Nat}

theorem readTables_undefined (hlen : 6 * h.typecnt.toNat ≤ file.length)
    (hdata : data.localtimes = [])
    (hbad : (¬ ∀ p ∈ trans.zip localtimes, p.2 < h.typecnt.toNat) ∨ h.charcnt < 0) :
    ∃ s, readTables host h trans localtimes (file, data) = .error .undefined s := by
  obtain ⟨ls, hls, hread⟩ := readLocaltimes_ok host data hlen
  have htable : (data.addLocaltimes ls).localtimes.length = h.typecnt.toNat := by
    rw [Data.addLocaltimes, hdata, List.nil_append, hls]
  by_cases hidx : ∀ p ∈ trans.zip localtimes, p.2 < (data.addLocaltimes ls).localtimes.length
  · obtain ⟨ts, -, hpush⟩ := pushTransitions_ok (file.drop (6 * h.typecnt.toNat)) _ hidx
    rw [htable] at hidx
    have hneg : h.charcnt < 0 := hbad.resolve_left fun hnot => hnot hidx
    have hbytes : ∀ s, readBytes h.charcnt s = .error .undefined s := by
      intro s
      unfold readBytes
      rw [if_pos hneg]
      rfl
    exact ⟨_, (bind_ok hread).trans ((bind_ok hpush).trans (bind_error (hbytes _)))⟩
  · obtain ⟨s, hs⟩ := pushTransitions_undefined (file.drop (6 * h.typecnt.toNat)) _ hidx
    exact ⟨s, (bind_ok hread).trans (bind_error hs)⟩

theorem caught_abbreviation (file : List UInt8) (hchar : 0 ≤ h.charcnt) : ∃ data',
    caught ((readBytes h.charcnt >>= setAbbreviation) (file, data)) = some data' ∧
      data'.localtimes = data.localtimes ∧ data'.transitions = data.transitions := by
  have hbytes := readBytes_takes h.charcnt.toNat
  rw [Int.toNat_of_nonneg hchar] at hbytes
  by_cases hend : h.charcnt.toNat ≤ file.length
  · have hrun := bind_ok (k := setAbbreviation) (hbytes.enough data hend)
    exact ⟨_, congrArg caught hrun, rfl, rfl⟩
  · obtain ⟨e, rest, ⟨what, rfl⟩, hm⟩ := hbytes.throws data (Nat.lt_of_not_le hend)
    exact ⟨_, congrArg caught (bind_error (k := setAbbreviation) hm), rfl, rfl⟩

theorem readTables_ok (hlen : 6 * h.typecnt.toNat ≤ file.length) (hdata : data = ⟨[], [], []⟩)
    (hidx : ∀ p ∈ trans.zip localtimes, p.2 < h.typecnt.toNat) (hchar : 0 ≤ h.charcnt) :
    ∃ data', caught (readTables host h trans localtimes (file, data)) = some data' ∧
      data'.localtimes.length = h.typecnt.toNat ∧
      ∀ t ∈ data'.transitions, Entered data'.localtimes t := by
  obtain ⟨ls, hls, hread⟩ := readLocaltimes_ok host data hlen
  have htable : (data.addLocaltimes ls).localtimes = ls := by rw [hdata]; rfl
  rw [← hls, ← htable] at hidx
  obtain ⟨ts, hts, hpush⟩ := pushTransitions_ok (file.drop (6 * h.typecnt.toNat)) _ hidx
  obtain ⟨data', hcaught, hl, ht⟩ := caught_abbreviation
    ((data.addLocaltimes ls).addTransitions ts) (file.drop (6 * h.typecnt.toNat)) hchar
  have hrun : readTables host h trans localtimes (file, data) = _ :=
    (bind_ok hread).trans (bind_ok hpush)
  refine ⟨data', ?_, ?_, ?_⟩
  · rw [hrun]
    exact hcaught
  · rw [hl]
    exact (congrArg List.length htable).trans hls
  · rw [hl, ht]
    intro t hmem
    apply hts t
    rw [hdata] at hmem
    exact hmem

end

theorem caught_error {e : ReadError} {rest : List UInt8} {data : Data} (he : Caught e) :
    caught (.error e (rest, data)) = some data := by
  obtain ⟨what, rfl⟩ := he
  rfl

end ZoneReader

/-! ### The files that are read safely -/

open ZoneReader FileReader

/-- Every search finds an entry, at whatever time. -/
def Data.Safe (data : Data) : Prop :=
  data.localtimes ≠ [] ∧ (∀ t ∈ data.transitions, t.localtimeIdx < data.localtimes.length) ∧
    ∀ sentry comp, ∃ l, findLocaltime data sentry comp = some l

theorem Data.safe {data : Data} (hl : data.localtimes ≠ [])
    (ht : ∀ t ∈ data.transitions, t.localtimeIdx < data.localtimes.length) : data.Safe := by
  refine ⟨hl, ht, ?_⟩
  intro sentry comp
  rcases findLocaltime_cases data sentry comp with ⟨-, hfind⟩ | ⟨k, t, hk, -, -, hfind⟩
  · exact ⟨data.localtimes.head hl, hfind.trans (List.head?_eq_some_head hl)⟩
  · have hidx := ht t (List.mem_of_getElem? hk)
    exact ⟨_, hfind.trans (List.getElem?_eq_getElem hidx)⟩

/-- The constructor ends well: the zone is invalid, or safe to search. -/
def Validated (host : Endian) (zonefile : Option (List UInt8)) : Prop :=
  ∃ zone : TimeZone, TimeZone.ofFile host zonefile = some zone ∧
    (zone.valid = false ∨ ∃ data, zone = some data ∧ data.Safe)

/-- The file has no header, or ends before its entries. -/
def EndsEarly (bytes : List UInt8) : Prop :=
  bytes.length < 44 ∨ bytes.take 4 ≠ magic ∨ (header bytes).timecnt < 0 ∨
    bytes.length < 44 + 5 * (header bytes).timecnt.toNat

def TablesGood (bytes : List UInt8) : Prop :=
  (∀ b ∈ indices (header bytes).timecnt.toNat (bytes.drop 44),
    b.toNat < (header bytes).typecnt.toNat) ∧ 0 ≤ (header bytes).charcnt

/-- The file has a header, the transitions and at least one entry. Where it has all the
entries, every index is the index of one, and the number of characters is not negative. -/
def Readable (bytes : List UInt8) : Prop :=
  44 ≤ bytes.length ∧ bytes.take 4 = magic ∧
    0 ≤ (header bytes).timecnt ∧ 1 ≤ (header bytes).typecnt ∧
    44 + 5 * (header bytes).timecnt.toNat + 6 ≤ bytes.length ∧
    (44 + 5 * (header bytes).timecnt.toNat + 6 * (header bytes).typecnt.toNat ≤ bytes.length →
      TablesGood bytes)

theorem ofFile_some (host : Endian) (bytes : List UInt8) :
    TimeZone.ofFile host (some bytes) =
      (caught (readZone host (bytes, ⟨[], [], []⟩))).map some := by
  simp only [TimeZone.ofFile, readTimeZoneFile]
  cases caught (readZone host (bytes, ⟨[], [], []⟩)) with
  | none => rfl
  | some data => rfl

theorem validated_iff_caught {host : Endian} {bytes : List UInt8} :
    Validated host (some bytes) ↔
      ∃ data, caught (readZone host (bytes, ⟨[], [], []⟩)) = some data ∧ data.Safe := by
  unfold Validated
  rw [ofFile_some]
  refine ⟨?_, ?_⟩
  · intro ⟨zone, hzone, hsafe⟩
    obtain ⟨data, hdata, rfl⟩ := Option.map_eq_some_iff.mp hzone
    rcases hsafe with hinvalid | ⟨data', heq, hsafe⟩
    · cases hinvalid
    · cases heq
      exact ⟨data, hdata, hsafe⟩
  · intro ⟨data, hdata, hsafe⟩
    exact ⟨some data, Option.map_eq_some_iff.mpr ⟨data, hdata, rfl⟩, Or.inr ⟨data, rfl, hsafe⟩⟩

theorem not_safe_empty : ¬ (⟨[], [], []⟩ : Data).Safe := fun h => h.1 rfl

theorem not_validated_missing (host : Endian) : ¬ Validated host none := by
  intro ⟨zone, hzone, hsafe⟩
  cases hzone
  rcases hsafe with hinvalid | ⟨data, hdata, hsafe⟩
  · cases hinvalid
  · cases hdata
    exact not_safe_empty hsafe

section
variable {host : Endian} {bytes : List UInt8}

theorem caught_early (h : EndsEarly bytes) :
    caught (readZone host (bytes, ⟨[], [], []⟩)) = some ⟨[], [], []⟩ := by
  unfold readZone
  by_cases hhead : 44 ≤ bytes.length ∧ bytes.take 4 = magic
  · have hheader := readHeader_ok host ⟨[], [], []⟩ hhead.1 hhead.2
    have hshort : (header bytes).timecnt < 0 ∨
        (bytes.drop 44).length < 5 * (header bytes).timecnt.toNat := by
      rw [List.length_drop]
      rcases h with h | h | h | h
      · omega
      · exact absurd hhead.2 h
      · exact Or.inl h
      · omega
    obtain ⟨e, rest, he, hbody⟩ := readBody_throws host ⟨[], [], []⟩ hshort
    exact (congrArg caught ((bind_ok hheader).trans hbody)).trans (caught_error he)
  · have hbad : bytes.length < 44 ∨ bytes.take 4 ≠ magic := by
      by_cases hlen : 44 ≤ bytes.length
      · exact Or.inr fun hm => hhead ⟨hlen, hm⟩
      · exact Or.inl (Nat.lt_of_not_le hlen)
    obtain ⟨e, rest, he, hheader⟩ := readHeader_throws host ⟨[], [], []⟩ hbad
    exact (congrArg caught (bind_error hheader)).trans (caught_error he)

theorem readZone_tables (host : Endian)
    (hlen : 44 + 5 * (header bytes).timecnt.toNat ≤ bytes.length)
    (hmagic : bytes.take 4 = magic) (hcnt : 0 ≤ (header bytes).timecnt) :
    ∃ trans localtimes,
      ((∀ p ∈ trans.zip localtimes, p.2 < (header bytes).typecnt.toNat) ↔
        ∀ b ∈ indices (header bytes).timecnt.toNat (bytes.drop 44),
          b.toNat < (header bytes).typecnt.toNat) ∧
      readZone host (bytes, ⟨[], [], []⟩) = readTables host (header bytes) trans localtimes
        (bytes.drop (44 + 5 * (header bytes).timecnt.toNat), ⟨[], [], []⟩) := by
  have hheader := readHeader_ok host ⟨[], [], []⟩ (by omega) hmagic
  have hrest : 5 * (header bytes).timecnt.toNat ≤ (bytes.drop 44).length := by
    rw [List.length_drop]
    omega
  obtain ⟨trans, localtimes, hidx, hbody⟩ := readBody_tables host ⟨[], [], []⟩ hcnt hrest
  refine ⟨trans, localtimes, ?_, ?_⟩
  · have hsnd := List.forall_mem_map (f := Prod.snd) (l := trans.zip localtimes)
      (P := fun i => i < (header bytes).typecnt.toNat)
    rw [hidx] at hsnd
    have hbyte := List.forall_mem_map (f := UInt8.toNat)
      (l := indices (header bytes).timecnt.toNat (bytes.drop 44))
      (P := fun i => i < (header bytes).typecnt.toNat)
    exact hsnd.symm.trans hbyte
  · rw [List.drop_drop] at hbody
    exact (bind_ok hheader).trans hbody

/-- What the constructor leaves: nothing, the entries before the end of the file, no defined
state, or all entries and transitions. -/
theorem caught_cases (host : Endian) (bytes : List UInt8) :
    (EndsEarly bytes ∧ caught (readZone host (bytes, ⟨[], [], []⟩)) = some ⟨[], [], []⟩) ∨
    (¬ EndsEarly bytes ∧ bytes.length - (44 + 5 * (header bytes).timecnt.toNat) <
        6 * (header bytes).typecnt.toNat ∧
      ∃ ls : List Localtime,
        ls.length = (bytes.length - (44 + 5 * (header bytes).timecnt.toNat)) / 6 ∧
        caught (readZone host (bytes, ⟨[], [], []⟩)) = some ⟨[], ls, []⟩) ∨
    (¬ EndsEarly bytes ∧ 6 * (header bytes).typecnt.toNat ≤
        bytes.length - (44 + 5 * (header bytes).timecnt.toNat) ∧ ¬ TablesGood bytes ∧
      caught (readZone host (bytes, ⟨[], [], []⟩)) = none) ∨
    (¬ EndsEarly bytes ∧ 6 * (header bytes).typecnt.toNat ≤
        bytes.length - (44 + 5 * (header bytes).timecnt.toNat) ∧ TablesGood bytes ∧
      ∃ data : Data, data.localtimes.length = (header bytes).typecnt.toNat ∧
        (∀ t ∈ data.transitions, Entered data.localtimes t) ∧
        caught (readZone host (bytes, ⟨[], [], []⟩)) = some data) := by
  by_cases hearly : EndsEarly bytes
  · left
    exact ⟨hearly, caught_early hearly⟩
  · right
    have hrest : (bytes.drop (44 + 5 * (header bytes).timecnt.toNat)).length =
        bytes.length - (44 + 5 * (header bytes).timecnt.toNat) := List.length_drop
    have hbody := hearly
    unfold EndsEarly at hbody
    push Not at hbody
    obtain ⟨-, hmagic, hcnt, hlen⟩ := hbody
    obtain ⟨trans, localtimes, hidx, hzone⟩ := readZone_tables host hlen hmagic hcnt
    rw [hzone, ← hrest]
    rcases Nat.lt_or_ge (bytes.drop (44 + 5 * (header bytes).timecnt.toNat)).length
        (6 * (header bytes).typecnt.toNat) with hshort | hwhole
    · left
      obtain ⟨ls, e, rest, hls, he, hrun⟩ := readTables_throws host ⟨[], [], []⟩ trans localtimes
        hshort
      exact ⟨hearly, hshort, ls, hls, (congrArg caught hrun).trans (caught_error he)⟩
    · right
      by_cases hgood : TablesGood bytes
      · right
        obtain ⟨data, hdata, hls, ht⟩ :=
          readTables_ok host _ hwhole rfl (hidx.mpr hgood.1) hgood.2
        exact ⟨hearly, hwhole, hgood, data, hls, ht, hdata⟩
      · left
        have hbad : (¬ ∀ p ∈ trans.zip localtimes, p.2 < (header bytes).typecnt.toNat) ∨
            (header bytes).charcnt < 0 := by
          by_cases hi : ∀ p ∈ trans.zip localtimes, p.2 < (header bytes).typecnt.toNat
          · exact Or.inr (Int.not_le.mp fun hc => hgood ⟨hidx.mp hi, hc⟩)
          · exact Or.inl hi
        obtain ⟨s, hs⟩ := readTables_undefined host ⟨[], [], []⟩ hwhole rfl hbad
        exact ⟨hearly, hwhole, hgood, congrArg caught hs⟩

theorem ofFile_entered {data : Data} (h : TimeZone.ofFile host (some bytes) = some (some data)) :
    ∀ t ∈ data.transitions, Entered data.localtimes t := by
  rw [ofFile_some, Option.map_eq_some_iff] at h
  obtain ⟨data', hcaught, heq⟩ := h
  cases heq
  rcases caught_cases host bytes with ⟨-, hc⟩ | ⟨-, -, ls, -, hc⟩ | ⟨-, -, -, hc⟩ |
    ⟨-, -, -, data', -, ht, hc⟩
  all_goals rw [hc] at hcaught
  · cases hcaught
    exact fun t ht => absurd ht List.not_mem_nil
  · cases hcaught
    exact fun t ht => absurd ht List.not_mem_nil
  · cases hcaught
  · cases hcaught
    exact ht

theorem Readable.safe (h : Readable bytes) :
    ∃ data, caught (readZone host (bytes, ⟨[], [], []⟩)) = some data ∧ data.Safe := by
  obtain ⟨h44, hmagic, hcnt, htypes, hfirst, hwhole⟩ := h
  rcases caught_cases host bytes with ⟨hearly, -⟩ | ⟨-, -, ls, hls, hc⟩ | ⟨-, hall, hbad, -⟩ |
    ⟨-, -, -, data, hls, ht, hc⟩
  · exfalso
    rcases hearly with h | h | h | h
    · omega
    · exact h hmagic
    · omega
    · omega
  · have hl : ls ≠ [] := by
      apply List.ne_nil_of_length_pos
      omega
    exact ⟨_, hc, Data.safe hl fun t ht => absurd ht List.not_mem_nil⟩
  · exact absurd (hwhole (by omega)) hbad
  · have hl : data.localtimes ≠ [] := by
      apply List.ne_nil_of_length_pos
      omega
    exact ⟨data, hc, Data.safe hl fun t hmem => Entered.lt (ht t hmem)⟩

theorem readable_of_safe {data : Data}
    (hcaught : caught (readZone host (bytes, ⟨[], [], []⟩)) = some data) (hsafe : data.Safe) :
    Readable bytes := by
  have hpos := List.length_pos_of_ne_nil hsafe.1
  rcases caught_cases host bytes with ⟨-, hc⟩ | ⟨hbody, hshort, ls, hls, hc⟩ | ⟨-, -, -, hc⟩ |
    ⟨hbody, hall, hgood, data', hls, -, hc⟩
  all_goals rw [hc] at hcaught
  · cases hcaught
    exact absurd hsafe not_safe_empty
  · cases hcaught
    unfold EndsEarly at hbody
    push Not at hbody
    obtain ⟨h44, hmagic, hcnt, hlen⟩ := hbody
    change 0 < ls.length at hpos
    exact ⟨h44, hmagic, hcnt, by omega, by omega, fun hwhole => absurd hwhole (by omega)⟩
  · cases hcaught
  · cases hcaught
    unfold EndsEarly at hbody
    push Not at hbody
    obtain ⟨h44, hmagic, hcnt, hlen⟩ := hbody
    exact ⟨h44, hmagic, hcnt, by omega, by omega, fun _ => hgood⟩

end

/-- The zone is usable exactly if the file is `Readable`: a missing file, a file that ends
before its first entry, or an index that is too large is not noticed. -/
theorem zone_file_validated_iff (host : Endian) (zonefile : Option (List UInt8)) :
    Validated host zonefile ↔ ∃ bytes, zonefile = some bytes ∧ Readable bytes := by
  cases zonefile with
  | none =>
    refine ⟨fun h => absurd h (not_validated_missing host), ?_⟩
    intro ⟨bytes, hbytes, _⟩
    cases hbytes
  | some bytes =>
    rw [validated_iff_caught]
    refine ⟨?_, ?_⟩
    · intro ⟨data, hcaught, hsafe⟩
      exact ⟨bytes, rfl, readable_of_safe hcaught hsafe⟩
    · intro ⟨bytes', hbytes, hread⟩
      cases hbytes
      exact hread.safe

/- The file of a zone without transitions: one entry, "UTC". -/
example : TimeZone.ofFile .little (some (magic ++ List.replicate 28 0 ++
    [0, 0, 0, 0, 0, 0, 0, 1, 0, 0, 0, 4] ++ [0, 0, 0, 0, 0, 0] ++ [85, 84, 67, 0])) =
      some (some ⟨[], [⟨0, false, 0⟩], [85, 84, 67, 0]⟩) := by decide +kernel

/-- A missing file gives a zone that is valid and has no entry to find. -/
theorem missing_file_not_validated : ¬ Validated .little none ∧
    TimeZone.ofFile .little none = some (some ⟨[], [], []⟩) ∧
    TimeZone.valid (some ⟨[], [], []⟩) = true ∧
    findLocaltime ⟨[], [], []⟩ ⟨0, 0, 0⟩ ⟨true⟩ = none := by
  exact ⟨not_validated_missing .little, rfl, rfl, rfl⟩

end TstMuduo.Base
