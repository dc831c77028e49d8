import TstMuduo.Base.LogStream
import TstMuduo.Base.UtcTime

/-!
# Log records (muduo/base/Logging.h, Logging.cc)

A record is the header, what the statement writes, the place in the source and a newline, each of
them a piece for the stream. The newline is a piece like the others: it is left out when the
stream holds 3999 bytes by then.
-/

namespace TstMuduo.Base

/- `Logger::LogLevel` (`Logging.h:15`). -/
inductive LogLevel where
  | TRACE
  | DEBUG
  | INFO
  | WARN
  | ERROR
  | FATAL
  deriving DecidableEq, Repr

/- `LogLevelName` (`Logging.cc:58`). -/
def LogLevelName : LogLevel → List Char
  | .TRACE => ['T', 'R', 'A', 'C', 'E', ' ']
  | .DEBUG => ['D', 'E', 'B', 'U', 'G', ' ']
  | .INFO => ['I', 'N', 'F', 'O', ' ', ' ']
  | .WARN => ['W', 'A', 'R', 'N', ' ', ' ']
  | .ERROR => ['E', 'R', 'R', 'O', 'R', ' ']
  | .FATAL => ['F', 'A', 'T', 'A', 'L', ' ']

/-- A number of type `int`. -/
abbrev CIntValue := { v : IntValue // v.type = .int }

/- `Logger::SourceFile` (`Logging.h:27`): the name behind the last `/`. -/
def sourceFile (path : Bytes) : Bytes := (path.reverse.takeWhile (· ≠ '/'.toUInt8)).reverse

/- What `printf` prints for `%<width>d`, filled up in front with zeros or spaces. -/
def printfD (zeros : Bool) (width : Nat) (n : Int) : List Char :=
  let sign := if n < 0 then ['-'] else []
  let number := Nat.toDigits 10 n.natAbs
  let fill := width - (sign.length + number.length)
  if zeros then
    sign ++ List.replicate fill '0' ++ number
  else
    List.replicate fill ' ' ++ sign ++ number

/-- What a record is made of besides the statement: the time, broken down in the time zone of the
log when there is one; the text of the thread's number; and what `strerror_r` says. -/
structure LogContext where
  tm_time : Tm
  zoneValid : Bool
  microseconds : Int
  tidString : List Char
  strerror : Int → Bytes

/-- The constructors of `Logger` (`Logging.cc:171`). -/
inductive LoggerCall where
  | plain
  | func (level : LogLevel) (func : Bytes)
  | level (level : LogLevel)
  | toAbort (toAbort : Bool) (savedErrno : CIntValue)

/-- A log statement: its place in the source, the constructor, and what is written with `<<`. -/
structure LogStatement where
  file : Bytes
  line : CIntValue
  call : LoggerCall
  items : List LogItem

/- `T(str, len)` (`Logging.cc:69`). -/
def T (str : List Char) (len : Nat) : LogItem := .string (bytes (str.take len))

/- `Logger::Impl::formatTime` (`Logging.cc:127`): the pieces it writes. -/
def formatTime (ctx : LogContext) : List LogItem :=
  let tm := ctx.tm_time
  let t_time := printfD false 4 (tm.year + 1900) ++ printfD true 2 (tm.mon + 1) ++
    printfD true 2 tm.mday ++ ' ' :: printfD true 2 tm.hour ++ ':' :: printfD true 2 tm.min ++
    ':' :: printfD true 2 tm.sec
  let us := '.' :: printfD true 6 ctx.microseconds
  if ctx.zoneValid then
    [T t_time 17, T (us ++ [' ']) 8]
  else
    [T t_time 17, T (us ++ ['Z', ' ']) 9]

/- `Logger::Impl::Impl` (`Logging.cc:108`). -/
def Impl (ctx : LogContext) (level : LogLevel) (savedErrno : Option CIntValue) : List LogItem :=
  formatTime ctx ++ [T ctx.tidString ctx.tidString.length, T (LogLevelName level) 6] ++
    match savedErrno with
    | none => []
    | some e =>
      if e.val.val ≠ 0 then
        [.cstr (some (ctx.strerror e.val.val)),
          .cstr (some (bytes [' ', '(', 'e', 'r', 'r', 'n', 'o', '='])), .integer e.val,
          .cstr (some (bytes [')', ' ']))]
      else
        []

/- `Logger::Logger` (`Logging.cc:171`): no number of an error but in the last constructor. -/
def Logger (ctx : LogContext) : LoggerCall → List LogItem
  | .plain => Impl ctx .INFO none
  | .func level func => Impl ctx level none ++ [.cstr (some func), .char ' '.toUInt8]
  | .level level => Impl ctx level none
  | .toAbort toAbort savedErrno => Impl ctx (if toAbort then .FATAL else .ERROR) (some savedErrno)

/- `Logger::Impl::finish` (`Logging.cc:166`), before its last `<<`. -/
def finishPlace (s : LogStatement) : List LogItem :=
  [.cstr (some (bytes [' ', '-', ' '])), .string (sourceFile s.file), .char ':'.toUInt8,
    .integer s.line.val]

def newline : LogItem := .char '\n'.toUInt8

/-- The pieces before the newline, in the order in which they are written. -/
def LogStatement.pieces (ctx : LogContext) (s : LogStatement) : List LogItem :=
  Logger ctx s.call ++ s.items ++ finishPlace s

def LogStatement.beforeNewline (ctx : LogContext) (s : LogStatement) : FixedBuffer :=
  (s.pieces ctx).foldl LogItem.put ⟨0, []⟩

/- What `Logger::~Logger` (`Logging.cc:192`) passes to `g_output`. -/
def LogStatement.record (ctx : LogContext) (s : LogStatement) : Bytes :=
  (newline.put (s.beforeNewline ctx)).data

/-! ### The newline -/

theorem length_beforeNewline (ctx : LogContext) (s : LogStatement) :
    (s.beforeNewline ctx).data.length = (s.pieces ctx).foldl LogItem.taken 0 :=
  length_puts (s.pieces ctx) ⟨0, []⟩

theorem record_eq (ctx : LogContext) (s : LogStatement) : s.record ctx =
    if (s.beforeNewline ctx).data.length + 2 ≤ kSmallBuffer then
      (s.beforeNewline ctx).data ++ ['\n'.toUInt8]
    else (s.beforeNewline ctx).data := by
  rw [LogStatement.record, LogItem.put_eq]
  exact apply_ite FixedBuffer.data _ _ _

/-- A record is never longer than the buffer, and it ends with its newline unless the pieces
before it, as far as they were written, come to 3999 bytes. -/
theorem record_newline_iff (ctx : LogContext) (s : LogStatement) :
    (s.record ctx).length ≤ kSmallBuffer ∧
      (s.record ctx = (s.beforeNewline ctx).data ++ ['\n'.toUInt8] ↔
        (s.pieces ctx).foldl LogItem.taken 0 ≠ 3999) := by
  have hlen := length_beforeNewline ctx s
  have hlt : (s.pieces ctx).foldl LogItem.taken 0 < kSmallBuffer := takens_lt _ (by decide)
  have hsize : kSmallBuffer = 4000 := rfl
  rw [record_eq]
  split_ifs with h
  · constructor
    · rw [List.length_append, List.length_singleton]
      omega
    · simp only [true_iff]
      omega
  · refine ⟨by omega, fun heq => ?_, fun hne => by omega⟩
    have := congrArg List.length heq
    rw [List.length_append, List.length_singleton] at this
    omega

/- A statement whose record is full but for one byte when its newline is due. -/
def fullStatement : LogStatement where
  file := bytes ['a', '.', 'c', 'c']
  line := ⟨⟨.int, 7, by decide, by decide⟩, rfl⟩
  call := .plain
  items := [.string (List.replicate 3953 'x'.toUInt8)]

def noonContext : LogContext where
  tm_time := ⟨0, 0, 12, 1, 0, 100, 6, 0, 0, 0, .null⟩
  zoneValid := false
  microseconds := 0
  tidString := ['1', '2', '3', '4', '5', ' ']
  strerror := fun _ => []

theorem record_without_newline : ¬ ∀ (ctx : LogContext) (s : LogStatement),
    (s.record ctx).length ≤ kSmallBuffer ∧
      s.record ctx = (s.beforeNewline ctx).data ++ ['\n'.toUInt8] := by
  intro h
  obtain ⟨-, hrec⟩ := h noonContext fullStatement
  have hlen : (fullStatement.beforeNewline noonContext).data.length = 3999 := by
    rw [length_beforeNewline]
    decide +kernel
  rw [record_eq, if_neg (by rw [hlen]; decide)] at hrec
  have := congrArg List.length hrec
  rw [List.length_append, List.length_singleton] at this
  omega

end TstMuduo.Base
