import Mathlib.Data.List.TakeWhile
import TstMuduo.Net.HttpContext

/-!
# The grammar of HTTP requests (muduo/net/http/HttpContext.cc, HttpRequest.h)

Which request lines the parser accepts, and where it ends the header section.
-/

namespace TstMuduo.Net
open TstMuduo.Lib

/-! ### Searches -/

theorem find_eq_some_iff {c : Byte} {xs a b : Bytes} :
    find c xs = some (a, b) ↔ xs = a ++ c :: b ∧ c ∉ a := by
  induction xs generalizing a with
  | nil => simp [find]
  | cons x rest ih =>
    simp only [find]
    by_cases hx : x = c
    · subst hx
      rw [if_pos rfl]
      cases a with
      | nil => simp [eq_comm]
      | cons y a =>
        simp only [Option.some.injEq, Prod.mk.injEq, List.cons_append, List.cons.injEq,
          List.mem_cons]
        constructor
        · intro h
          cases h.1
        · intro h
          exact absurd (.inl h.1.1) h.2
    · rw [if_neg hx]
      constructor
      · intro h
        obtain ⟨p, hp, he⟩ := Option.map_eq_some_iff.mp h
        cases he
        obtain ⟨hrest, hc⟩ := ih.mp hp
        refine ⟨by rw [hrest, List.cons_append], ?_⟩
        intro hmem
        rcases List.mem_cons.mp hmem with he | hmem
        · exact hx he.symm
        · exact hc hmem
      · intro h
        obtain ⟨hxs, hc⟩ := h
        cases a with
        | nil =>
          cases hxs
          exact absurd rfl hx
        | cons y a =>
          cases hxs
          rw [ih.mpr ⟨rfl, fun hmem => hc (List.mem_cons_of_mem _ hmem)⟩]
          rfl

theorem find_eq_none_iff {c : Byte} {xs : Bytes} : find c xs = none ↔ c ∉ xs := by
  induction xs with
  | nil => simp [find]
  | cons x rest ih =>
    simp only [find]
    by_cases hx : x = c
    · simp [hx]
    · rw [if_neg hx, Option.map_eq_none_iff, ih, List.mem_cons, not_or]
      exact ⟨fun h => ⟨fun he => hx he.symm, h⟩, fun h => h.2⟩

theorem searchCRLF_eq_none_iff {xs : Bytes} : searchCRLF xs = none ↔ ¬ [13, 10] <:+: xs := by
  induction xs with
  | nil => simp [searchCRLF]
  | cons b rest ih =>
    have hhead : [13, 10] <+: b :: rest ↔ b = 13 ∧ rest.head? = some 10 := by
      cases rest with
      | nil => simp [List.cons_prefix_cons]
      | cons d rest => simp [List.cons_prefix_cons, eq_comm]
    simp only [searchCRLF]
    rw [List.infix_cons_iff, hhead, not_or]
    by_cases hc : b = 13 ∧ rest.head? = some 10
    · simp [hc]
    · rw [if_neg hc, Option.map_eq_none_iff, ih]
      exact ⟨fun h => ⟨hc, h⟩, fun h => h.2⟩

/-! ### The request line -/

/- `methodString` (`HttpRequest.h:88`). -/
def HttpMethod.methodString : HttpMethod → Bytes
  | .kInvalid => ascii ['U', 'N', 'K', 'N', 'O', 'W', 'N']
  | .kGet => ascii ['G', 'E', 'T']
  | .kPost => ascii ['P', 'O', 'S', 'T']
  | .kHead => ascii ['H', 'E', 'A', 'D']
  | .kPut => ascii ['P', 'U', 'T']
  | .kDelete => ascii ['D', 'E', 'L', 'E', 'T', 'E']

def HttpVersion.versionString : HttpVersion → Bytes
  | .kUnknown => []
  | .kHttp10 => ascii ['H', 'T', 'T', 'P', '/', '1', '.', '0']
  | .kHttp11 => ascii ['H', 'T', 'T', 'P', '/', '1', '.', '1']

/-- A request line: a method, a target without spaces and a version. -/
structure RequestLine where
  method : HttpMethod
  target : Bytes
  version : HttpVersion
  method_known : method ≠ .kInvalid
  version_known : version ≠ .kUnknown
  target_unspaced : (32 : Byte) ∉ target

def RequestLine.bytes (l : RequestLine) : Bytes :=
  l.method.methodString ++ 32 :: (l.target ++ 32 :: l.version.versionString)

theorem methodOf_methodString {m : HttpMethod} (h : m ≠ .kInvalid) :
    ParsedRequest.methodOf m.methodString = m := by
  cases m with
  | kInvalid => exact absurd rfl h
  | kGet => decide
  | kPost => decide
  | kHead => decide
  | kPut => decide
  | kDelete => decide

theorem methodString_methodOf {m : Bytes} (h : ParsedRequest.methodOf m ≠ .kInvalid) :
    (ParsedRequest.methodOf m).methodString = m := by
  unfold ParsedRequest.methodOf at h ⊢
  split_ifs at h ⊢ with hg hp hh hu hd
  · exact hg.symm
  · exact hp.symm
  · exact hh.symm
  · exact hu.symm
  · exact hd.symm
  · exact absurd rfl h

theorem methodString_unspaced (m : HttpMethod) : (32 : Byte) ∉ m.methodString := by
  cases m with
  | kInvalid => decide
  | kGet => decide
  | kPost => decide
  | kHead => decide
  | kPut => decide
  | kDelete => decide

namespace ParsedRequest

theorem setTarget_spec {r : ParsedRequest} (hr : r.query = []) (target : Bytes) :
    (r.setTarget target).path ++ (r.setTarget target).query = target ∧
      (63 : Byte) ∉ (r.setTarget target).path ∧
      ((r.setTarget target).query = [] ∨ (r.setTarget target).query.head? = some 63) := by
  unfold setTarget
  cases hf : find 63 target with
  | none =>
    refine ⟨?_, find_eq_none_iff.mp hf, .inl hr⟩
    rw [hr, List.append_nil]
  | some p =>
    obtain ⟨ht, hp⟩ := find_eq_some_iff.mp hf
    exact ⟨ht.symm, hp, .inr rfl⟩

theorem setTarget_method (r : ParsedRequest) (target : Bytes) :
    (r.setTarget target).method = r.method := by
  unfold setTarget
  split
  · rfl
  · rfl

theorem setVersion_versionString (r : ParsedRequest) {v : HttpVersion} (hv : v ≠ .kUnknown) :
    r.setVersion v.versionString = (true, { r with version := v }) := by
  cases v with
  | kUnknown => exact absurd rfl hv
  | kHttp10 => rfl
  | kHttp11 => rfl

theorem version_of_setVersion {r r' : ParsedRequest} {version : Bytes}
    (h : r.setVersion version = (true, r')) :
    ∃ v : HttpVersion, v ≠ .kUnknown ∧ v.versionString = version := by
  unfold setVersion at h
  split_ifs at h with hc h1 h0
  · refine ⟨.kHttp11, by decide, ?_⟩
    rw [← List.take_append_drop 7 version, hc.2, h1]
    rfl
  · refine ⟨.kHttp10, by decide, ?_⟩
    rw [← List.take_append_drop 7 version, hc.2, h0]
    rfl
  · cases h
  · cases h

theorem processRequestLine_bytes {r : ParsedRequest} (hr : r.method = .kInvalid)
    (l : RequestLine) :
    r.processRequestLine l.bytes =
      .ok (true, { ({ r with method := l.method } : ParsedRequest).setTarget l.target with
        version := l.version }) := by
  have hmethod : find 32 l.bytes =
      some (l.method.methodString, l.target ++ 32 :: l.version.versionString) :=
    find_eq_some_iff.mpr ⟨rfl, methodString_unspaced _⟩
  have htarget : find 32 (l.target ++ 32 :: l.version.versionString) =
      some (l.target, l.version.versionString) :=
    find_eq_some_iff.mpr ⟨rfl, l.target_unspaced⟩
  have hknown := l.method_known
  simp only [processRequestLine, hmethod, setMethod, check_ok hr, ok_bind,
    methodOf_methodString hknown, ne_eq, hknown, not_false_eq_true, decide_true, pure,
    Except.pure, if_true, htarget, setVersion_versionString _ l.version_known]

theorem bytes_of_processRequestLine {r r' : ParsedRequest} {line : Bytes}
    (h : r.processRequestLine line = .ok (true, r')) : ∃ l : RequestLine, l.bytes = line := by
  unfold processRequestLine at h
  cases hm : find 32 line with
  | none => simp only [hm, Except.ok.injEq, Prod.mk.injEq, Bool.false_eq_true, false_and] at h
  | some p =>
    obtain ⟨m, rest⟩ := p
    obtain ⟨hline, _⟩ := find_eq_some_iff.mp hm
    obtain ⟨x, hx, h⟩ := bind_eq_ok (by simpa only [hm] using h)
    obtain ⟨_, _, hx⟩ := bind_eq_ok hx
    cases hx
    simp only [decide_eq_true_eq] at h
    split at h
    next hknown =>
      cases ht : find 32 rest with
      | none => simp [ht, pure, Except.pure] at h
      | some q =>
        obtain ⟨target, version⟩ := q
        obtain ⟨hrest, hunspaced⟩ := find_eq_some_iff.mp ht
        simp only [ht, pure, Except.pure, Except.ok.injEq] at h
        obtain ⟨v, hv, hversion⟩ := version_of_setVersion h
        refine ⟨⟨methodOf m, target, v, hknown, hv, hunspaced⟩, ?_⟩
        rw [RequestLine.bytes, methodString_methodOf hknown, hversion, hline, hrest]
    · simp [pure, Except.pure] at h

end ParsedRequest

/-- A new context accepts exactly the request lines, and reads off their parts. -/
theorem processRequestLine_grammar (line : Bytes) :
    ∃ ok r, HttpContext.new.request.processRequestLine line = .ok (ok, r) ∧
      (ok = true ↔ ∃ l : RequestLine, l.bytes = line) ∧
      ∀ l : RequestLine, l.bytes = line →
        r.method = l.method ∧ r.version = l.version ∧ r.path ++ r.query = l.target ∧
          (63 : Byte) ∉ r.path ∧ (r.query = [] ∨ r.query.head? = some 63) := by
  obtain ⟨⟨ok, r⟩, hx⟩ := ParsedRequest.processRequestLine_ok
    (show HttpContext.new.request.method = .kInvalid by rfl) line
  refine ⟨ok, r, hx, ?_, ?_⟩
  · constructor
    · intro hok
      subst hok
      exact ParsedRequest.bytes_of_processRequestLine hx
    · intro h
      obtain ⟨l, rfl⟩ := h
      rw [ParsedRequest.processRequestLine_bytes rfl l] at hx
      cases hx
      rfl
  · intro l hl
    subst hl
    rw [ParsedRequest.processRequestLine_bytes rfl l] at hx
    cases hx
    obtain ⟨htarget, hpath, hquery⟩ := ParsedRequest.setTarget_spec
      (r := { HttpContext.new.request.toParsedRequest with method := l.method }) rfl l.target
    exact ⟨ParsedRequest.setTarget_method _ _, rfl, htarget, hpath, hquery⟩

/-! ### The header section -/

def withCRLF (line : Bytes) : Bytes := line ++ [13, 10]

def headerLines (lines : List Bytes) : List Bytes := lines.takeWhile fun l => l ≠ []

def sectionLines (lines : List Bytes) : List Bytes :=
  headerLines lines ++ if [] ∈ lines then [[]] else []

/-- `stored` is `value` without the white space around it. -/
def Trimmed (value stored : Bytes) : Prop :=
  ∃ front back, value = front ++ stored ++ back ∧ (∀ b ∈ front, isspace b = true) ∧
    (∀ b ∈ back, isspace b = true) ∧ (∀ b, stored.head? = some b → isspace b = false) ∧
    ∀ b, stored.getLast? = some b → isspace b = false

/-- The last line of a name decides what is stored under it. -/
def Stored (headers : Bytes → Option Bytes) (lines : List Bytes) : Prop :=
  ∀ name value earlier later, (58 : Byte) ∉ name →
    lines = earlier ++ (name ++ 58 :: value) :: later →
    (∀ v, name ++ 58 :: v ∉ later) → ∃ stored, headers name = some stored ∧ Trimmed value stored

/-- The header section of the stream has been read up to its first empty line, if it has
one, and no further. -/
structure SectionRead (line : Bytes) (lines : List Bytes) (f : Fed) : Prop where
  outcome : f.outcome = if [] ∈ lines then .complete else .incomplete
  consumed : f.consumed = ((line :: sectionLines lines).flatMap withCRLF).length
  stored : Stored f.state.context.request.headers (headerLines lines)

theorem dropWhile_head? (p : Byte → Bool) (xs : Bytes) (b : Byte)
    (h : (xs.dropWhile p).head? = some b) : p b = false := by
  induction xs with
  | nil => cases h
  | cons x rest ih =>
    rw [List.dropWhile_cons] at h
    split at h
    · exact ih h
    next hx =>
      cases h
      simpa using hx

theorem addHeader_trimmed (r : ParsedRequest) (field value : Bytes) :
    ∃ stored, (r.addHeader field value).headers = Function.update r.headers field (some stored) ∧
      Trimmed value stored := by
  refine ⟨_, rfl, value.takeWhile isspace,
    ((value.dropWhile isspace).reverse.takeWhile isspace).reverse, ?_, ?_, ?_, ?_, ?_⟩
  · rw [List.append_assoc, ← List.reverse_append, List.takeWhile_append_dropWhile,
      List.reverse_reverse, List.takeWhile_append_dropWhile]
  · intro b hb
    exact List.mem_takeWhile_imp hb
  · intro b hb
    exact List.mem_takeWhile_imp (List.mem_reverse.mp hb)
  · -- the front of a value that has lost its end is the front of the value
    intro b hb
    apply dropWhile_head? isspace value b
    generalize value.dropWhile isspace = rest at hb ⊢
    have hsplit := List.takeWhile_append_dropWhile (p := isspace) (l := rest.reverse)
    rw [← List.reverse_reverse rest, ← hsplit, List.reverse_append, List.head?_append, hb]
    rfl
  · intro b hb
    rw [List.getLast?_reverse] at hb
    exact dropWhile_head? isspace _ b hb

def storeLine (r : ParsedRequest) (line : Bytes) : ParsedRequest :=
  match find 58 line with
  | some (field, value) => r.addHeader field value
  | none => r

theorem storeLine_header {name : Bytes} (r : ParsedRequest) (value : Bytes)
    (h : (58 : Byte) ∉ name) : storeLine r (name ++ 58 :: value) = r.addHeader name value := by
  have hf : find 58 (name ++ 58 :: value) = some (name, value) := find_eq_some_iff.mpr ⟨rfl, h⟩
  simp only [storeLine, hf]

theorem storeLine_other {name line : Bytes} (r : ParsedRequest)
    (h : ∀ v, line ≠ name ++ 58 :: v) : (storeLine r line).headers name = r.headers name := by
  unfold storeLine
  cases hf : find 58 line with
  | none => rfl
  | some p =>
    obtain ⟨hline, _⟩ := find_eq_some_iff.mp hf
    obtain ⟨stored, hs, _⟩ := addHeader_trimmed r p.1 p.2
    have hne : name ≠ p.1 := by
      intro he
      exact h p.2 (by rw [he, hline])
    simp only [hs]
    exact Function.update_of_ne hne _ _

theorem foldl_storeLine_other {name : Bytes} (lines : List Bytes) (r : ParsedRequest)
    (h : ∀ v, name ++ 58 :: v ∉ lines) :
    (lines.foldl storeLine r).headers name = r.headers name := by
  induction lines generalizing r with
  | nil => rfl
  | cons line rest ih =>
    rw [List.foldl_cons, ih _ fun v hv => h v (List.mem_cons_of_mem _ hv)]
    exact storeLine_other r fun v hv => h v (by rw [hv]; exact List.mem_cons_self)

theorem stored_foldl (lines : List Bytes) (r : ParsedRequest) :
    Stored (lines.foldl storeLine r).headers lines := by
  intro name value earlier later h58 hlines hlast
  obtain ⟨stored, hs, ht⟩ := addHeader_trimmed (earlier.foldl storeLine r) name value
  refine ⟨stored, ?_, ht⟩
  rw [hlines, List.foldl_append, List.foldl_cons, foldl_storeLine_other later _ hlast,
    storeLine_header _ _ h58, hs, Function.update_self]

/-! ### Scanning the lines -/

theorem searchCRLF_line {line : Bytes} (h : ¬ [13, 10] <:+: line) (rest : Bytes) :
    searchCRLF (withCRLF line ++ rest) = some line.length := by
  rw [← searchCRLF_eq_none_iff] at h
  induction line with
  | nil => rfl
  | cons b line ih =>
    simp only [searchCRLF] at h
    split at h
    · cases h
    next hc =>
      have hne : ¬ (b = 13 ∧ (withCRLF line ++ rest).head? = some 10) := by
        intro hcr
        cases line with
        | nil => exact absurd hcr.2 (by simp [withCRLF])
        | cons d line => exact hc hcr
      have hrest := ih (Option.map_eq_none_iff.mp h)
      simp only [withCRLF, List.cons_append, searchCRLF] at hne hrest ⊢
      rw [if_neg hne, hrest]
      rfl

theorem scanRequest_line {p : HttpRequestParseState × ParsedRequest} {line : Bytes}
    (hp : p.1 = .kExpectRequestLine ∨ p.1 = .kExpectHeaders) (h : ¬ [13, 10] <:+: line)
    (rest : Bytes) :
    scanRequest p (withCRLF line ++ rest) = scanLine p line (withCRLF line).length := by
  have hgo : ¬ (p.1 = .kGotAll ∨ p.1 = .kExpectBody) := by
    rcases hp with hp | hp
    · simp [hp]
    · simp [hp]
  have htake : (withCRLF line ++ rest).take line.length = line := by
    rw [withCRLF, List.append_assoc]
    exact List.take_left
  unfold scanRequest
  rw [if_neg hgo, searchCRLF_line h rest]
  simp only [htake]
  rw [withCRLF, List.length_append]
  rfl

theorem drains_headers {lines : List Bytes} {r : ParsedRequest} {rest rest' : Bytes}
    {p : HttpRequestParseState × ParsedRequest} {stopped : Bool}
    (hcrlf : ∀ l ∈ lines, ¬ [13, 10] <:+: l) (hcolon : ∀ l ∈ lines, (58 : Byte) ∈ l)
    (h : requestScanner.Drains (.kExpectHeaders, lines.foldl storeLine r) rest stopped p rest') :
    requestScanner.Drains (.kExpectHeaders, r) (lines.flatMap withCRLF ++ rest) stopped p
      rest' := by
  induction lines generalizing r with
  | nil => exact h
  | cons line lines ih =>
    rw [List.flatMap_cons, List.append_assoc]
    have hscan := scanRequest_line (p := (.kExpectHeaders, r)) (.inr rfl)
      (hcrlf line List.mem_cons_self) (lines.flatMap withCRLF ++ rest)
    have htake : scanLine (.kExpectHeaders, r) line (withCRLF line).length =
        .take (withCRLF line).length (.kExpectHeaders, storeLine r line) := by
      cases hf : find 58 line with
      | none => exact absurd (hcolon line List.mem_cons_self) (find_eq_none_iff.mp hf)
      | some q => simp only [scanLine, storeLine, hf]
    refine .take (hscan.trans htake) ?_
    rw [List.drop_left]
    exact ih (fun l hl => hcrlf l (List.mem_cons_of_mem _ hl))
      (fun l hl => hcolon l (List.mem_cons_of_mem _ hl)) h

theorem drains_no_colon {line : Bytes} (r : ParsedRequest) (hcrlf : ¬ [13, 10] <:+: line)
    (hcolon : (58 : Byte) ∉ line) (rest : Bytes) :
    requestScanner.Drains (.kExpectHeaders, r) (withCRLF line ++ rest) true (.kGotAll, r) rest := by
  have hscan := scanRequest_line (p := (.kExpectHeaders, r)) (.inr rfl) hcrlf rest
  have htake : scanLine (.kExpectHeaders, r) line (withCRLF line).length =
      .take (withCRLF line).length (.kGotAll, r) := by
    simp only [scanLine, find_eq_none_iff.mpr hcolon]
  refine .take (hscan.trans htake) ?_
  rw [List.drop_left]
  refine .halt ?_
  show scanRequest (.kGotAll, r) rest = .halt (.kGotAll, r)
  exact if_pos (.inl rfl)

theorem drains_tail (r : ParsedRequest) {tail : Bytes} (h : ¬ [13, 10] <:+: tail) :
    requestScanner.Drains (.kExpectHeaders, r) tail false (.kExpectHeaders, r) tail := by
  refine .more ?_
  have hgo : ¬ (HttpRequestParseState.kExpectHeaders = .kGotAll ∨
      HttpRequestParseState.kExpectHeaders = .kExpectBody) := by simp
  show scanRequest (.kExpectHeaders, r) tail = .more
  unfold scanRequest
  rw [if_neg hgo, searchCRLF_eq_none_iff.mpr h]

/-! ### Where the section ends -/

/-- A stream whose request line is accepted, cut into its lines. -/
structure RequestText where
  line : Bytes
  lines : List Bytes
  tail : Bytes
  line_whole : ¬ [13, 10] <:+: line
  lines_whole : ∀ l ∈ lines, ¬ [13, 10] <:+: l
  tail_unfinished : ¬ [13, 10] <:+: tail
  accepted : ∃ r, HttpContext.new.request.processRequestLine line = .ok (true, r)

namespace RequestText

def bytes (t : RequestText) : Bytes := (t.line :: t.lines).flatMap withCRLF ++ t.tail

theorem drains_bytes (t : RequestText) : ∃ r : ParsedRequest,
    ∀ stopped p rest, requestScanner.Drains (.kExpectHeaders, r)
        (t.lines.flatMap withCRLF ++ t.tail) stopped p rest →
      requestScanner.Drains HttpContext.new.parsed t.bytes stopped p rest := by
  obtain ⟨r, hr⟩ := t.accepted
  refine ⟨r, ?_⟩
  intro stopped p rest hd
  have hscan := scanRequest_line (p := HttpContext.new.parsed) (.inl rfl) t.line_whole
    (t.lines.flatMap withCRLF ++ t.tail)
  have htake : scanLine HttpContext.new.parsed t.line (withCRLF t.line).length =
      .take (withCRLF t.line).length (.kExpectHeaders, r) := by
    have hline : HttpContext.new.parsed.2.processRequestLine t.line = .ok (true, r) := hr
    simp only [scanLine, HttpContext.parsed, HttpContext.new] at hline ⊢
    rw [hline]
  rw [bytes, List.flatMap_cons, List.append_assoc]
  refine .take (hscan.trans htake) ?_
  rw [List.drop_left]
  exact hd

end RequestText

theorem feed_of_drains {b : Buffer} (hb : b.contents = []) {chunks : List (Bytes × Int)}
    {stopped : Bool} {p : HttpRequestParseState × ParsedRequest} {rest : Bytes}
    (hp : p.1 ≠ .kExpectRequestLine)
    (hd : requestScanner.Drains HttpContext.new.parsed (streamOf chunks) stopped p rest) :
    ∃ f, ParseState.feed ⟨.new, b⟩ 0 chunks = .ok (some f) ∧
      f.outcome = (if stopped = true then .complete else .incomplete) ∧
      f.consumed + rest.length = (streamOf chunks).length ∧ f.state.context.parsed = p := by
  have hstart : requestScanner.Drains HttpContext.new.parsed [] false HttpContext.new.parsed
      b.contents := by
    rw [hb]
    exact HttpContext.drains_nil
  obtain ⟨f, stopped', rest', hf, hd', hended, hcons⟩ :=
    ParseState.feed_spec (s := ⟨.new, b⟩) HttpContext.new_ready hstart chunks
  rw [List.nil_append] at hd' hcons
  obtain ⟨rfl, rfl, rfl⟩ := hd.unique hd'
  refine ⟨f, hf, ?_, hcons, rfl⟩
  generalize hok : f.ok = ok at hended
  cases hended with
  | waiting hready => simp [Fed.outcome, hok, hready.not_gotAll]
  | complete hst => simp [Fed.outcome, hok, HttpContext.gotAll, hst]
  | rejected hr => exact absurd hr.1 hp

theorem headerLines_split {lines : List Bytes} (h : [] ∈ lines) :
    ∃ later, lines = headerLines lines ++ [] :: later := by
  induction lines with
  | nil => cases h
  | cons l lines ih =>
    by_cases hl : l = []
    · subst hl
      exact ⟨lines, by simp [headerLines]⟩
    · have hmem : [] ∈ lines := by
        rcases List.mem_cons.mp h with he | hmem
        · exact absurd he.symm hl
        · exact hmem
      obtain ⟨later, hlater⟩ := ih hmem
      have hcons : headerLines (l :: lines) = l :: headerLines lines := by simp [headerLines, hl]
      refine ⟨later, ?_⟩
      rw [hcons, List.cons_append, ← hlater]

theorem headerLines_of_not_mem {lines : List Bytes} (h : [] ∉ lines) :
    headerLines lines = lines := by
  refine List.takeWhile_eq_self_iff.mpr ?_
  intro l hl
  have hne : l ≠ [] := by
    intro he
    exact h (he ▸ hl)
  simpa using hne

theorem colon_not_mem_nil : (58 : Byte) ∉ ([] : Bytes) := List.not_mem_nil

/-- Where every header line has a colon, the section is read as it should be. -/
theorem sectionRead_of_colons (t : RequestText) {b : Buffer} (hb : b.contents = [])
    {chunks : List (Bytes × Int)} (hs : streamOf chunks = t.bytes)
    (hcolon : ∀ l ∈ headerLines t.lines, (58 : Byte) ∈ l) :
    ∃ f, ParseState.feed ⟨.new, b⟩ 0 chunks = .ok (some f) ∧ SectionRead t.line t.lines f := by
  obtain ⟨r, hr⟩ := t.drains_bytes
  have hcrlf : ∀ l ∈ headerLines t.lines, ¬ [13, 10] <:+: l := fun l hl =>
    t.lines_whole l ((List.takeWhile_prefix _).subset hl)
  by_cases hempty : [] ∈ t.lines
  · obtain ⟨later, hlater⟩ := headerLines_split hempty
    have hd := hr true (.kGotAll, (headerLines t.lines).foldl storeLine r)
      (later.flatMap withCRLF ++ t.tail) (by
        rw [hlater, List.flatMap_append, List.flatMap_cons, List.append_assoc, List.append_assoc,
          ← hlater]
        exact drains_headers hcrlf hcolon
          (drains_no_colon _ (t.lines_whole [] hempty) colon_not_mem_nil _))
    rw [← hs] at hd
    obtain ⟨f, hf, hout, hcons, hparsed⟩ := feed_of_drains hb (by simp) hd
    refine ⟨f, hf, ⟨?_, ?_, ?_⟩⟩
    · rw [hout, if_pos rfl, if_pos hempty]
    · have htotal : t.bytes = (t.line :: sectionLines t.lines).flatMap withCRLF ++
          (later.flatMap withCRLF ++ t.tail) := by
        rw [RequestText.bytes, sectionLines, if_pos hempty]
        nth_rewrite 1 [hlater]
        simp [List.append_assoc]
      rw [hs, htotal] at hcons
      simp only [List.length_append] at hcons
      omega
    · have hreq : f.state.context.request.toParsedRequest =
          (headerLines t.lines).foldl storeLine r := congrArg Prod.snd hparsed
      rw [hreq]
      exact stored_foldl _ _
  · have hall := headerLines_of_not_mem hempty
    rw [hall] at hcolon hcrlf
    have hd := hr false (.kExpectHeaders, t.lines.foldl storeLine r) t.tail
      (drains_headers hcrlf hcolon (drains_tail _ t.tail_unfinished))
    rw [← hs] at hd
    obtain ⟨f, hf, hout, hcons, hparsed⟩ := feed_of_drains hb (by simp) hd
    refine ⟨f, hf, ⟨?_, ?_, ?_⟩⟩
    · rw [hout, if_neg (by simp), if_neg hempty]
    · rw [hs, RequestText.bytes, List.length_append] at hcons
      rw [sectionLines, if_neg hempty, hall, List.append_nil]
      exact Nat.add_right_cancel hcons
    · have hreq : f.state.context.request.toParsedRequest = t.lines.foldl storeLine r :=
        congrArg Prod.snd hparsed
      rw [hreq, hall]
      exact stored_foldl _ _

theorem not_sectionRead_of_no_colon (t : RequestText) {b : Buffer} (hb : b.contents = [])
    {chunks : List (Bytes × Int)} (hs : streamOf chunks = t.bytes) {l : Bytes}
    (hl : l ∈ headerLines t.lines) (hcolon : (58 : Byte) ∉ l) {f : Fed}
    (hf : ParseState.feed ⟨.new, b⟩ 0 chunks = .ok (some f)) : ¬ SectionRead t.line t.lines f := by
  intro hread
  obtain ⟨r, hr⟩ := t.drains_bytes
  have hfind : ((headerLines t.lines).find? fun l => (58 : Byte) ∉ l).isSome = true := by
    rw [List.find?_isSome]
    exact ⟨l, hl, by simpa using hcolon⟩
  obtain ⟨first, hfirst⟩ := Option.isSome_iff_exists.mp hfind
  obtain ⟨hno, earlier, later, hsplit, hbefore⟩ := List.find?_eq_some_iff_append.mp hfirst
  obtain ⟨rest, hrest⟩ := List.takeWhile_prefix (l := t.lines) fun l => decide (l ≠ [])
  have hlines : t.lines = earlier ++ first :: (later ++ rest) := by
    rw [← hrest]
    show headerLines t.lines ++ rest = _
    rw [hsplit, List.append_assoc, List.cons_append]
  have hd := hr true (.kGotAll, earlier.foldl storeLine r)
    ((later ++ rest).flatMap withCRLF ++ t.tail) (by
      have hwhole := t.lines_whole
      rw [hlines] at hwhole ⊢
      rw [List.flatMap_append, List.flatMap_cons, List.append_assoc, List.append_assoc]
      refine drains_headers (fun l hl => hwhole l (List.mem_append_left _ hl)) ?_
        (drains_no_colon _ (hwhole first (by simp)) (by simpa using hno) _)
      intro l hl
      simpa using hbefore l hl)
  rw [← hs] at hd
  obtain ⟨g, hg, hout, hcons, _⟩ := feed_of_drains hb (by simp) hd
  cases hf.symm.trans hg
  have hempty : [] ∈ t.lines := by
    by_contra hempty
    have hread' := hread.outcome
    rw [hout, if_pos rfl, if_neg hempty] at hread'
    cases hread'
  have hlen := hread.consumed
  rw [sectionLines, if_pos hempty, hsplit] at hlen
  rw [hs, RequestText.bytes, hlines] at hcons
  simp only [List.flatMap_cons, List.flatMap_append, List.length_append, withCRLF,
    List.length_cons, List.length_nil] at hcons hlen
  omega

/-- The header section ends at the first empty line exactly where every line before it
has a colon. -/
theorem header_section_iff (t : RequestText) (b : Buffer) (hb : b.contents = [])
    (chunks : List (Bytes × Int)) (hs : streamOf chunks = t.bytes) :
    (∃ f, ParseState.feed ⟨.new, b⟩ 0 chunks = .ok (some f) ∧ SectionRead t.line t.lines f) ↔
      ∀ l ∈ headerLines t.lines, (58 : Byte) ∈ l := by
  constructor
  · intro h l hl
    obtain ⟨f, hf, hread⟩ := h
    by_contra hcolon
    exact not_sectionRead_of_no_colon t hb hs hl hcolon hf hread
  · intro h
    exact sectionRead_of_colons t hb hs h

/- `GET / HTTP/1.1`. -/
def plainLine : Bytes :=
  ascii ['G', 'E', 'T', ' ', '/', ' ', 'H', 'T', 'T', 'P', '/', '1', '.', '1']

theorem plainLine_accepted :
    ∃ r, HttpContext.new.request.processRequestLine plainLine = .ok (true, r) :=
  ⟨_, ParsedRequest.processRequestLine_bytes rfl
    ⟨.kGet, ascii ['/'], .kHttp11, by decide, by decide, by decide⟩⟩

def headedRequest : RequestText :=
  ⟨plainLine, [ascii ['H', 'o', 's', 't', ':', ' ', 'm'], []], [71], by decide, by decide,
    by decide, plainLine_accepted⟩

theorem header_section_iff_headed :
    ∃ f, ParseState.feed ⟨.new, Buffer.new kInitialSize⟩ 0
        [(headedRequest.bytes.take 20, 1), (headedRequest.bytes.drop 20, 2)] = .ok (some f) ∧
      SectionRead headedRequest.line headedRequest.lines f :=
  (header_section_iff headedRequest (Buffer.new kInitialSize) (Buffer.contents_new _)
    [(headedRequest.bytes.take 20, 1), (headedRequest.bytes.drop 20, 2)] (by decide)).mpr
    (by decide)

def smuggledRequest : RequestText :=
  ⟨plainLine, [ascii ['b', 'a', 'd'], ascii ['H', 'o', 's', 't', ':', ' ', 'm'], []], [], by decide,
    by decide, by decide, plainLine_accepted⟩

/-- The header behind that line and the empty line are left for the next request. -/
theorem header_section_cut_short :
    (∃ f, ParseState.feed ⟨.new, Buffer.new kInitialSize⟩ 0 [(smuggledRequest.bytes, 1)] =
        .ok (some f) ∧ f.outcome = .complete ∧ f.consumed = 21) ∧
      ¬ ∃ f, ParseState.feed ⟨.new, Buffer.new kInitialSize⟩ 0 [(smuggledRequest.bytes, 1)] =
        .ok (some f) ∧ SectionRead smuggledRequest.line smuggledRequest.lines f := by
  have hrun : ((ParseState.feed ⟨.new, Buffer.new kInitialSize⟩ 0
      [(smuggledRequest.bytes, 1)]).toOption.join.map fun f => (f.outcome, f.consumed)) =
      some (.complete, 21) := by decide +kernel
  cases hf : ParseState.feed ⟨.new, Buffer.new kInitialSize⟩ 0 [(smuggledRequest.bytes, 1)] with
  | error e =>
    rw [hf] at hrun
    cases hrun
  | ok o =>
    rw [hf] at hrun
    cases o with
    | none => cases hrun
    | some f =>
      have hpair : (f.outcome, f.consumed) = (.complete, 21) := Option.some.inj hrun
      refine ⟨⟨f, rfl, congrArg Prod.fst hpair, congrArg Prod.snd hpair⟩, ?_⟩
      intro h
      obtain ⟨g, hg, hread⟩ := h
      cases hg
      have hcount : f.consumed = 21 := congrArg Prod.snd hpair
      have hlen := hread.consumed
      rw [hcount] at hlen
      revert hlen
      decide

end TstMuduo.Net
