import Mathlib.Data.List.Forall2
import Mathlib.Data.List.TakeWhile
import TstMuduo.Lib.Lines

/-!
# ReplaceLineInFile (muduo/base/common.cpp)

The file is read line by line into an array of 4096 characters and written again. A line that
does not fit ends the loop, so it and all that follow are lost; and in a line that holds the word,
the replacement stands at the front and as many characters as the word has are cut there, wherever
the word was found.
-/

namespace TstMuduo.Base
open TstMuduo.Lib

/-! ### What the function uses of the library -/

/- `istream::getline(buf, n)`: the characters stored and what is left of the stream. No result:
`failbit` is set, at the end of the stream or by a line that does not fit. -/
def getline (n : Nat) (stream : List Char) : Option (List Char × List Char) :=
  let stored := stream.takeWhile (· ≠ '\n')
  if stream = [] ∨ n - 1 < stored.length then
    none
  else
    some (stored, (stream.dropWhile (· ≠ '\n')).tail)

/- An array of characters read as a C string ends at the first NUL. -/
def cString (chars : List Char) : List Char := chars.takeWhile (· ≠ '\x00')

/- `strstr`: the place of the first occurrence. -/
def strstr (s word : List Char) : Option Nat := findFirst word s

theorem getline_length {n : Nat} {stream stored rest : List Char}
    (h : getline n stream = some (stored, rest)) : rest.length < stream.length := by
  unfold getline at h
  simp only at h
  split_ifs at h with hs
  obtain ⟨-, rfl⟩ : _ ∧ (stream.dropWhile (· ≠ '\n')).tail = rest := by simpa using h
  have hne : 0 < stream.length := List.length_pos_iff.mpr fun h0 => hs (Or.inl h0)
  have hle := (List.dropWhile_sublist (· ≠ '\n') (l := stream)).length_le
  rw [List.length_tail]
  omega

/-! ### The function -/

/- What the loop appends for a line (`common.cpp:393`). -/
def replaceLine (SpecifyLine newline line : List Char) : List Char :=
  if strstr line SpecifyLine = none then
    line
  else
    newline ++ line.drop SpecifyLine.length

/- The loop (`common.cpp:390`), with the text gathered so far. -/
def replaceLoop (SpecifyLine newline stream tempStr : List Char) : List Char :=
  match h : getline 4096 stream with
  | none => tempStr
  | some (stored, rest) =>
    have : rest.length < stream.length := getline_length h
    replaceLoop SpecifyLine newline rest
      (tempStr ++ replaceLine SpecifyLine newline (cString stored) ++ ['\n'])
termination_by stream.length

/- `ReplaceLineInFile` (`common.cpp:379`): the text of the file afterwards. Either opening may
fail. -/
def ReplaceLineInFile (opensIn opensOut : Bool) (text SpecifyLine newline : List Char) :
    List Char :=
  if opensIn then
    let tempStr := replaceLoop SpecifyLine newline text []
    if opensOut then tempStr else text
  else
    text

/-! ### One line -/

theorem all_ne {line : List Char} {t : Char} (h : t ∉ line) :
    ∀ c ∈ line, decide (c ≠ t) = true := by
  intro c hc
  exact decide_eq_true fun (e : c = t) => h (e ▸ hc)

theorem takeWhile_line {line rest : List Char} (h : '\n' ∉ line) :
    (line ++ '\n' :: rest).takeWhile (· ≠ '\n') = line := by
  rw [List.takeWhile_append_of_pos (all_ne h)]
  simp

theorem dropWhile_line {line rest : List Char} (h : '\n' ∉ line) :
    (line ++ '\n' :: rest).dropWhile (· ≠ '\n') = '\n' :: rest := by
  rw [List.dropWhile_append_of_pos (all_ne h)]
  simp

theorem getline_line {line rest : List Char} (n : Nat) (h : '\n' ∉ line)
    (hlen : line.length ≤ n - 1) : getline n (line ++ '\n' :: rest) = some (line, rest) := by
  simp only [getline, takeWhile_line h, dropWhile_line h]
  rw [if_neg (by simpa using hlen), List.tail_cons]

theorem getline_long {line rest : List Char} (n : Nat) (h : '\n' ∉ line)
    (hlen : n - 1 < line.length) : getline n (line ++ '\n' :: rest) = none := by
  simp only [getline, takeWhile_line h]
  rw [if_pos (Or.inr hlen)]

theorem cString_eq {line : List Char} (h : '\x00' ∉ line) : cString line = line :=
  List.takeWhile_eq_self_iff.mpr (all_ne h)

section
variable (SpecifyLine newline : List Char)

theorem replaceLoop_nil (tempStr : List Char) :
    replaceLoop SpecifyLine newline [] tempStr = tempStr := by
  rw [replaceLoop]
  simp [getline]

theorem replaceLoop_line {line rest tempStr : List Char} (h : '\n' ∉ line) (h0 : '\x00' ∉ line)
    (hlen : line.length ≤ 4095) :
    replaceLoop SpecifyLine newline (line ++ '\n' :: rest) tempStr =
      replaceLoop SpecifyLine newline rest
        (tempStr ++ replaceLine SpecifyLine newline line ++ ['\n']) := by
  rw [replaceLoop]
  split
  · rename_i hget
    rw [getline_line 4096 h hlen] at hget
    exact absurd hget (by simp)
  · rename_i stored rest' hget
    rw [getline_line 4096 h hlen] at hget
    obtain ⟨rfl, rfl⟩ : line = stored ∧ rest = rest' := by simpa using hget
    rw [cString_eq h0]

theorem replaceLoop_long {line rest tempStr : List Char} (h : '\n' ∉ line)
    (hlen : 4095 < line.length) :
    replaceLoop SpecifyLine newline (line ++ '\n' :: rest) tempStr = tempStr := by
  rw [replaceLoop]
  split
  · rfl
  · rename_i hget
    rw [getline_long 4096 h hlen] at hget
    exact absurd hget (by simp)

theorem replaceLoop_unlines (lines : List (List Char)) (tempStr : List Char)
    (h : ∀ l ∈ lines, '\n' ∉ l ∧ '\x00' ∉ l) :
    replaceLoop SpecifyLine newline (unlines '\n' lines) tempStr = tempStr ++
      unlines '\n' ((lines.takeWhile fun l => l.length ≤ 4095).map
        (replaceLine SpecifyLine newline)) := by
  induction lines generalizing tempStr with
  | nil => simp [replaceLoop_nil]
  | cons line lines ih =>
    obtain ⟨hl, hl0⟩ := h line List.mem_cons_self
    have hrest : ∀ l ∈ lines, '\n' ∉ l ∧ '\x00' ∉ l := fun l hm => h l (List.mem_cons_of_mem _ hm)
    rw [unlines_cons]
    by_cases hlen : line.length ≤ 4095
    · rw [replaceLoop_line SpecifyLine newline hl hl0 hlen, ih _ hrest]
      simp [hlen]
    · rw [replaceLoop_long SpecifyLine newline hl (by omega)]
      simp [hlen]

end

/-! ### The rest of the file -/

def Replaced (SpecifyLine newline line line' : List Char) : Prop :=
  (¬ SpecifyLine <:+: line → line' = line) ∧
    ∀ p, FirstAt SpecifyLine line p →
      line' = line.take p ++ newline ++ line.drop (p + SpecifyLine.length)

/-- The text is of as many lines as before, each of them replaced. -/
def Kept (SpecifyLine newline : List Char) (lines : List (List Char)) (text : List Char) : Prop :=
  ∃ lines', text = unlines '\n' lines' ∧ (∀ l ∈ lines', '\n' ∉ l) ∧
    List.Forall₂ (Replaced SpecifyLine newline) lines lines'

/-- In this line, where the word was found at `p`, the replacement at the front comes to the same:
what is left of the text before the word and of the word, once so many characters are cut, is
again the text before it. -/
def FrontAgrees (SpecifyLine newline line : List Char) (p : Nat) : Prop :=
  newline ++ (line.take p ++ SpecifyLine).drop SpecifyLine.length = line.take p ++ newline

/-- When the function does what is asked of it. -/
structure Replaceable (SpecifyLine newline : List Char) (lines : List (List Char)) : Prop where
  fits : ∀ l ∈ lines, l.length ≤ 4095
  oneLine : '\n' ∈ newline → ∀ l ∈ lines, ¬ SpecifyLine <:+: l
  front : ∀ l ∈ lines, ∀ p, FirstAt SpecifyLine l p → FrontAgrees SpecifyLine newline l p

section
variable {SpecifyLine newline line : List Char}

theorem replaceLine_of_not (h : ¬ SpecifyLine <:+: line) :
    replaceLine SpecifyLine newline line = line :=
  if_pos (findFirst_eq_none.mpr h)

theorem replaceLine_of_isInfix (h : SpecifyLine <:+: line) :
    replaceLine SpecifyLine newline line = newline ++ line.drop SpecifyLine.length :=
  if_neg fun hn => findFirst_eq_none.mp hn h

theorem exists_firstAt (h : SpecifyLine <:+: line) : ∃ p, FirstAt SpecifyLine line p := by
  cases hf : findFirst SpecifyLine line with
  | none => exact absurd h (findFirst_eq_none.mp hf)
  | some p => exact ⟨p, findFirst_eq_some hf⟩

theorem drop_front {p : Nat} (h : FirstAt SpecifyLine line p) :
    line.drop SpecifyLine.length =
      (line.take p ++ SpecifyLine).drop SpecifyLine.length ++
        line.drop (p + SpecifyLine.length) := by
  have hsplit := h.split
  rw [← List.append_assoc] at hsplit
  conv_lhs => rw [hsplit]
  rw [List.drop_append_of_le_length (by simp)]

theorem replaceLine_eq_iff {p : Nat} (h : FirstAt SpecifyLine line p) :
    replaceLine SpecifyLine newline line =
        line.take p ++ newline ++ line.drop (p + SpecifyLine.length) ↔
      FrontAgrees SpecifyLine newline line p := by
  rw [replaceLine_of_isInfix h.isInfix, drop_front h, ← List.append_assoc, FrontAgrees]
  exact List.append_left_inj _

theorem replaced_replaceLine
    (h : ∀ p, FirstAt SpecifyLine line p → FrontAgrees SpecifyLine newline line p) :
    Replaced SpecifyLine newline line (replaceLine SpecifyLine newline line) :=
  ⟨replaceLine_of_not, fun p hp => (replaceLine_eq_iff hp).mpr (h p hp)⟩

theorem exists_replaced {lines lines' : List (List Char)}
    (h : List.Forall₂ (Replaced SpecifyLine newline) lines lines') (hl : line ∈ lines) :
    ∃ line' ∈ lines', Replaced SpecifyLine newline line line' := by
  induction h with
  | nil => simp at hl
  | cons hr _ ih =>
    rcases List.mem_cons.mp hl with rfl | hl
    · exact ⟨_, List.mem_cons_self, hr⟩
    · obtain ⟨line', hmem, hr'⟩ := ih hl
      exact ⟨line', List.mem_cons_of_mem _ hmem, hr'⟩

theorem Replaced.newline_mem {line' : List Char} (h : Replaced SpecifyLine newline line line')
    (hin : SpecifyLine <:+: line) {c : Char} (hc : c ∈ newline) : c ∈ line' := by
  obtain ⟨p, hp⟩ := exists_firstAt hin
  rw [h.2 p hp]
  simp [hc]

theorem replaceLine_oneLine (hline : '\n' ∉ line) (h : '\n' ∈ newline → ¬ SpecifyLine <:+: line) :
    '\n' ∉ replaceLine SpecifyLine newline line := by
  by_cases hin : SpecifyLine <:+: line
  · rw [replaceLine_of_isInfix hin, List.mem_append]
    rintro (hn | hl)
    · exact h hn hin
    · exact hline (List.mem_of_mem_drop hl)
  · rwa [replaceLine_of_not hin]

/-- The function keeps the rest of the file and replaces the word exactly when every line fits, no
line is broken by the replacement, and the front is as good a place for it as where the word
stands. -/
theorem replaceLineInFile_kept_iff (SpecifyLine newline : List Char) (lines : List (List Char))
    (hlines : ∀ l ∈ lines, '\n' ∉ l ∧ '\x00' ∉ l) :
    Kept SpecifyLine newline lines
        (ReplaceLineInFile true true (unlines '\n' lines) SpecifyLine newline) ↔
      Replaceable SpecifyLine newline lines := by
  have htext : ReplaceLineInFile true true (unlines '\n' lines) SpecifyLine newline =
      unlines '\n' ((lines.takeWhile fun l => l.length ≤ 4095).map
        (replaceLine SpecifyLine newline)) := by
    simp [ReplaceLineInFile, replaceLoop_unlines SpecifyLine newline lines [] hlines]
  rw [htext]
  constructor
  · rintro ⟨lines', hres, hfree, hall⟩
    have hone : '\n' ∈ newline → ∀ l ∈ lines, ¬ SpecifyLine <:+: l := by
      intro hn l hl hin
      obtain ⟨l', hl', hr⟩ := exists_replaced hall hl
      exact hfree l' hl' (hr.newline_mem hin hn)
    have hcode := unlines_inj (fun m hm => by
      obtain ⟨l, hl, rfl⟩ := List.mem_map.mp hm
      have hl := (List.takeWhile_sublist _).mem hl
      exact replaceLine_oneLine (hlines l hl).1 fun hn => hone hn l hl) hfree hres
    have hlen := hall.length_eq
    have hfits : (lines.takeWhile fun l => l.length ≤ 4095) = lines := by
      apply (List.takeWhile_prefix _).eq_of_length
      rw [hlen, ← hcode, List.length_map]
    rw [hfits] at hcode
    rw [← hcode, List.forall₂_map_right_iff, List.forall₂_same] at hall
    exact ⟨by simpa using List.takeWhile_eq_self_iff.mp hfits, hone,
      fun l hl p hp => (replaceLine_eq_iff hp).mp ((hall l hl).2 p hp)⟩
  · intro h
    have hfits : (lines.takeWhile fun l => l.length ≤ 4095) = lines :=
      List.takeWhile_eq_self_iff.mpr (by simpa using h.fits)
    rw [hfits]
    refine ⟨_, rfl, fun m hm => ?_, ?_⟩
    · obtain ⟨l, hl, rfl⟩ := List.mem_map.mp hm
      exact replaceLine_oneLine (hlines l hl).1 fun hn => h.oneLine hn l hl
    · rw [List.forall₂_map_right_iff, List.forall₂_same]
      exact fun l hl => replaced_replaceLine (h.front l hl)

end

theorem replaceLineInFile_kept_iff_logFile :
    Kept "File=.".toList "File=/var".toList ["a=1".toList, "File=./x".toList]
        (ReplaceLineInFile true true (unlines '\n' ["a=1".toList, "File=./x".toList])
          "File=.".toList "File=/var".toList) ↔
      Replaceable "File=.".toList "File=/var".toList ["a=1".toList, "File=./x".toList] :=
  replaceLineInFile_kept_iff "File=.".toList "File=/var".toList
    ["a=1".toList, "File=./x".toList] (by decide)

/- The word `b` in the line `ab`: the file is left with the line `cb`. -/
theorem replaceLineInFile_behind : ¬ ∀ (SpecifyLine newline : List Char) (lines : List (List Char)),
    SpecifyLine ≠ [] → '\n' ∉ SpecifyLine → (∀ l ∈ lines, '\n' ∉ l ∧ '\x00' ∉ l) →
    Kept SpecifyLine newline lines
      (ReplaceLineInFile true true (unlines '\n' lines) SpecifyLine newline) := by
  intro h
  obtain ⟨lines', htext, hfree, hall⟩ :=
    h ['b'] ['c'] [['a', 'b']] (by decide) (by decide) (by decide)
  have hloop := replaceLoop_unlines ['b'] ['c'] [['a', 'b']] [] (by decide)
  have hcode : ReplaceLineInFile true true (unlines '\n' [['a', 'b']]) ['b'] ['c'] =
      unlines '\n' [['c', 'b']] := by
    rw [ReplaceLineInFile, if_pos rfl, if_pos rfl, hloop]
    decide
  rw [hcode] at htext
  obtain rfl := unlines_inj (by decide) hfree htext
  obtain ⟨hr, -⟩ := List.forall₂_cons.mp hall
  have hat : FirstAt ['b'] ['a', 'b'] 1 := findFirst_eq_some (by decide)
  exact absurd (hr.2 1 hat) (by decide)

end TstMuduo.Base
