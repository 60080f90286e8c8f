import Mathlib.Algebra.BigOperators.Group.List.Lemmas
import Renaissance.Lib.JavaStreams
import Renaissance.Lib.JavaString
import Renaissance.Lib.LineFilling

/-!
# Folding text

`foldText` breaks the summary of a benchmark into indented lines. It counts the characters of the words
in a line but not the blanks between them. `foldText_folded_iff` says for which words the lines are not
too long nevertheless.
-/

namespace Renaissance.Host

open JavaStreams LineFilling

/-- The variables of the loop over the words. -/
structure Folding where
  result : List Text := []
  line : Text := []
  column : ℕ := 0

variable (width : ℤ) (indent : Text)

/-- One iteration. -/
def foldWord (s : Folding) (word : Text) : Folding :=
  let s :=
    if s.column + word.length + 1 ≥ width ∧ s.column > 0 then
      { result := s.result ++ [s.line], line := [], column := 0 }
    else s
  let line := if s.column > 0 then s.line ++ text " " else s.line ++ indent
  { s with line := line ++ word, column := s.column + word.length }

def foldText (words : List Text) (width : ℤ) (indent : Text) : List Text :=
  let s := words.foldl (foldWord width indent) {}
  s.result ++ [s.line]

/-! ## What the lines should be -/

/-- `\s` in a regular expression. -/
def isWhiteSpace (c : UInt16) : Bool :=
  c ∈ text " \t\n\x0b\x0c\r"

/-- The parts of a text between white space. -/
def wordsOf (text : Text) : List Text :=
  (text.splitOnP isWhiteSpace).filter (· ≠ [])

/-- Not empty, and without white space. -/
def IsWord (word : Text) : Prop :=
  word ≠ [] ∧ ∀ c ∈ word, isWhiteSpace c = false

instance : DecidablePred IsWord := fun word =>
  decidable_of_iff (word ≠ [] ∧ word.all (fun c => !isWhiteSpace c) = true) (by simp [IsWord])

/-- The lines have the words in their order, and a line of several words has less than `width` characters
after the indent. -/
structure Folded (words lines : List Text) : Prop where
  words : lines.flatMap wordsOf = words
  narrow : ∀ line ∈ lines, 2 ≤ (wordsOf line).length → (line.length - indent.length : ℤ) < width

/-- The words of a line with blanks between them. -/
def joined (line : List Text) : Text :=
  (text " ").intercalate line

/-- With the word, the line would have `width` characters or more. -/
def isFull (line : List Text) (word : Text) : Bool :=
  width ≤ (joined (line ++ [word])).length

/-- The test of the loop. -/
def seemsFull (line : List Text) (word : Text) : Bool :=
  width ≤ (line.map List.length).sum + word.length + 1

/-! ## The loop fills lines -/

/-- A line of the result. -/
def indented (line : List Text) : Text :=
  if line = [] then [] else indent ++ joined line

variable {width indent} {words line : List Text} {word : Text}

theorem joined_concat (nonempty : line ≠ []) : joined (line ++ [word]) = joined line ++ text " " ++ word :=
  JavaString.intercalate_concat nonempty (text " ") word

theorem sum_length_pos (areWords : ∀ word ∈ line, IsWord word) :
    0 < (line.map List.length).sum ↔ line ≠ [] := by
  cases line with
  | nil => simp
  | cons word line =>
      have first := List.length_pos_iff.mpr (areWords word List.mem_cons_self).1
      rw [List.map_cons, List.sum_cons]
      exact iff_of_true (by omega) (List.cons_ne_nil _ _)

/-- The variables of the loop after some words of a line. -/
def Folding.within (indent : Text) (result : List Text) (line : List Text) : Folding where
  result := result
  line := indented indent line
  column := (line.map List.length).sum

theorem foldWord_within (areWords : ∀ word ∈ line, IsWord word) (result : List Text) :
    foldWord width indent (.within indent result line) word =
      if line ≠ [] ∧ seemsFull width line word then
        .within indent (result ++ [indented indent line]) [word]
      else .within indent result (line ++ [word]) := by
  have nonempty := sum_length_pos areWords
  have test : ((line.map List.length).sum + word.length + 1 ≥ width ∧ (line.map List.length).sum > 0) ↔
      line ≠ [] ∧ seemsFull width line word := by
    rw [seemsFull, decide_eq_true_iff, gt_iff_lt, nonempty, and_comm]
  unfold foldWord
  simp only [Folding.within, test]
  split
  · simp [indented, joined, List.intercalate]
  · simp only [gt_iff_lt, nonempty]
    by_cases empty : line = []
    · subst empty
      simp [indented, joined, List.intercalate]
    · rw [if_pos empty, indented, if_neg empty, indented, if_neg (by simp), joined_concat empty]
      simp [List.append_assoc]

/-- The loop goes on with the words. -/
theorem foldl_foldWord (areWords : ∀ word ∈ line ++ words, IsWord word) (result : List Text) :
    (words.foldl (foldWord width indent) (.within indent result line)).result ++
        [(words.foldl (foldWord width indent) (.within indent result line)).line] =
      result ++ (fillFrom (seemsFull width) line words).map (indented indent) := by
  induction words generalizing line result with
  | nil => rfl
  | cons word words ih =>
      have inLine : ∀ word ∈ line, IsWord word := fun word mem => areWords word (by simp [mem])
      rw [List.foldl_cons, foldWord_within inLine, fillFrom]
      split
      · rw [ih (fun other mem => areWords other (List.mem_append_right line mem)), List.map_cons,
          List.append_assoc]
        rfl
      · exact ih (by simpa using areWords) result

theorem foldText_eq (areWords : ∀ word ∈ words, IsWord word) :
    foldText words width indent = (fill (seemsFull width) words).map (indented indent) := by
  have areWords' : ∀ word ∈ [] ++ words, IsWord word := areWords
  exact foldl_foldWord areWords' []

/-! ## The words and the length of a line -/

theorem wordsOf_append {c : UInt16} (white : isWhiteSpace c) (front rest : Text) :
    wordsOf (front ++ c :: rest) = wordsOf front ++ wordsOf rest := by
  rw [wordsOf, List.splitOnP_append_cons front rest white, List.filter_append]
  rfl

theorem wordsOf_word (isWord : IsWord word) : wordsOf word = [word] := by
  rw [wordsOf, List.splitOnP_eq_singleton isWord.2]
  simp [isWord.1]

theorem wordsOf_joined (areWords : ∀ word ∈ line, IsWord word) : wordsOf (joined line) = line := by
  induction line with
  | nil => rfl
  | cons word line ih =>
      have first := wordsOf_word (areWords word List.mem_cons_self)
      have rest := ih fun word mem => areWords word (List.mem_cons_of_mem _ mem)
      cases line with
      | nil => simpa [joined] using first
      | cons next line =>
          have split : joined (word :: next :: line) = word ++ 32 :: joined (next :: line) := by
            rw [joined, List.intercalate_cons_cons, List.append_assoc]
            rfl
          rw [split, wordsOf_append (by decide), first, rest]
          rfl

theorem wordsOf_indented (blanks : ∀ c ∈ indent, isWhiteSpace c) (areWords : ∀ word ∈ line, IsWord word) :
    wordsOf (indented indent line) = line := by
  unfold indented
  split
  next empty => rw [empty]; rfl
  next =>
    induction indent with
    | nil => exact wordsOf_joined areWords
    | cons c indent ih =>
        have rest := ih fun c mem => blanks c (List.mem_cons_of_mem _ mem)
        exact (wordsOf_append (blanks c List.mem_cons_self) [] _).trans rest

theorem length_joined_concat (nonempty : line ≠ []) :
    (joined (line ++ [word])).length = (joined line).length + 1 + word.length := by
  rw [joined_concat nonempty, List.length_append, List.length_append]
  rfl

theorem sum_length_le_joined (line : List Text) : (line.map List.length).sum ≤ (joined line).length := by
  induction line using List.reverseRecOn with
  | nil => rfl
  | append_singleton line word ih =>
      rw [List.map_append, List.sum_append]
      by_cases empty : line = []
      · subst empty
        simp [joined]
      · rw [length_joined_concat empty]
        simp only [List.map_cons, List.map_nil, List.sum_cons, List.sum_nil]
        omega

/-- The test of the loop does not find a line full too early. -/
theorem isFull_of_seemsFull (line : List Text) (word : Text) (nonempty : line ≠ [])
    (seems : seemsFull width line word) : isFull width line word := by
  have least := sum_length_le_joined line
  rw [seemsFull, decide_eq_true_iff] at seems
  rw [isFull, decide_eq_true_iff, length_joined_concat nonempty]
  push_cast
  omega

theorem length_joined_le (front : List Text) (word : Text) (rest : List Text) :
    (joined (front ++ [word])).length ≤ (joined (front ++ word :: rest)).length := by
  induction rest using List.reverseRecOn with
  | nil => exact le_refl _
  | append_singleton rest last ih =>
      have longer : (joined (front ++ word :: rest ++ [last])).length =
          (joined (front ++ word :: rest)).length + 1 + last.length := length_joined_concat (by simp)
      have split : front ++ word :: (rest ++ [last]) = front ++ word :: rest ++ [last] := by simp
      rw [split, longer]
      omega

/-- A line was not full for any of its words if and only if it is not too long. -/
theorem unbroken_isFull_iff :
    Unbroken (isFull width) line ↔ (2 ≤ line.length → ((joined line).length : ℤ) < width) := by
  simp only [Unbroken, isFull, decide_eq_true_iff, not_le]
  constructor
  · intro unbroken several
    have nonempty : line ≠ [] := fun empty => by simp [empty] at several
    obtain ⟨front, last, rfl⟩ := (List.eq_nil_or_concat' line).resolve_left nonempty
    refine unbroken front last [] rfl ?_
    rintro rfl
    simp at several
  · rintro narrow front word rest rfl nonempty
    have positive := List.length_pos_iff.mpr nonempty
    have whole := narrow (by simp; omega)
    have least := length_joined_le front word rest
    omega

/-- The words come out in their order. The lines are not too long if and only if, wherever the words in
lines of the right length go to the next line, the test of the loop is met, too. -/
theorem foldText_folded_iff (width : ℤ) (indent : Text) (words : List Text)
    (areWords : ∀ word ∈ words, IsWord word) (blanks : ∀ c ∈ indent, isWhiteSpace c) :
    (foldText words width indent).flatMap wordsOf = words ∧
      (Folded width indent words (foldText words width indent) ↔
        Breaks (seemsFull width) (fill (isFull width) words)) := by
  have inLines : ∀ line ∈ fill (seemsFull width) words, wordsOf (indented indent line) = line :=
    fun line mem => wordsOf_indented blanks fun word inLine =>
      areWords word (mem_of_mem_fill mem inLine)
  have kept : (foldText words width indent).flatMap wordsOf = words := by
    rw [foldText_eq areWords, List.flatMap_map, List.flatMap_congr inLines, List.flatMap_id',
      flatten_fill]
  refine ⟨kept, ?_⟩
  rw [← unbroken_iff isFull_of_seemsFull]
  constructor
  · intro folded line mem
    rw [unbroken_isFull_iff]
    intro several
    have inText : indented indent line ∈ foldText words width indent := by
      rw [foldText_eq areWords]
      exact List.mem_map_of_mem mem
    have short := folded.narrow _ inText (by rwa [inLines line mem])
    rw [indented, if_neg (by rintro rfl; simp at several), List.length_append] at short
    push_cast at short
    omega
  · intro unbroken
    refine ⟨kept, fun text mem several => ?_⟩
    rw [foldText_eq areWords] at mem
    obtain ⟨line, inFill, rfl⟩ := List.mem_map.mp mem
    rw [inLines line inFill] at several
    have short := unbroken_isFull_iff.mp (unbroken line inFill) several
    rw [indented, if_neg (by rintro rfl; simp at several), List.length_append]
    push_cast
    omega

/-- The last word goes to a second line. -/
theorem foldText_folded_iff_twoLines :
    let words := [text "Runs", text "the", text "benchmark."]
    foldText words 16 (text "  ") = [text "  Runs the", text "  benchmark."] ∧
      (foldText words 16 (text "  ")).flatMap wordsOf = words ∧
      (Folded 16 (text "  ") words (foldText words 16 (text "  ")) ↔
        Breaks (seemsFull 16) (fill (isFull 16) words)) :=
  ⟨by decide, foldText_folded_iff 16 (text "  ") [text "Runs", text "the", text "benchmark."]
    (by decide) (List.all_eq_true.mp (by decide))⟩

/-- The words of a summary with the length of 65 characters. -/
def shortWords : List Text :=
  List.replicate 33 (text "a")

/-- They stay in one line, for which 65 characters are too many. -/
theorem shortWords_not_folded :
    (∀ word ∈ shortWords, IsWord word) ∧
      ¬Folded 65 (text "    ") shortWords (foldText shortWords 65 (text "    ")) := by
  refine ⟨?_, fun folded => ?_⟩
  · intro word mem
    obtain ⟨-, rfl⟩ := List.mem_replicate.mp mem
    decide
  · have oneLine : foldText shortWords 65 (text "    ") = [indented (text "    ") shortWords] := by
      decide +kernel
    have short := folded.narrow (indented (text "    ") shortWords) (by rw [oneLine]; simp)
      (by decide +kernel)
    exact absurd short (by decide +kernel)

end Renaissance.Host
