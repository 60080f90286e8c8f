import Mathlib.Algebra.BigOperators.Group.Finset.Basic
import Renaissance.Lib.Fallible
import Renaissance.Lib.JavaStreams

/-!
# Scrabble with Java streams

`JavaScrabble`: what a word is worth. The functions work on the characters of a word as numbers. A word
has less than 2^31 letters, so no count and no score overflows.
-/

namespace Renaissance

open JavaCollections JavaStreams

namespace JavaScrabble

def letterScores : List ℤ :=
  [1, 3, 3, 2, 1, 4, 2, 4, 1, 8, 5, 1, 3, 1, 1, 3, 10, 1, 1, 1, 1, 4, 4, 8, 4, 10]

def scrabbleAvailableLetters : List ℤ :=
  [9, 2, 2, 1, 12, 2, 3, 2, 9, 1, 1, 4, 2, 6, 8, 2, 1, 6, 4, 6, 4, 2, 2, 1, 2, 1]

/-- `letter - 'A'`. -/
def fromA (letter : ℤ) : ℤ :=
  letter - 'A'.toNat

def scoreOfALetter (letter : ℤ) : Except String ℤ :=
  arrayGet letterScores (fromA letter)

def letterScore (entry : ℤ × ℤ) : Except String ℤ := do
  let score ← arrayGet letterScores (fromA entry.1)
  let available ← arrayGet scrabbleAvailableLetters (fromA entry.1)
  pure (score * min entry.2 available)

def blank (entry : ℤ × ℤ) : Except String ℤ := do
  let available ← arrayGet scrabbleAvailableLetters (fromA entry.1)
  pure (max 0 (entry.2 - available))

section Words

variable (order : IterationOrder ℤ) (word : List ℤ)

def histOfLetters : List (ℤ × ℤ) :=
  (groupBy order id word).map fun entry => (entry.1, (entry.2.length : ℤ))

def nBlanks : Except String ℤ := do
  pure (← (histOfLetters order word).mapM blank).sum

def checkBlanks : Except String Bool := do
  pure ((← nBlanks order word) ≤ 2)

def score2 : Except String ℤ := do
  pure (← (histOfLetters order word).mapM letterScore).sum

def first3 : List ℤ :=
  word.take 3

def last3 : List ℤ :=
  word.drop (max 0 ((word.length : ℤ) - 4)).toNat

def toBeMaxed : List ℤ :=
  first3 word ++ last3 word

def bonusForDoubleLetter : Except String ℤ := do
  pure ((reduce max (← (toBeMaxed word).mapM scoreOfALetter)).getD 0)

def score3 : Except String ℤ := do
  pure (2 * ((← score2 order word) + (← bonusForDoubleLetter word)) +
    if word.length = 7 then 50 else 0)

end Words

end JavaScrabble

/-! ## Words -/

namespace Scrabble

/-- A word over the letters a to z. -/
structure Word where
  letters : List (Fin 26)
  nonempty : letters ≠ []

/-- The character of a letter in the alphabet that starts with a given character. -/
def letter (first : Char) (l : Fin 26) : ℤ :=
  first.toNat + l.val

def Word.lower (w : Word) : List ℤ :=
  w.letters.map (letter 'a')

def Word.upper (w : Word) : List ℤ :=
  w.letters.map (letter 'A')

/-- The score of a letter. -/
def score (l : Fin 26) : ℤ :=
  JavaScrabble.letterScores.get l

/-- The number of pieces with the letter. -/
def available (l : Fin 26) : ℤ :=
  JavaScrabble.scrabbleAvailableLetters.get l

/-- The score of the best letter. -/
def best (letters : List (Fin 26)) : ℤ :=
  (reduce max (letters.map score)).getD 0

/-- A histogram has one entry for each letter, with a number that depends on the letter. -/
def Histogram (first : Char) (letters : List (Fin 26)) (count : Fin 26 → ℤ)
    (entries : List (ℤ × ℤ)) : Prop :=
  entries.Perm (letters.dedup.map fun l => (letter first l, count l))

variable {first : Char} {letters : List (Fin 26)} {count : Fin 26 → ℤ} {entries : List (ℤ × ℤ)}

theorem letter_injective (first : Char) : Function.Injective (letter first) := by
  intro l l' same
  unfold letter at same
  exact Fin.ext (by omega)

/-- The values that are computed from the entries of a histogram. -/
theorem Histogram.mapM_ok (histogram : Histogram first letters count entries)
    {f : ℤ × ℤ → Except String ℤ} {g : Fin 26 → ℤ}
    (ok : ∀ l, f (letter first l, count l) = .ok (g l)) :
    ∃ values, entries.mapM f = .ok values ∧ values.Perm (letters.dedup.map g) := by
  have each : ∀ entry ∈ entries, f entry = .ok ((f entry).toOption.getD 0) := by
    intro entry mem
    obtain ⟨l, -, rfl⟩ := List.mem_map.mp (histogram.mem_iff.mp mem)
    rw [ok]
    rfl
  refine ⟨_, Fallible.mapM_ok each, ?_⟩
  have values := histogram.map fun entry => (f entry).toOption.getD 0
  simpa [ok, Except.toOption, Function.comp_def] using values

/-- Their sum. -/
theorem Histogram.sum_ok (histogram : Histogram first letters count entries)
    {f : ℤ × ℤ → Except String ℤ} {g : Fin 26 → ℤ}
    (ok : ∀ l, f (letter first l, count l) = .ok (g l)) :
    ∃ values, entries.mapM f = .ok values ∧ values.sum = ∑ l ∈ letters.toFinset, g l ∧
      (letters ≠ [] → values ≠ []) := by
  obtain ⟨values, done, perm⟩ := histogram.mapM_ok ok
  refine ⟨values, done, ?_, ?_⟩
  · have distinct : letters.dedup.toFinset = letters.toFinset := by
      ext l
      simp
    rw [perm.sum_eq, ← List.sum_toFinset g (List.nodup_dedup letters), distinct]
  · rintro some rfl
    have none := perm.nil_eq.symm
    rw [List.map_eq_nil_iff, List.dedup_eq_nil] at none
    exact some none

end Scrabble

/-! ## Words in upper case -/

namespace JavaScrabble

open Scrabble

variable (order : IterationOrder ℤ) (w : Word)

theorem fromA_letter (l : Fin 26) : fromA (letter 'A' l) = (l.val : ℤ) := by
  unfold fromA letter
  omega

theorem arrayGet_score (l : Fin 26) : arrayGet letterScores (fromA (letter 'A' l)) = .ok (score l) := by
  rw [fromA_letter, arrayGet_ok l.isLt]
  rfl

theorem arrayGet_available (l : Fin 26) :
    arrayGet scrabbleAvailableLetters (fromA (letter 'A' l)) = .ok (available l) := by
  rw [fromA_letter, arrayGet_ok l.isLt]
  rfl

/-- Every letter is counted. -/
theorem histogram_histOfLetters :
    Histogram 'A' w.letters (fun l => w.letters.count l) (histOfLetters order w.upper) := by
  unfold Histogram histOfLetters groupBy Word.upper
  rw [List.map_map, List.map_id, List.dedup_map_of_injective (letter_injective 'A')]
  refine ((order.perm _).map _).trans (List.Perm.of_eq ?_)
  rw [List.map_map]
  refine List.map_congr_left fun l _ => ?_
  have counted := List.count_map_of_injective w.letters (letter 'A') (letter_injective 'A') l
  rw [List.count_eq_countP, List.countP_eq_length_filter] at counted
  simp only [Function.comp_apply, id, ← counted, beq_eq_decide]

theorem nBlanks_upper : nBlanks order w.upper =
    .ok (∑ l ∈ w.letters.toFinset, max 0 ((w.letters.count l : ℤ) - available l)) := by
  have ok (l : Fin 26) : blank (letter 'A' l, (w.letters.count l : ℤ)) =
      .ok (max 0 ((w.letters.count l : ℤ) - available l)) := by
    rw [blank, arrayGet_available]
    rfl
  obtain ⟨values, done, sum, -⟩ := (histogram_histOfLetters order w).sum_ok ok
  rw [nBlanks, done, ← sum]
  rfl

theorem score2_upper : score2 order w.upper =
    .ok (∑ l ∈ w.letters.toFinset, score l * min (w.letters.count l : ℤ) (available l)) := by
  have ok (l : Fin 26) : letterScore (letter 'A' l, (w.letters.count l : ℤ)) =
      .ok (score l * min (w.letters.count l : ℤ) (available l)) := by
    rw [letterScore, arrayGet_score, arrayGet_available]
    rfl
  obtain ⟨values, done, sum, -⟩ := (histogram_histOfLetters order w).sum_ok ok
  rw [score2, done, ← sum]
  rfl

theorem bonusForDoubleLetter_upper : bonusForDoubleLetter w.upper =
    .ok (best (w.letters.take 3 ++ w.letters.drop (w.letters.length - 4))) := by
  have ends : toBeMaxed w.upper =
      (w.letters.take 3 ++ w.letters.drop (w.letters.length - 4)).map (letter 'A') := by
    have skipped : (max 0 ((w.letters.length : ℤ) - 4)).toNat = w.letters.length - 4 := by
      omega
    rw [toBeMaxed, first3, last3, Word.upper, List.length_map, skipped, List.map_append,
      List.map_take, List.map_drop]
  have ok (l : Fin 26) : (scoreOfALetter ∘ letter 'A') l = .ok (score l) :=
    arrayGet_score l
  rw [bonusForDoubleLetter, ends, List.mapM_map, Fallible.mapM_ok fun l _ => ok l]
  rfl

theorem score3_upper : score3 order w.upper =
    .ok (2 * (∑ l ∈ w.letters.toFinset, score l * min (w.letters.count l : ℤ) (available l) +
      best (w.letters.take 3 ++ w.letters.drop (w.letters.length - 4))) +
        if w.letters.length = 7 then 50 else 0) := by
  have length : w.upper.length = w.letters.length := List.length_map _
  rw [score3, score2_upper, bonusForDoubleLetter_upper, length]
  rfl

end JavaScrabble

end Renaissance
