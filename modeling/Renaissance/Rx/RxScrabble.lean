import Mathlib.Algebra.BigOperators.Ring.Finset
import Mathlib.Tactic.Linarith
import Mathlib.Tactic.Ring
import Renaissance.JdkStreams.JavaScrabble

/-!
# Scrabble with reactive streams

`RxScrabbleImplementation`: the same scores with `Single`, `Maybe` and `Observable`. A `Maybe` is an
`Option` that is empty for a stream without elements.

`scrabble_agree_iff` says for which words `checkBlanks` and `score3` come to the same result as
`JavaScrabble`. The histogram starts to count at 0 here, and `last3` has all letters but the first three.
-/

namespace Renaissance

open JavaCollections JavaStreams

namespace RxScrabble

def letterScores : List ℤ :=
  [1, 3, 3, 2, 1, 4, 2, 4, 1, 8, 5, 1, 3, 1, 1, 3, 10, 1, 1, 1, 1, 4, 4, 8, 4, 10]

def scrabbleAvailableLetters : List ℤ :=
  [9, 2, 2, 1, 12, 2, 3, 2, 9, 1, 1, 4, 2, 6, 8, 2, 1, 6, 4, 6, 4, 2, 2, 1, 2, 1]

/-- `letter - 'a'`. -/
def fromA (letter : ℤ) : ℤ :=
  letter - 'a'.toNat

def scoreOfALetter (letter : ℤ) : Except String ℤ :=
  arrayGet letterScores (fromA letter)

def letterScore (entry : ℤ × ℤ) : Except String ℤ := do
  let score ← arrayGet letterScores (fromA entry.1)
  let available ← arrayGet scrabbleAvailableLetters (fromA entry.1)
  pure (score * min entry.2 available)

/-- `LongWrapper.inc`. -/
def inc (wrapper : ℤ) : ℤ :=
  wrapper + 1

/-- The map that is collected for the histogram. -/
def collected (word : List ℤ) : List (ℤ × ℤ) :=
  word.foldl (fun map value => merge (fun prev _ => inc prev) map value 0) []

def blank (entry : ℤ × ℤ) : Except String ℤ := do
  let available ← arrayGet scrabbleAvailableLetters (fromA entry.1)
  pure (max 0 (entry.2 - available))

section Words

variable (order : IterationOrder (ℤ × ℤ)) (word : List ℤ)

/-- The entries of the map in the order of enumeration. -/
def histoOfLetters : List (ℤ × ℤ) :=
  order.arrange (collected word)

def nBlanks : Except String (Option ℤ) := do
  pure (reduce (· + ·) (← (histoOfLetters order word).mapM blank))

def checkBlanks : Except String (Option Bool) := do
  pure ((← nBlanks order word).map fun l => decide (l ≤ 2))

def score2 : Except String (Option ℤ) := do
  pure (reduce (· + ·) (← (histoOfLetters order word).mapM letterScore))

def first3 : List ℤ :=
  word.take 3

def last3 : List ℤ :=
  word.drop 3

def toBeMaxed : List ℤ :=
  first3 word ++ last3 word

def bonusForDoubleLetter : Except String (Option ℤ) := do
  pure (reduce max (← (toBeMaxed word).mapM scoreOfALetter))

/-- What is there of five values is added up. -/
def score3 : Except String (Option ℤ) := do
  let parts := [← score2 order word, ← score2 order word, ← bonusForDoubleLetter word,
    ← bonusForDoubleLetter word, some (if word.length = 7 then 50 else 0)]
  pure (reduce (· + ·) (parts.filterMap id))

end Words

open Scrabble

variable (order : IterationOrder (ℤ × ℤ)) (w : Word)

theorem fromA_letter (l : Fin 26) : fromA (letter 'a' l) = (l.val : ℤ) := by
  unfold fromA letter
  omega

/-- Both tables are the same. -/
theorem arrayGet_score (l : Fin 26) : arrayGet letterScores (fromA (letter 'a' l)) = .ok (score l) := by
  rw [fromA_letter, arrayGet_ok l.isLt]
  rfl

theorem arrayGet_available (l : Fin 26) :
    arrayGet scrabbleAvailableLetters (fromA (letter 'a' l)) = .ok (available l) := by
  rw [fromA_letter, arrayGet_ok l.isLt]
  rfl

theorem collected_concat (word : List ℤ) (value : ℤ) :
    collected (word ++ [value]) = merge (fun prev _ => inc prev) (collected word) value 0 := by
  unfold collected
  rw [List.foldl_append, List.foldl_cons, List.foldl_nil]

theorem keyed_collected (word : List ℤ) : Keyed (collected word) := by
  induction word using List.reverseRecOn with
  | nil => exact Keyed.nil
  | append_singleton word value ih =>
      rw [collected_concat]
      exact ih.update _

/-- The first occurrence of a letter is not counted. -/
theorem lookup_collected (word : List ℤ) (key : ℤ) :
    (collected word).lookup key = if key ∈ word then some (word.count key - 1 : ℤ) else none := by
  induction word using List.reverseRecOn with
  | nil => rfl
  | append_singleton word value ih =>
      rw [collected_concat, merge, lookup_update]
      by_cases same : key = value
      · subst same
        have mem : key ∈ word ++ [key] := by simp
        rw [if_pos rfl, if_pos mem, ih, List.count_append, List.count_singleton_self]
        by_cases known : key ∈ word
        · rw [if_pos known]
          simp [inc]
        · rw [if_neg known, List.count_eq_zero_of_not_mem known]
          rfl
      · rw [if_neg same, ih, List.count_append, List.count_singleton]
        simp [same, Ne.symm same]

/-- One occurrence of each letter is not counted. -/
theorem histogram_histoOfLetters :
    Histogram 'a' w.letters (fun l => w.letters.count l - 1) (histoOfLetters order w.lower) := by
  refine (order.perm _).trans ?_
  have distinct : (w.letters.dedup.map fun l => (letter 'a' l, (w.letters.count l - 1 : ℤ))).Nodup := by
    refine (List.nodup_dedup w.letters).map fun l l' same => letter_injective 'a' ?_
    exact (Prod.mk.inj same).1
  have keyed := keyed_collected w.lower
  refine (List.perm_ext_iff_of_nodup keyed.of_map distinct).mpr fun ⟨key, n⟩ => ?_
  have entry : (key, n) ∈ collected w.lower ↔ (collected w.lower).lookup key = some n :=
    ⟨keyed.lookup_of_mem, mem_of_lookup⟩
  rw [entry, lookup_collected, List.mem_map, Word.lower, Option.ite_none_right_eq_some, List.mem_map]
  constructor
  · rintro ⟨⟨l, mem, rfl⟩, counted⟩
    rw [List.count_map_of_injective w.letters _ (letter_injective 'a')] at counted
    exact ⟨l, List.mem_dedup.mpr mem, Prod.ext rfl (Option.some.inj counted)⟩
  · rintro ⟨l, mem, same⟩
    obtain ⟨rfl, rfl⟩ := Prod.mk.inj same
    refine ⟨⟨l, List.mem_dedup.mp mem, rfl⟩, ?_⟩
    rw [List.count_map_of_injective w.letters _ (letter_injective 'a')]

theorem nBlanks_lower : nBlanks order w.lower =
    .ok (some (∑ l ∈ w.letters.toFinset, max 0 ((w.letters.count l : ℤ) - 1 - available l))) := by
  have ok (l : Fin 26) : blank (letter 'a' l, (w.letters.count l - 1 : ℤ)) =
      .ok (max 0 ((w.letters.count l : ℤ) - 1 - available l)) := by
    rw [blank, arrayGet_available]
    rfl
  obtain ⟨values, done, sum, some'⟩ := (histogram_histoOfLetters order w).sum_ok ok
  rw [nBlanks, done, ← sum, ← reduce_add (some' w.nonempty)]
  rfl

theorem score2_lower : score2 order w.lower =
    .ok (some (∑ l ∈ w.letters.toFinset,
      score l * min ((w.letters.count l : ℤ) - 1) (available l))) := by
  have ok (l : Fin 26) : letterScore (letter 'a' l, (w.letters.count l - 1 : ℤ)) =
      .ok (score l * min ((w.letters.count l : ℤ) - 1) (available l)) := by
    rw [letterScore, arrayGet_score, arrayGet_available]
    rfl
  obtain ⟨values, done, sum, some'⟩ := (histogram_histoOfLetters order w).sum_ok ok
  rw [score2, done, ← sum, ← reduce_add (some' w.nonempty)]
  rfl

theorem bonusForDoubleLetter_lower : bonusForDoubleLetter w.lower = .ok (some (best w.letters)) := by
  have ok (l : Fin 26) : (scoreOfALetter ∘ letter 'a') l = .ok (score l) :=
    arrayGet_score l
  rw [bonusForDoubleLetter, toBeMaxed, first3, last3, List.take_append_drop, Word.lower,
    List.mapM_map, Fallible.mapM_ok fun l _ => ok l]
  obtain ⟨first, others, same⟩ := List.exists_cons_of_ne_nil w.nonempty
  rw [same]
  rfl

/-- The last reduction of `score3`, where nothing is empty. -/
theorem reduce_parts (a b c : ℤ) :
    reduce (· + ·) ([some a, some a, some b, some b, some c].filterMap id) =
      some (2 * (a + b) + c) := by
  show some (a + a + b + b + c) = _
  congr 1
  ring

theorem score3_lower : score3 order w.lower =
    .ok (some (2 * (∑ l ∈ w.letters.toFinset,
      score l * min ((w.letters.count l : ℤ) - 1) (available l) + best w.letters) +
        if w.letters.length = 7 then 50 else 0)) := by
  have length : w.lower.length = w.letters.length := List.length_map _
  rw [score3, score2_lower, bonusForDoubleLetter_lower, length]
  exact congrArg Except.ok (reduce_parts _ _ _)

/-! ## Where both agree -/

/-- A histogram has the number of occurrences of each letter. -/
def CountsLetters (first : Char) (w : Word) (entries : List (ℤ × ℤ)) : Prop :=
  ∀ l ∈ w.letters, (letter first l, (w.letters.count l : ℤ)) ∈ entries

/-- Both implementations agree on a word. -/
structure Agrees (order : IterationOrder (ℤ × ℤ)) (order' : IterationOrder ℤ) (w : Word) : Prop where
  histograms : CountsLetters 'a' w (histoOfLetters order w.lower) ∧
    CountsLetters 'A' w (JavaScrabble.histOfLetters order' w.upper)
  checkBlanks : checkBlanks order w.lower = (JavaScrabble.checkBlanks order' w.upper).map some
  score3 : score3 order w.lower = (JavaScrabble.score3 order' w.upper).map some

/-- The blanks that a word needs. -/
def blanks (w : Word) : ℤ :=
  ∑ l ∈ w.letters.toFinset, max 0 ((w.letters.count l : ℤ) - available l)

/-- The letters that a word has more often than there are pieces. -/
def lacking (w : Word) : Finset (Fin 26) :=
  w.letters.toFinset.filter fun l => available l < w.letters.count l

/-- The letters for which there are enough pieces. -/
def covered (w : Word) : Finset (Fin 26) :=
  w.letters.toFinset.filter fun l => w.letters.count l ≤ available l

/-- One blank less is counted for each letter that is lacking. -/
theorem blanks_lower (w : Word) :
    ∑ l ∈ w.letters.toFinset, max 0 ((w.letters.count l : ℤ) - 1 - available l) =
      blanks w - (lacking w).card := by
  have each (l : Fin 26) : max 0 ((w.letters.count l : ℤ) - 1 - available l) =
      max 0 ((w.letters.count l : ℤ) - available l) -
        if available l < w.letters.count l then 1 else 0 := by
    split_ifs <;> omega
  rw [Finset.sum_congr rfl fun l _ => each l, Finset.sum_sub_distrib, lacking, Finset.card_filter,
    Nat.cast_sum, blanks]
  simp only [Nat.cast_ite, Nat.cast_one, Nat.cast_zero]

/-- The score of each letter is missing once where there are enough pieces. -/
theorem score_lower (w : Word) :
    ∑ l ∈ w.letters.toFinset, score l * min ((w.letters.count l : ℤ) - 1) (available l) =
      ∑ l ∈ w.letters.toFinset, score l * min (w.letters.count l : ℤ) (available l) -
        ∑ l ∈ covered w, score l := by
  have each (l : Fin 26) : score l * min ((w.letters.count l : ℤ) - 1) (available l) =
      score l * min (w.letters.count l : ℤ) (available l) -
        if (w.letters.count l : ℤ) ≤ available l then score l else 0 := by
    split_ifs with enough
    · rw [min_eq_left enough, min_eq_left (by omega)]
      ring
    · rw [min_eq_right (by omega), min_eq_right (by omega), sub_zero]
  rw [Finset.sum_congr rfl fun l _ => each l, Finset.sum_sub_distrib, covered, Finset.sum_filter]

theorem checkBlanks_agrees_iff (order' : IterationOrder ℤ) :
    checkBlanks order w.lower = (JavaScrabble.checkBlanks order' w.upper).map some ↔
      blanks w ≤ 2 ∨ 2 + ((lacking w).card : ℤ) < blanks w := by
  have first : checkBlanks order w.lower = .ok (some (decide (blanks w - (lacking w).card ≤ 2))) := by
    rw [checkBlanks, nBlanks_lower, blanks_lower]
    rfl
  have second : (JavaScrabble.checkBlanks order' w.upper).map some =
      .ok (some (decide (blanks w ≤ 2))) := by
    rw [JavaScrabble.checkBlanks, JavaScrabble.nBlanks_upper]
    rfl
  rw [first, second, Except.ok.injEq, Option.some.injEq, decide_eq_decide]
  omega

theorem score3_agrees_iff (order' : IterationOrder ℤ) :
    score3 order w.lower = (JavaScrabble.score3 order' w.upper).map some ↔
      best w.letters = best (w.letters.take 3 ++ w.letters.drop (w.letters.length - 4)) +
        ∑ l ∈ covered w, score l := by
  have second := congrArg (Except.map some) (JavaScrabble.score3_upper order' w)
  rw [score3_lower, score_lower, second, Except.map, Except.ok.injEq, Option.some.injEq]
  constructor
  · intro same
    linarith
  · intro same
    rw [same]
    ring

theorem countsLetters_upper (order' : IterationOrder ℤ) :
    CountsLetters 'A' w (JavaScrabble.histOfLetters order' w.upper) := by
  intro l mem
  refine (JavaScrabble.histogram_histOfLetters order' w).mem_iff.mpr (List.mem_map.mpr ?_)
  exact ⟨l, List.mem_dedup.mpr mem, rfl⟩

theorem not_countsLetters_lower : ¬CountsLetters 'a' w (histoOfLetters order w.lower) := by
  intro counts
  obtain ⟨l, others, same⟩ := List.exists_cons_of_ne_nil w.nonempty
  have mem := counts l (same ▸ List.mem_cons_self)
  obtain ⟨l', -, entry⟩ := List.mem_map.mp ((histogram_histoOfLetters order w).mem_iff.mp mem)
  obtain ⟨first, second⟩ := Prod.mk.inj entry
  obtain rfl := letter_injective 'a' first
  have smaller : (w.letters.count l' : ℤ) - 1 = w.letters.count l' := second
  omega

/-- The implementations agree on no word, because one of both histograms is too small. `checkBlanks`
agrees unless the blanks exceed two by no more than the number of letters that are lacking. `score3`
agrees if the letters with enough pieces are worth what the best letter is worth above the first three
and the last four. -/
theorem scrabble_agree_iff (order : IterationOrder (ℤ × ℤ)) (order' : IterationOrder ℤ) (w : Word) :
    (¬Agrees order order' w ∧ CountsLetters 'A' w (JavaScrabble.histOfLetters order' w.upper)) ∧
      (checkBlanks order w.lower = (JavaScrabble.checkBlanks order' w.upper).map some ↔
        blanks w ≤ 2 ∨ 2 + ((lacking w).card : ℤ) < blanks w) ∧
      (score3 order w.lower = (JavaScrabble.score3 order' w.upper).map some ↔
        best w.letters = best (w.letters.take 3 ++ w.letters.drop (w.letters.length - 4)) +
          ∑ l ∈ covered w, score l) :=
  ⟨⟨fun agrees => not_countsLetters_lower order w agrees.histograms.1,
    countsLetters_upper w order'⟩, checkBlanks_agrees_iff order w order', score3_agrees_iff order w order'⟩

/-- "a" is worth 4 points or 2. -/
theorem score3_a : ¬(score3 (.insertion _) (Word.lower ⟨[0], by decide⟩) =
    (JavaScrabble.score3 (.insertion _) (Word.upper ⟨[0], by decide⟩)).map some) := by
  decide

end RxScrabble

end Renaissance
