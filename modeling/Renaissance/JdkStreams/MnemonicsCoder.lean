import Renaissance.Lib.JavaStreams

/-!
# Phone mnemonics

`MnemonicsCoderWithStream`: all ways to write a number as a phrase of dictionary words.
`translate_phrases` says that `translate` and `parallelTranslate` find exactly the phrases.
-/

namespace Renaissance.Mnemonics

open JavaCollections JavaStreams

/-- What ends a call of `encode` with an exception. -/
inductive Failure
  | stackOverflow
  | stringIndexOutOfBounds
  deriving DecidableEq, Repr

def mnemonics : List (UInt16 × Text) :=
  [("2", "ABC"), ("3", "DEF"), ("4", "GHI"), ("5", "JKL"), ("6", "MNO"), ("7", "PQRS"), ("8", "TUV"),
    ("9", "WXYZ")].map fun entry => ((text entry.1).headD 0, text entry.2)

/-- The inverted map: the code of a letter is the string of its key. -/
def charCode : List (UInt16 × Text) :=
  mnemonics.flatMap fun e => e.2.map fun c => (c, [e.1])

section Coder

-- `Character.toUpperCase`, of which nothing is used
variable (toUpperCase : UInt16 → UInt16)

/-- The digits of a word. A character without a code is joined as `null`. -/
def wordCode (word : Text) : Text :=
  word.flatMap fun c => (charCode.lookup (toUpperCase c)).getD (text "null")

variable (order : IterationOrder Text) (words : List Text)

def wordsForNum : List (Text × List Text) :=
  groupBy order (wordCode toUpperCase) words

/-- `number.substring(0, end)`. -/
def substring (number : Text) (last : ℤ) : Except Failure Text :=
  if 0 ≤ last then .ok (number.take last.toNat) else .error .stringIndexOutOfBounds

/-- The words of the entries whose key is at the end of the number. -/
def wordStream (number : Text) (entries : List (Text × List Text)) : List Text :=
  (entries.filter fun y => y.1 <:+ number).flatMap Prod.snd

/-- What is collected for the word `x`, with `encode` for the rest of the number. -/
def encodeWord (encode : Text → Finset Text → Except Failure (Finset Text)) (number : Text)
    (currentResult : Finset Text) (x : Text) : Except Failure (Finset Text) := do
  let rest ← substring number (number.length - x.length)
  let intermediate ← encode rest (currentResult.image fun y => x ++ y)
  pure (if x.length = number.length then {x}
    else intermediate.image fun y => y ++ text " " ++ x)

/-- `encode` with a stack for `depth` nested calls. -/
def encode : ℕ → Text → Finset Text → Except Failure (Finset Text)
  | 0, _, _ => .error .stackOverflow
  | depth + 1, number, currentResult =>
      collectSet (encodeWord (encode depth) number currentResult)
        (wordStream number (wordsForNum toUpperCase order words))

def translate (depth : ℕ) (number : Text) : Except Failure (Finset Text) :=
  encode toUpperCase order words depth number ∅

/-- The possible outcomes of `parallelEncode`, which calls `encode` for the rest of the number. -/
def ParallelEncode (depth : ℕ) (number : Text) (currentResult : Finset Text)
    (outcome : Except Failure (Finset Text)) : Prop :=
  ∃ entries, Grouping (wordCode toUpperCase) words entries ∧
    if 3 ≤ number.length then
      Collects (encodeWord (encode toUpperCase order words depth) number currentResult)
        (wordStream number entries) outcome
    else
      collectSet (encodeWord (encode toUpperCase order words depth) number currentResult)
        (wordStream number entries) = outcome

def ParallelTranslate (depth : ℕ) (number : Text) (outcome : Except Failure (Finset Text)) : Prop :=
  ParallelEncode toUpperCase order words depth number ∅ outcome

/-! ## Phrases -/

/-- The letter is on the key of the keypad. -/
def OnKey (key letter : UInt16) : Prop :=
  ∃ letters, (key, letters) ∈ mnemonics ∧ letter ∈ letters

instance (key letter : UInt16) : Decidable (OnKey key letter) :=
  decidable_of_iff (∃ e ∈ mnemonics, e.1 = key ∧ letter ∈ e.2)
    ⟨fun ⟨e, mem, isKey, on⟩ => ⟨e.2, isKey ▸ mem, on⟩, fun ⟨_, mem, on⟩ => ⟨_, mem, rfl, on⟩⟩

/-- All characters of the word are on a key. -/
def Coded (word : Text) : Prop :=
  ∀ c ∈ word, ∃ key, OnKey key (toUpperCase c)

/-- Words of the dictionary that are written with the keys of the number, one after the other. -/
structure Spells (number : Text) (phrase : List Text) : Prop where
  nonempty : phrase ≠ []
  listed : ∀ w ∈ phrase, w ∈ words ∧ Coded toUpperCase w
  code : List.Forall₂ (fun key c => OnKey key (toUpperCase c)) number phrase.flatten

/-- `w1 + " " + ... + " " + wk`. -/
def joined (phrase : List Text) : Text :=
  (text " ").intercalate phrase

/-- The number consists of digits. -/
def Digits (number : Text) : Prop :=
  ∀ d ∈ number, d ∈ text "0123456789"

variable {toUpperCase order words} {number x : Text} {depth : ℕ}

/-- Every capital letter is on one key, and nothing else is on the keypad. -/
example : (text "ABCDEFGHIJKLMNOPQRSTUVWXYZ").map (fun c => charCode.lookup c) =
    (text "22233344455566677778889999").map fun key => some [key] := by decide

/-- The inverted map has the key of each letter. -/
theorem lookup_charCode {c : UInt16} {code : Text} :
    charCode.lookup c = some code ↔ ∃ key, OnKey key c ∧ code = [key] := by
  have keyed : Keyed charCode := by
    unfold Keyed
    decide
  have entry : (c, code) ∈ charCode ↔ ∃ key, OnKey key c ∧ code = [key] := by
    unfold charCode OnKey
    rw [List.mem_flatMap]
    constructor
    · rintro ⟨⟨key, letters⟩, mem, letter⟩
      obtain ⟨c', on, same⟩ := List.mem_map.mp letter
      cases same
      exact ⟨key, ⟨letters, mem, on⟩, rfl⟩
    · rintro ⟨key, ⟨letters, mem, on⟩, rfl⟩
      exact ⟨(key, letters), mem, List.mem_map.mpr ⟨c, on, rfl⟩⟩
  rw [← entry]
  exact ⟨mem_of_lookup, fun mem => keyed.lookup_of_mem mem⟩

theorem wordCode_cons {c key : UInt16} (on : OnKey key (toUpperCase c)) (word : Text) :
    wordCode toUpperCase (c :: word) = key :: wordCode toUpperCase word := by
  unfold wordCode
  rw [List.flatMap_cons, lookup_charCode.mpr ⟨key, on, rfl⟩]
  rfl

theorem length_wordCode {word : Text} (coded : Coded toUpperCase word) :
    (wordCode toUpperCase word).length = word.length := by
  induction word with
  | nil => rfl
  | cons c word ih =>
      obtain ⟨key, on⟩ := coded c List.mem_cons_self
      rw [wordCode_cons on, List.length_cons, List.length_cons,
        ih fun d later => coded d (List.mem_cons_of_mem c later)]

/-- The code of a word is the keys that it is written with. -/
theorem wordCode_eq_iff {word code : Text} (coded : Coded toUpperCase word) :
    wordCode toUpperCase word = code ↔
      List.Forall₂ (fun key c => OnKey key (toUpperCase c)) code word := by
  induction word generalizing code with
  | nil =>
      rw [List.forall₂_nil_right_iff]
      exact eq_comm
  | cons c word ih =>
      obtain ⟨key, on⟩ := coded c List.mem_cons_self
      have rest : Coded toUpperCase word := fun d later => coded d (List.mem_cons_of_mem c later)
      rw [wordCode_cons on, List.forall₂_cons_right_iff]
      constructor
      · rintro rfl
        exact ⟨key, _, on, (ih rest).mp rfl, rfl⟩
      · rintro ⟨key', code', on', written, rfl⟩
        have found := lookup_charCode.mpr ⟨key', on', rfl⟩
        rw [lookup_charCode.mpr ⟨key, on, rfl⟩] at found
        cases found
        rw [(ih rest).mpr written]

theorem flatMap_wordCode (phrase : List Text) :
    phrase.flatMap (wordCode toUpperCase) = wordCode toUpperCase phrase.flatten := by
  induction phrase with
  | nil => rfl
  | cons w phrase ih =>
      rw [List.flatMap_cons, ih, List.flatten_cons]
      exact List.flatMap_append.symm

/-- The words of a phrase have codes that make up the number. -/
theorem spells_iff {phrase : List Text} : Spells toUpperCase words number phrase ↔ phrase ≠ [] ∧
    (∀ w ∈ phrase, w ∈ words ∧ Coded toUpperCase w) ∧
    phrase.flatMap (wordCode toUpperCase) = number := by
  have coded (listed : ∀ w ∈ phrase, w ∈ words ∧ Coded toUpperCase w) :
      Coded toUpperCase phrase.flatten := by
    intro c mem
    obtain ⟨w, inPhrase, inWord⟩ := List.mem_flatten.mp mem
    exact (listed w inPhrase).2 c inWord
  rw [flatMap_wordCode]
  constructor
  · rintro ⟨some, listed, code⟩
    exact ⟨some, listed, (wordCode_eq_iff (coded listed)).mpr code⟩
  · rintro ⟨some, listed, code⟩
    exact ⟨some, listed, (wordCode_eq_iff (coded listed)).mp code⟩

/-- A word with a character that has no code does not match the end of a number. -/
theorem coded_of_suffix (digits : Digits number) (matched : wordCode toUpperCase x <:+ number) :
    Coded toUpperCase x := by
  intro c mem
  by_contra offKeypad
  have uncoded : charCode.lookup (toUpperCase c) = none := by
    cases found : charCode.lookup (toUpperCase c) with
    | none => rfl
    | some code =>
        obtain ⟨key, on, -⟩ := lookup_charCode.mp found
        exact absurd ⟨key, on⟩ offKeypad
  have letter : (text "null").headD 0 ∈ wordCode toUpperCase x := by
    refine List.mem_flatMap.mpr ⟨c, mem, ?_⟩
    rw [uncoded, Option.getD_none]
    decide
  exact absurd (digits _ (matched.subset letter)) (by decide)

theorem joined_concat {phrase : List Text} (some : phrase ≠ []) (x : Text) :
    joined (phrase ++ [x]) = joined phrase ++ text " " ++ x := by
  unfold joined
  induction phrase with
  | nil => exact absurd rfl some
  | cons w phrase ih =>
      cases phrase with
      | nil => simp [List.intercalate]
      | cons w' phrase =>
          have rest := ih (by simp)
          simp only [List.intercalate, List.cons_append, List.intersperse_cons_cons,
            List.flatten_cons, List.append_assoc] at rest ⊢
          rw [rest]

theorem spells_of_keys {phrase : List Text} (some : phrase ≠ []) (listed : ∀ w ∈ phrase, w ∈ words)
    (code : List.Forall₂ (fun key c => OnKey key (toUpperCase c)) number phrase.flatten) :
    Spells toUpperCase words number phrase := by
  refine ⟨some, fun w mem => ⟨listed w mem, fun c inWord => ?_⟩, code⟩
  have keys : ∀ c ∈ phrase.flatten, ∃ key, OnKey key (toUpperCase c) := by
    clear listed some mem inWord
    generalize phrase.flatten = letters at code
    induction code with
    | nil => exact List.forall_mem_nil _
    | cons on _ ih => exact List.forall_mem_cons.mpr ⟨⟨_, on⟩, ih⟩
  exact keys c (List.mem_flatten.mpr ⟨w, mem, inWord⟩)

/-- The last word of a phrase is the one word or comes after a phrase. -/
theorem spells_concat {phrase : List Text} :
    Spells toUpperCase words number (phrase ++ [x]) ↔ (x ∈ words ∧ Coded toUpperCase x) ∧
      (phrase = [] ∧ wordCode toUpperCase x = number ∨
        ∃ front, front ++ wordCode toUpperCase x = number ∧
          Spells toUpperCase words front phrase) := by
  simp only [spells_iff]
  constructor
  · rintro ⟨-, listed, code⟩
    refine ⟨listed x (by simp), ?_⟩
    rw [List.flatMap_append, List.flatMap_singleton] at code
    cases phrase with
    | nil => exact .inl ⟨rfl, code⟩
    | cons w phrase =>
        exact .inr ⟨_, code, List.cons_ne_nil w phrase,
          fun v mem => listed v (List.mem_append_left _ mem), rfl⟩
  · rintro ⟨last, ⟨rfl, code⟩ | ⟨front, code, -, listed, code'⟩⟩
    · exact ⟨by simp, by simpa using last, by simpa using code⟩
    · refine ⟨by simp, fun w mem => ?_, ?_⟩
      · rcases List.mem_append.mp mem with earlier | now
        · exact listed w earlier
        · exact List.mem_singleton.mp now ▸ last
      · rw [List.flatMap_append, List.flatMap_singleton, code', code]

/-- Non-empty words have codes, so only a number that is not empty has phrases. -/
theorem Spells.number_ne_nil {phrase : List Text} (spells : Spells toUpperCase words number phrase)
    (nonempty : ∀ w ∈ words, w ≠ []) : number ≠ [] := by
  obtain ⟨some, listed, code⟩ := spells_iff.mp spells
  obtain ⟨w, later, rfl⟩ := List.exists_cons_of_ne_nil some
  obtain ⟨mem, coded⟩ := listed w List.mem_cons_self
  have size := length_wordCode coded
  have positive := List.length_pos_iff.mpr (nonempty w mem)
  rintro rfl
  rw [List.flatMap_cons, List.append_eq_nil_iff] at code
  rw [code.1, List.length_nil] at size
  omega

/-- The outcome of a call that finds the phrases of a number. -/
def Finds (toUpperCase : UInt16 → UInt16) (words : List Text) (number : Text)
    (outcome : Except Failure (Finset Text)) : Prop :=
  ∃ found, outcome = .ok found ∧
    ∀ p, p ∈ found ↔ ∃ phrase, Spells toUpperCase words number phrase ∧ p = joined phrase

/-- The phrases that end with the word `x`. -/
theorem encodeWord_finds {encode : Text → Finset Text → Except Failure (Finset Text)}
    (currentResult : Finset Text) (nonempty : ∀ w ∈ words, w ≠ []) (listed : x ∈ words)
    (digits : Digits number)
    (matched : wordCode toUpperCase x <:+ number)
    (finds : ∀ front, front.length < number.length → Digits front → ∀ current,
      Finds toUpperCase words front (encode front current)) :
    ∃ found, encodeWord encode number currentResult x = .ok found ∧ ∀ p, p ∈ found ↔
      ∃ phrase, Spells toUpperCase words number (phrase ++ [x]) ∧ p = joined (phrase ++ [x]) := by
  have coded := coded_of_suffix digits matched
  have size := length_wordCode coded
  have positive : 0 < x.length := List.length_pos_iff.mpr (nonempty x listed)
  obtain ⟨front, split⟩ := matched
  have sizes : front.length + x.length = number.length := by
    rw [← split, List.length_append, size]
  have rest : substring number (number.length - x.length) = .ok front := by
    unfold substring
    rw [if_pos (by omega), ← split]
    have last : ((front ++ wordCode toUpperCase x).length - x.length : ℤ).toNat = front.length := by
      rw [List.length_append, size]
      omega
    rw [last, List.take_left]
  have frontDigits : Digits front := fun d mem => digits d (split ▸ List.mem_append_left _ mem)
  obtain ⟨intermediate, found, mem⟩ :=
    finds front (by omega) frontDigits (currentResult.image fun y => x ++ y)
  have collected : encodeWord encode number currentResult x =
      .ok (if x.length = number.length then {x}
        else intermediate.image fun y => y ++ text " " ++ x) := by
    unfold encodeWord
    rw [rest]
    show (encode front _ >>= _) = _
    rw [found]
    rfl
  refine ⟨_, collected, fun p => ?_⟩
  have same {front' : Text} (code : front' ++ wordCode toUpperCase x = number) : front' = front :=
    List.append_cancel_right (code.trans split.symm)
  by_cases whole : x.length = number.length
  · -- the word takes the whole number
    obtain rfl : front = [] := List.eq_nil_of_length_eq_zero (by omega)
    rw [if_pos whole, Finset.mem_singleton]
    constructor
    · rintro rfl
      exact ⟨[], spells_concat.mpr ⟨⟨listed, coded⟩, .inl ⟨rfl, split⟩⟩,
        by simp [joined, List.intercalate]⟩
    · rintro ⟨phrase, spells, rfl⟩
      rcases (spells_concat.mp spells).2 with ⟨rfl, -⟩ | ⟨front', code, before⟩
      · simp [joined, List.intercalate]
      · obtain rfl := same code
        exact (before.number_ne_nil nonempty rfl).elim
  · -- the word comes after a phrase for the front
    rw [if_neg whole, Finset.mem_image]
    constructor
    · rintro ⟨y, here, rfl⟩
      obtain ⟨phrase, spells, rfl⟩ := (mem y).mp here
      exact ⟨phrase, spells_concat.mpr ⟨⟨listed, coded⟩, .inr ⟨front, split, spells⟩⟩,
        (joined_concat spells.nonempty x).symm⟩
    · rintro ⟨phrase, spells, rfl⟩
      rcases (spells_concat.mp spells).2 with ⟨-, code⟩ | ⟨front', code, before⟩
      · exact absurd (by rw [← code, size]) whole
      · obtain rfl := same code
        exact ⟨joined phrase, (mem _).mpr ⟨phrase, before, rfl⟩,
          (joined_concat before.nonempty x).symm⟩

/-- The words that match the end of the number, in any order. -/
theorem mem_wordStream {entries : List (Text × List Text)}
    (grouping : Grouping (wordCode toUpperCase) words entries) :
    x ∈ wordStream number entries ↔ x ∈ words ∧ wordCode toUpperCase x <:+ number := by
  have found := grouping.mem_flatMap (fun key => decide (key <:+ number)) x
  rwa [decide_eq_true_iff] at found

/-- The phrases are told apart by their last words. -/
theorem exists_last {entries : List (Text × List Text)}
    (grouping : Grouping (wordCode toUpperCase) words entries) (p : Text) :
    (∃ x ∈ wordStream number entries, ∃ phrase, Spells toUpperCase words number (phrase ++ [x]) ∧
        p = joined (phrase ++ [x])) ↔
      ∃ phrase, Spells toUpperCase words number phrase ∧ p = joined phrase := by
  constructor
  · rintro ⟨x, -, phrase, spells, rfl⟩
    exact ⟨phrase ++ [x], spells, rfl⟩
  · rintro ⟨phrase, spells, rfl⟩
    obtain ⟨phrase, x, rfl⟩ := List.eq_nil_or_concat' phrase |>.resolve_left spells.nonempty
    obtain ⟨⟨listed, -⟩, code⟩ := spells_concat.mp spells
    refine ⟨x, (mem_wordStream grouping).mpr ⟨listed, ?_⟩, phrase, spells, rfl⟩
    rcases code with ⟨-, rfl⟩ | ⟨front, rfl, -⟩
    · exact List.suffix_refl _
    · exact List.suffix_append _ _

/-- Where `encode` finds the phrases of the shorter numbers, every word of the stream works. -/
theorem wordStream_works {encode : Text → Finset Text → Except Failure (Finset Text)}
    (nonempty : ∀ w ∈ words, w ≠ []) (digits : Digits number) (currentResult : Finset Text)
    {entries : List (Text × List Text)} (grouping : Grouping (wordCode toUpperCase) words entries)
    (finds : ∀ front, front.length < number.length → Digits front → ∀ current,
      Finds toUpperCase words front (encode front current)) :
    ∀ x ∈ wordStream number entries, ∃ found, encodeWord encode number currentResult x = .ok found ∧
      ∀ p, p ∈ found ↔ ∃ phrase, Spells toUpperCase words number (phrase ++ [x]) ∧
        p = joined (phrase ++ [x]) := by
  intro x here
  obtain ⟨listed, matched⟩ := (mem_wordStream grouping).mp here
  exact encodeWord_finds currentResult nonempty listed digits matched finds

/-- `encode` finds the phrases of a number, whatever the accumulated result is. -/
theorem encode_finds (nonempty : ∀ w ∈ words, w ≠ []) (depth : ℕ) :
    ∀ number, number.length < depth → Digits number → ∀ currentResult,
      Finds toUpperCase words number (encode toUpperCase order words depth number currentResult) := by
  induction depth with
  | zero => exact fun number deep => absurd deep (Nat.not_lt_zero _)
  | succ depth ih =>
      intro number deep digits currentResult
      have grouping := grouping_groupBy order (wordCode toUpperCase) words
      obtain ⟨found, collected, mem⟩ := collectSet_ok <|
        wordStream_works nonempty digits currentResult grouping fun front shorter =>
          ih front (shorter.trans_le (Nat.le_of_lt_succ deep))
      exact ⟨found, collected, fun p => (mem p).trans (exists_last grouping p)⟩

/-- `parallelEncode` finds the same phrases, whatever the order. -/
theorem parallelEncode_finds (nonempty : ∀ w ∈ words, w ≠ []) (deep : number.length < depth)
    (digits : Digits number) {currentResult : Finset Text} {outcome : Except Failure (Finset Text)}
    (runs : ParallelEncode toUpperCase order words depth number currentResult outcome) :
    Finds toUpperCase words number outcome := by
  obtain ⟨entries, grouping, collects⟩ := runs
  have finds (front : Text) (shorter : front.length < number.length) (digits : Digits front)
      (current : Finset Text) :
      Finds toUpperCase words front (encode toUpperCase order words depth front current) :=
    encode_finds nonempty depth front (shorter.trans deep) digits current
  have works := wordStream_works nonempty digits currentResult grouping finds
  have merged : ∃ found, outcome = .ok found ∧ ∀ p, p ∈ found ↔
      ∃ x ∈ wordStream number entries, ∃ phrase, Spells toUpperCase words number (phrase ++ [x]) ∧
        p = joined (phrase ++ [x]) := by
    split at collects
    · exact collects.mem works
    · exact collects ▸ collectSet_ok works
  obtain ⟨found, collected, mem⟩ := merged
  exact ⟨found, collected, fun p => (mem p).trans (exists_last grouping p)⟩

/-- The order of the sequential stream is one that `parallelTranslate` may take. -/
theorem parallelTranslate_runs (nonempty : ∀ w ∈ words, w ≠ []) (digits : Digits number)
    (deep : number.length < depth) :
    ∃ outcome, ParallelTranslate toUpperCase order words depth number outcome := by
  have grouping := grouping_groupBy order (wordCode toUpperCase) words
  refine ⟨collectSet (encodeWord (encode toUpperCase order words depth) number ∅)
    (wordStream number (wordsForNum toUpperCase order words)), _, grouping, ?_⟩
  split
  · exact collects_sequential <| wordStream_works nonempty digits ∅ grouping fun front shorter =>
      encode_finds nonempty depth front (shorter.trans deep)
  · rfl

/-- `translate` finds exactly the phrases that spell the number, and so does every run of
`parallelTranslate`, if the stack has one place for every digit and one more. -/
theorem translate_phrases (nonempty : ∀ w ∈ words, w ≠ []) (digits : Digits number)
    (deep : number.length < depth) :
    ∃ found, translate toUpperCase order words depth number = .ok found ∧
      (∀ p, p ∈ found ↔ ∃ phrase, Spells toUpperCase words number phrase ∧ p = joined phrase) ∧
      (∃ outcome, ParallelTranslate toUpperCase order words depth number outcome) ∧
      ∀ outcome, ParallelTranslate toUpperCase order words depth number outcome →
        outcome = translate toUpperCase order words depth number := by
  have finds : Finds toUpperCase words number (translate toUpperCase order words depth number) :=
    encode_finds nonempty depth number deep digits ∅
  obtain ⟨found, collected, mem⟩ := finds
  refine ⟨found, collected, mem, parallelTranslate_runs nonempty digits deep, fun outcome runs => ?_⟩
  obtain ⟨found', rfl, mem'⟩ := parallelEncode_finds nonempty deep digits runs
  have same : found' = found := by
    ext p
    rw [mem, mem']
  rw [same]
  exact collected.symm

/-- The upper case of an ASCII letter. -/
def upperAscii (c : UInt16) : UInt16 :=
  if 97 ≤ c ∧ c ≤ 122 then c - 32 else c

/-- "Java" and "jav" followed by "a", from a dictionary with a word that has no code. -/
theorem translate_phrases_java :
    ∃ found, text "Java" ∈ found ∧ text "jav a" ∈ found ∧
      translate upperAscii (.insertion Text) [text "Java", text "jav", text "a", text "a-b"]
        5 (text "5282") = .ok found ∧
      (∀ p, p ∈ found ↔ ∃ phrase, Spells upperAscii [text "Java", text "jav", text "a", text "a-b"]
        (text "5282") phrase ∧ p = joined phrase) ∧
      (∃ outcome, ParallelTranslate upperAscii (.insertion Text)
        [text "Java", text "jav", text "a", text "a-b"] 5 (text "5282") outcome) ∧
      ∀ outcome, ParallelTranslate upperAscii (.insertion Text)
          [text "Java", text "jav", text "a", text "a-b"] 5 (text "5282") outcome →
        outcome = translate upperAscii (.insertion Text)
          [text "Java", text "jav", text "a", text "a-b"] 5 (text "5282") := by
  obtain ⟨found, translated, phrases, parallel⟩ := @translate_phrases upperAscii (.insertion Text)
    [text "Java", text "jav", text "a", text "a-b"] (text "5282") 5 (by decide)
    (List.forall_iff_forall_mem.mp (by decide)) (by decide)
  have java : Spells upperAscii [text "Java", text "jav", text "a", text "a-b"] (text "5282")
      [text "Java"] :=
    spells_of_keys (by decide) (by decide) (by decide)
  have javA : Spells upperAscii [text "Java", text "jav", text "a", text "a-b"] (text "5282")
      [text "jav", text "a"] :=
    spells_of_keys (by decide) (by decide) (by decide)
  exact ⟨found, (phrases _).mpr ⟨_, java, by decide⟩, (phrases _).mpr ⟨_, javA, by decide⟩, translated,
    phrases, parallel⟩

end Coder

end Renaissance.Mnemonics
