import Mathlib.Data.List.DropRight
import Mathlib.Data.List.Infix
import Mathlib.Data.String.Basic

/-!
# Texts made of parts

* `split`, `trim`: `String.split` at a character and `String.trim`.
* `joined_injective`, `endsWith_joined`: what precedes and what follows a separator can be told apart
  where one of both does not contain it.
-/

namespace JavaString

/-- `text.split(c)`. Empty parts at the end are dropped; a text without the separator is its own only
part. -/
def split (c : Char) (text : List Char) : List String :=
  if c ∈ text then ((text.splitOn c).rdropWhile List.isEmpty).map String.ofList
  else [String.ofList text]

/-- `text.trim`. -/
def trim (text : List Char) : String :=
  String.ofList ((text.dropWhile (· ≤ ' ')).rdropWhile (· ≤ ' '))

/-- `text.endsWith(last)`. -/
def endsWith (text last : String) : Bool :=
  last.toList <:+ text.toList

/-- `text.startsWith(first)`. -/
def startsWith (text first : String) : Bool :=
  first.toList <+: text.toList

/-- Only the empty text has a part at the end that is empty and kept. -/
theorem split_of_ne_nil {c : Char} {text : List Char} (nonempty : text ≠ []) :
    split c text = ((text.splitOn c).rdropWhile List.isEmpty).map String.ofList := by
  unfold split
  split_ifs with mem
  · rfl
  · rw [List.splitOn_eq_singleton mem, List.rdropWhile_singleton, if_neg (by simpa using nonempty)]
    rfl

theorem intercalate_concat {α : Type} {parts : List (List α)} (nonempty : parts ≠ [])
    (separator last : List α) :
    separator.intercalate (parts ++ [last]) = separator.intercalate parts ++ separator ++ last := by
  induction parts with
  | nil => exact absurd rfl nonempty
  | cons part parts ih =>
      rw [List.cons_append, List.intercalate_cons_of_ne_nil (by simp)]
      cases parts with
      | nil => simp
      | cons part' parts => rw [ih (by simp), List.intercalate_cons_cons]; simp

theorem notMem_intercalate {α : Type} {c d : α} {parts : List (List α)} (other : c ≠ d)
    (plain : ∀ part ∈ parts, c ∉ part) : c ∉ [d].intercalate parts := by
  induction parts with
  | nil => simp
  | cons part parts ih =>
      have first := plain part (by simp)
      have rest := ih fun part mem => plain part (by simp [mem])
      cases parts with
      | nil => simpa using first
      | cons part' parts =>
          rw [List.intercalate_cons_cons]
          simpa [first, other] using rest

/-- Nothing is dropped from a text that does not end with the separator. -/
theorem rdropWhile_splitOn {c : Char} {text : List Char} (nonempty : text ≠ [])
    (last : text.getLast? ≠ some c) :
    (text.splitOn c).rdropWhile List.isEmpty = text.splitOn c := by
  rw [List.rdropWhile_eq_self_iff]
  intro parts dropped
  obtain ⟨front, split⟩ : ∃ front, text.splitOn c = front ++ [[]] := by
    refine ⟨(text.splitOn c).dropLast, ?_⟩
    rw [← List.isEmpty_iff.mp dropped, List.dropLast_append_getLast]
  have joined : [c].intercalate (text.splitOn c) = text := List.intercalate_splitOn c
  rw [split] at joined
  rcases List.eq_nil_or_concat front with rfl | ⟨front, part, rfl⟩
  · exact nonempty (by simpa using joined.symm)
  · refine last ?_
    rw [← joined, intercalate_concat (by simp), List.append_nil, List.getLast?_concat]

theorem rdropWhile_cons {α : Type} (p : α → Bool) (x : α) (xs : List α) :
    (x :: xs).rdropWhile p =
      if xs.rdropWhile p = [] then [x].rdropWhile p else x :: xs.rdropWhile p := by
  induction xs using List.reverseRecOn with
  | nil => rfl
  | append_singleton xs last ih =>
      rw [← List.cons_append]
      by_cases drop : p last
      · rw [List.rdropWhile_concat_pos _ _ _ drop, ih, List.rdropWhile_concat_pos _ _ _ drop]
      · rw [List.rdropWhile_concat_neg _ _ _ drop, List.rdropWhile_concat_neg _ _ _ drop,
          if_neg (by simp)]
        rfl

/-- Trailing separators are dropped with the empty parts that they make. -/
theorem rdropWhile_splitOn_eq {c : Char} (text : List Char) :
    (text.splitOn c).rdropWhile List.isEmpty =
      if text.rdropWhile (· = c) = [] then [] else (text.rdropWhile (· = c)).splitOn c := by
  induction text using List.reverseRecOn with
  | nil => rfl
  | append_singleton text d ih =>
      by_cases separator : d = c
      · subst separator
        rw [List.splitOn_append_cons_self, List.splitOn_nil, List.rdropWhile_concat_pos _ _ _ rfl, ih,
          List.rdropWhile_concat_pos _ _ _ (by simp)]
      · rw [List.rdropWhile_concat_neg _ _ _ (by simpa using separator), if_neg (by simp),
          rdropWhile_splitOn (by simp) (by simpa using separator)]

theorem length_splitOn_pos (c : Char) (text : List Char) : 0 < (text.splitOn c).length :=
  List.length_pos_of_ne_nil (List.splitOn_ne_nil c text)

theorem length_splitOn_eq_one {c : Char} {text : List Char} :
    (text.splitOn c).length = 1 ↔ c ∉ text := by
  constructor
  · intro single mem
    obtain ⟨before, after, rfl⟩ := List.append_of_mem mem
    rw [List.splitOn_append_cons_self, List.length_append] at single
    have first := length_splitOn_pos c before
    have second := length_splitOn_pos c after
    omega
  · intro notMem
    rw [List.splitOn_eq_singleton notMem, List.length_singleton]

/-- Splitting what was joined, unless the last of several parts is empty. -/
theorem split_intercalate {c : Char} {parts : List String} (nonempty : parts ≠ [])
    (plain : ∀ part ∈ parts, c ∉ part.toList)
    (filled : parts.length = 1 ∨ parts.getLast? ≠ some "") :
    split c ([c].intercalate (parts.map String.toList)) = parts := by
  have splitOn : ([c].intercalate (parts.map String.toList)).splitOn c = parts.map String.toList :=
    List.splitOn_intercalate c (List.forall_mem_map.mpr plain) (by simpa using nonempty)
  rcases filled with single | last
  · obtain ⟨part, rfl⟩ := List.length_eq_one_iff.mp single
    rw [List.map_singleton, List.intercalate_singleton, split, if_neg (plain part (by simp)),
      String.ofList_toList]
  · have kept : (parts.map String.toList).rdropWhile List.isEmpty = parts.map String.toList := by
      rw [List.rdropWhile_eq_self_iff]
      intro some'
      rw [List.getLast_map, List.isEmpty_iff, String.toList_eq_nil_iff]
      rintro empty
      exact last (empty ▸ List.getLast?_eq_some_getLast nonempty)
    rw [split_of_ne_nil, splitOn, kept]
    · simp [Function.comp_def]
    · intro empty
      rw [empty, List.splitOn_nil] at splitOn
      rw [← splitOn] at kept
      exact absurd kept (by decide)

/-- A part that is empty at the end is lost, unless it is the only one. -/
theorem length_split_lt {c : Char} {parts : List String} (several : 2 ≤ parts.length)
    (plain : ∀ part ∈ parts, c ∉ part.toList) (last : parts.getLast? = some "") :
    (split c ([c].intercalate (parts.map String.toList))).length < parts.length := by
  have nonempty : parts ≠ [] := by
    rintro rfl
    cases last
  have splitOn : ([c].intercalate (parts.map String.toList)).splitOn c = parts.map String.toList :=
    List.splitOn_intercalate c (List.forall_mem_map.mpr plain) (by simpa using nonempty)
  obtain ⟨front, rfl⟩ := List.getLast?_eq_some_iff.mp last
  rw [split_of_ne_nil, splitOn, List.length_map, List.map_append, List.map_singleton,
    List.rdropWhile_concat_pos _ _ _ (by decide)]
  · have shorter := (List.rdropWhile_prefix List.isEmpty (front.map String.toList)).length_le
    rw [List.length_map] at shorter
    rw [List.length_append, List.length_singleton]
    exact Nat.lt_succ_of_le shorter
  · intro empty
    have lengths := congrArg List.length splitOn
    rw [empty, List.splitOn_nil, List.length_map, List.length_singleton] at lengths
    omega

/-- The text has no blanks at its ends. -/
structure Trimmed (text : List Char) : Prop where
  head : ∀ c ∈ text.head?, ' ' < c
  last : ∀ c ∈ text.getLast?, ' ' < c

theorem trim_eq_iff {text : List Char} : trim text = String.ofList text ↔ Trimmed text := by
  rw [trim, String.ofList_inj]
  constructor
  · intro same
    have shorter := (List.rdropWhile_prefix (· ≤ ' ') (text.dropWhile (· ≤ ' '))).length_le
    rw [same] at shorter
    have dropped : text.dropWhile (· ≤ ' ') = text :=
      (List.dropWhile_suffix _).eq_of_length_le shorter
    rw [dropped] at same
    refine ⟨fun c isHead => ?_, fun c isLast => ?_⟩
    · have first := List.head?_dropWhile_not (· ≤ ' ') text
      rw [dropped, isHead] at first
      simpa using first
    · obtain ⟨nonempty, rfl⟩ := List.mem_getLast?_eq_getLast isLast
      simpa using List.rdropWhile_eq_self_iff.mp same nonempty
  · intro trimmed
    have kept : text.dropWhile (· ≤ ' ') = text := by
      cases text with
      | nil => rfl
      | cons c text => exact List.dropWhile_cons_of_neg (by simpa using trimmed.head c rfl)
    rw [kept, List.rdropWhile_eq_self_iff]
    intro nonempty
    simpa using trimmed.last _ (List.getLast?_eq_some_getLast nonempty)

/-- Joining texts adds no blanks. -/
theorem Trimmed.intercalate {c : Char} {parts : List (List Char)} (visible : ' ' < c)
    (trimmed : ∀ part ∈ parts, Trimmed part) : Trimmed ([c].intercalate parts) := by
  refine ⟨?_, ?_⟩
  · cases parts with
    | nil => simp
    | cons part parts =>
        have first := (trimmed part (by simp)).head
        cases parts with
        | nil => simpa using first
        | cons part' parts =>
            rw [List.intercalate_cons_cons]
            cases part with
            | nil => simpa using visible
            | cons d part => simpa using first
  · rcases List.eq_nil_or_concat' parts with rfl | ⟨front, part, rfl⟩
    · simp
    · have last := (trimmed part (by simp)).last
      by_cases single : front = []
      · simpa [single] using last
      · rw [intercalate_concat single, List.append_assoc]
        rcases List.eq_nil_or_concat' part with rfl | ⟨part, d, rfl⟩
        · simpa using visible
        · rw [← List.append_assoc, ← List.append_assoc, List.getLast?_concat]
          rwa [List.getLast?_concat] at last

theorem dropWhile_rdropWhile {α : Type} (p : α → Bool) (xs : List α) :
    ((xs.dropWhile p).rdropWhile p).dropWhile p = (xs.dropWhile p).rdropWhile p := by
  obtain ⟨rest, whole⟩ := List.rdropWhile_prefix p (xs.dropWhile p)
  have first := List.head?_dropWhile_not p xs
  rw [← whole] at first
  cases kept : (xs.dropWhile p).rdropWhile p with
  | nil => rfl
  | cons x ys =>
      rw [kept] at first
      exact List.dropWhile_cons_of_neg (Bool.not_eq_true _ ▸ first)

@[simp] theorem trim_trim (text : List Char) : trim (trim text).toList = trim text := by
  simp only [trim, String.toList_ofList, dropWhile_rdropWhile, List.rdropWhile_idempotent]

theorem mem_of_mem_trim {c : Char} {text : List Char} (mem : c ∈ (trim text).toList) : c ∈ text := by
  rw [trim, String.toList_ofList] at mem
  exact (List.dropWhile_sublist _).mem ((List.rdropWhile_prefix _ _).mem mem)

theorem mem_dropWhile {p : Char → Bool} {c : Char} {text : List Char} (mem : c ∈ text)
    (kept : p c = false) : c ∈ text.dropWhile p := by
  rw [← List.takeWhile_append_dropWhile (p := p) (l := text)] at mem
  rcases List.mem_append.mp mem with front | rest
  · exact absurd (List.mem_takeWhile_imp front) (by simp [kept])
  · exact rest

/-- Only blanks are trimmed. -/
theorem mem_trim {c : Char} {text : List Char} (mem : c ∈ text) (visible : ' ' < c) :
    c ∈ (trim text).toList := by
  have kept : decide (c ≤ ' ') = false := by simpa using visible
  rw [trim, String.toList_ofList, List.rdropWhile, List.mem_reverse]
  exact mem_dropWhile (List.mem_reverse.mpr (mem_dropWhile mem kept)) kept

theorem append_cons_injective {α : Type} {c : α} {a b x y : List α} (plain : c ∉ a)
    (plain' : c ∉ b) (same : a ++ c :: x = b ++ c :: y) : a = b ∧ x = y := by
  induction a generalizing b with
  | nil =>
      cases b with
      | nil => exact ⟨rfl, (List.cons.inj same).2⟩
      | cons d b => exact absurd (by simp [(List.cons.inj same).1]) plain'
  | cons d a ih =>
      cases b with
      | nil => exact absurd (by simp [(List.cons.inj same).1]) plain
      | cons e b =>
          obtain ⟨rfl, rest⟩ := List.cons.inj same
          obtain ⟨rfl, rfl⟩ := ih (fun mem => plain (by simp [mem])) (fun mem => plain' (by simp [mem]))
            rest
          exact ⟨rfl, rfl⟩

/-- A text without the separator, the separator and the rest determine the text and the rest. -/
theorem joined_injective {front a b x y : String} (plain : '.' ∉ a.toList)
    (plain' : '.' ∉ b.toList) (same : front ++ a ++ "." ++ x = front ++ b ++ "." ++ y) :
    a = b ∧ x = y := by
  have lists := congrArg String.toList same
  simp only [String.toList_append, List.append_assoc, List.append_cancel_left_eq] at lists
  obtain ⟨first, rest⟩ := append_cons_injective plain plain' lists
  exact ⟨String.toList_injective first, String.toList_injective rest⟩

/-- The text after the last separator is at the end of the whole text. -/
theorem endsWith_joined {front x last : String} (plain : '.' ∉ x.toList)
    (plain' : '.' ∉ last.toList) :
    endsWith (front ++ "." ++ x) ("." ++ last) = true ↔ x = last := by
  rw [endsWith, decide_eq_true_iff]
  simp only [String.toList_append, List.append_assoc]
  constructor
  · rintro ⟨before, same⟩
    have reversed := congrArg List.reverse same
    have dot : ".".toList = ['.'] := by decide
    simp only [dot, List.reverse_append, List.reverse_cons, List.append_assoc,
      List.singleton_append] at reversed
    obtain ⟨tail, -⟩ := append_cons_injective (by simpa using plain') (by simpa using plain) reversed
    exact (String.toList_injective (List.reverse_injective tail)).symm
  · rintro rfl
    exact ⟨front.toList, rfl⟩

end JavaString
