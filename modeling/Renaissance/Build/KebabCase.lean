import Mathlib.Data.List.Basic
import Mathlib.Data.String.Basic
import Renaissance.Lib.Rewriting

/-!
# Names in kebab case

`kebabCase` makes a benchmark name of a class name. It puts a hyphen into one place after the other until
there are no more. `kebabCase_hyphenates` says that it might as well put them into all places at once.
-/

namespace Renaissance.Build

open Rewriting

/-- `[A-Za-z]`. -/
def isLetter (c : Char) : Bool :=
  'A' ≤ c ∧ c ≤ 'Z' ∨ 'a' ≤ c ∧ c ≤ 'z'

/-- `[A-Z]`. -/
def isUpper (c : Char) : Bool :=
  'A' ≤ c ∧ c ≤ 'Z'

/-- The first match of `([A-Za-z])([A-Z])` is replaced by `$1-$2`. -/
def replaceFirst : List Char → List Char
  | a :: b :: rest =>
      if isLetter a ∧ isUpper b then a :: '-' :: b :: rest else a :: replaceFirst (b :: rest)
  | name => name

/-- What ends `kebabCase` without a result: the exception for an empty string, or too few rounds. -/
inductive Unfinished
  | noSuchElement
  | running
  deriving DecidableEq, Repr

def camelCaseName (s : String) : Except Unfinished (List Char) :=
  match s.toList.getLast? with
  | none => .error .noSuchElement
  | some last => if last = '$' then .ok s.toList.dropLast else .ok s.toList

/-- At most `rounds` rounds of the loop. `toLowerCase` depends on the locale. -/
def kebabCase (toLowerCase : String → String) (rounds : ℕ) (s : String) : Except Unfinished String := do
  let name ← camelCaseName s
  match untilFixed replaceFirst rounds name with
  | some result => pure (toLowerCase (String.ofList result))
  | none => .error .running

/-! ## All replacements at once -/

/-- A hyphen between every letter and a capital letter that follows it. -/
def hyphenated : List Char → List Char
  | a :: b :: rest =>
      if isLetter a ∧ isUpper b then a :: '-' :: hyphenated (b :: rest) else a :: hyphenated (b :: rest)
  | name => name

/-- One of the matches is replaced. -/
inductive Replaces : List Char → List Char → Prop
  | replace (front : List Char) {a b : Char} (rest : List Char) : isLetter a → isUpper b →
      Replaces (front ++ a :: b :: rest) (front ++ a :: '-' :: b :: rest)

variable {name next : List Char} {c : Char}

theorem Replaces.cons (replaces : Replaces name next) : Replaces (c :: name) (c :: next) := by
  cases replaces with
  | replace front rest letter upper => exact .replace (c :: front) rest letter upper

theorem hyphenated_match {a b : Char} (rest : List Char) (letter : isLetter a) (upper : isUpper b) :
    hyphenated (a :: '-' :: b :: rest) = hyphenated (a :: b :: rest) := by
  have hyphen : ¬(isLetter a ∧ isUpper '-') := fun both => absurd both.2 (by decide)
  have hyphen' : ¬(isLetter '-' ∧ isUpper b) := fun both => absurd both.1 (by decide)
  rw [hyphenated, if_neg hyphen, hyphenated, if_neg hyphen', hyphenated, if_pos ⟨letter, upper⟩]

theorem hyphenated_cons_congr {d : Char} {rest rest' : List Char}
    (same : hyphenated (d :: rest) = hyphenated (d :: rest')) :
    hyphenated (c :: d :: rest) = hyphenated (c :: d :: rest') := by
  rw [hyphenated, hyphenated, same]

/-- A replacement puts a hyphen where it belongs. -/
theorem Replaces.hyphenated_eq (replaces : Replaces name next) : hyphenated next = hyphenated name := by
  obtain ⟨front, rest, letter, upper⟩ := replaces
  induction front with
  | nil => exact hyphenated_match rest letter upper
  | cons c front ih =>
      cases front with
      | nil => exact hyphenated_cons_congr ih
      | cons d front => exact hyphenated_cons_congr ih

theorem hyphenated_eq_self (final : ∀ next, ¬Replaces name next) : hyphenated name = name := by
  fun_induction hyphenated name with
  | case1 a b rest found ih => exact absurd (.replace [] rest found.1 found.2) (final _)
  | case2 a b rest other ih => rw [ih fun next replaces => final _ replaces.cons]
  | case3 name short => rfl

/-- What any order of the replacements comes to. -/
theorem normalizes_hyphenated : Normalizes Replaces hyphenated where
  keeps _ _ replaces := replaces.hyphenated_eq
  final _ final := hyphenated_eq_self final

/-- Without a match at the beginning, a replacement is further on. -/
theorem Replaces.of_cons {a b : Char} {rest : List Char} (other : ¬(isLetter a ∧ isUpper b))
    (replaces : Replaces (a :: b :: rest) next) : ∃ next', Replaces (b :: rest) next' := by
  generalize whole : a :: b :: rest = name at replaces
  cases replaces with
  | replace front rest' letter upper =>
      cases front with
      | nil =>
          cases whole
          exact absurd ⟨letter, upper⟩ other
      | cons c front =>
          rw [List.cons_append, List.cons.injEq] at whole
          rw [whole.2]
          exact ⟨_, .replace front rest' letter upper⟩

theorem not_replaces_of_short (short : name.length < 2) : ¬Replaces name next := by
  rintro ⟨front, rest, -, -⟩
  simp at short
  omega

theorem replaceFirst_cases (name : List Char) :
    Replaces name (replaceFirst name) ∨ replaceFirst name = name ∧ ∀ next, ¬Replaces name next := by
  fun_induction replaceFirst name with
  | case1 a b rest found => exact .inl (.replace [] rest found.1 found.2)
  | case2 a b rest other ih =>
      rcases ih with replaces | ⟨same, final⟩
      · exact .inl replaces.cons
      · refine .inr ⟨by rw [same], fun next replaces => ?_⟩
        obtain ⟨next', later⟩ := replaces.of_cons other
        exact final next' later
  | case3 name short =>
      refine .inr ⟨rfl, fun next => not_replaces_of_short ?_⟩
      match name with
      | [] => exact Nat.zero_lt_two
      | [c] => exact Nat.one_lt_two
      | a :: b :: rest => exact absurd rfl (short a b rest)

theorem Replaces.length_eq (replaces : Replaces name next) : next.length = name.length + 1 := by
  obtain ⟨front, rest, -, -⟩ := replaces
  simp only [List.length_append, List.length_cons]
  omega

theorem length_le_hyphenated (name : List Char) : name.length ≤ (hyphenated name).length := by
  fun_induction hyphenated name with
  | case1 a b rest found ih =>
      simp only [List.length_cons] at ih ⊢
      omega
  | case2 a b rest other ih =>
      simp only [List.length_cons] at ih ⊢
      omega
  | case3 name short => exact le_refl _

/-- The hyphens that are missing. -/
def missing (name : List Char) : ℕ :=
  (hyphenated name).length - name.length

theorem missing_decreases (name next : List Char) (replaces : Replaces name next) :
    missing next < missing name := by
  have longer := replaces.length_eq
  have least := length_le_hyphenated next
  rw [replaces.hyphenated_eq] at least
  rw [missing, missing, replaces.hyphenated_eq]
  omega

theorem camelCaseName_ok {s : String} (nonempty : s ≠ "") :
    ∃ name, camelCaseName s = .ok name ∧
      (s.toList = name ++ ['$'] ∨ s.toList = name ∧ name.getLast? ≠ some '$') := by
  cases ends : s.toList.getLast? with
  | none => exact absurd (String.toList_eq_nil_iff.1 (List.getLast?_eq_none_iff.1 ends)) nonempty
  | some last =>
      obtain ⟨front, parts⟩ := List.getLast?_eq_some_iff.1 ends
      by_cases dollar : last = '$'
      · refine ⟨front, ?_, .inl (dollar ▸ parts)⟩
        rw [camelCaseName, ends]
        dsimp only
        rw [if_pos dollar, parts, List.dropLast_concat]
      · refine ⟨s.toList, ?_, .inr ⟨rfl, fun same => dollar ?_⟩⟩
        · rw [camelCaseName, ends]
          dsimp only
          rw [if_neg dollar]
        · exact Option.some.inj (ends.symm.trans same)

/-- For a string that is not empty, the loop ends and the name is the class name, without a dollar sign at
its end, with all hyphens in lower case. The replacements come to an end in any order, and always to the
same. -/
theorem kebabCase_hyphenates (toLowerCase : String → String) (s : String) (nonempty : s ≠ "") :
    ∃ name, camelCaseName s = .ok name ∧
      (s.toList = name ++ ['$'] ∨ s.toList = name ∧ name.getLast? ≠ some '$') ∧
      (∃ enough, ∀ rounds ≥ enough,
        kebabCase toLowerCase rounds s = .ok (toLowerCase (String.ofList (hyphenated name)))) ∧
      WellFounded (fun next name => Replaces name next) ∧
      ∀ result, Relation.ReflTransGen Replaces name result → (∀ next, ¬Replaces result next) →
        result = hyphenated name := by
  obtain ⟨name, camelCase, parts⟩ := camelCaseName_ok nonempty
  refine ⟨name, camelCase, parts, ⟨missing name + 1, fun rounds enough => ?_⟩, ?_, fun result => ?_⟩
  · have loop : untilFixed replaceFirst rounds name = some (hyphenated name) :=
      normalizes_hyphenated.untilFixed_eq missing_decreases replaceFirst_cases enough
    simp only [kebabCase, camelCase, loop, bind, Except.bind, pure, Except.pure]
  · exact wellFounded_of_decreases missing_decreases
  · exact normalizes_hyphenated.eq_of_final

example : hyphenated "JavaKMeans".toList = "Java-K-Means".toList := by decide

theorem kebabCase_hyphenates_kMeans :
    ∃ name, camelCaseName "JavaKMeans$" = .ok name ∧
      ("JavaKMeans$".toList = name ++ ['$'] ∨
        "JavaKMeans$".toList = name ∧ name.getLast? ≠ some '$') ∧
      (∃ enough, ∀ rounds ≥ enough,
        kebabCase String.toLower rounds "JavaKMeans$" =
          .ok (String.toLower (String.ofList (hyphenated name)))) ∧
      WellFounded (fun next name => Replaces name next) ∧
      ∀ result, Relation.ReflTransGen Replaces name result → (∀ next, ¬Replaces result next) →
        result = hyphenated name :=
  kebabCase_hyphenates String.toLower "JavaKMeans$" (by decide)

end Renaissance.Build
