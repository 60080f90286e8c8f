import Mathlib.Data.Nat.Cast.Order.Ring
import Mathlib.Algebra.Order.Ring.Int
import Mathlib.Data.String.Basic

/-!
# Decimal numbers

Numbers that are written in decimal digits, of which there may be others than the ten of ASCII.

Results:
1. `number_repr`: reading what was printed.
2. `parseInt_nonneg_iff`: the texts that are read as an integer that is not negative.
-/

/-- The value of a character as a decimal digit. -/
structure DecimalDigits where
  digit : Char → Option (Fin 10)
  digit_ascii : ∀ d : Fin 10, digit (Nat.digitChar d) = some d
  digit_plus : digit '+' = none
  digit_minus : digit '-' = none

namespace DecimalDigits

variable (digits : DecimalDigits)

/-- The number that a text of digits denotes. -/
def number (text : List Char) : Option ℕ :=
  if text = [] then none
  else (text.mapM digits.digit).map fun ds => ds.foldl (fun sum d => 10 * sum + d.val) 0

/-- The integer, if it is a value of the 32-bit type. -/
def ranged (n : ℤ) : Option ℤ :=
  if -2 ^ 31 ≤ n ∧ n < 2 ^ 31 then some n else none

/-- `Integer.parseInt`: a number, or a sign and a number. -/
def parseInt (text : String) : Option ℤ :=
  match text.toList with
  | '+' :: rest => (digits.number rest).bind fun n => ranged n
  | '-' :: rest => (digits.number rest).bind fun n => ranged (-n)
  | rest => (digits.number rest).bind fun n => ranged n

/-- The text denotes a number of the 32-bit type, also with a plus, and zero also with a minus. -/
inductive NonnegativeText : List Char → Prop
  | number {text : List Char} {n : ℕ} (read : digits.number text = some n) (small : n < 2 ^ 31) :
      NonnegativeText text
  | plus {text : List Char} {n : ℕ} (read : digits.number text = some n) (small : n < 2 ^ 31) :
      NonnegativeText ('+' :: text)
  | minus {text : List Char} (read : digits.number text = some 0) : NonnegativeText ('-' :: text)

/-- The ten digits of ASCII and no others. -/
def ascii : DecimalDigits where
  digit c := (List.finRange 10).find? fun d => Nat.digitChar d = c
  digit_ascii := by decide
  digit_plus := by decide
  digit_minus := by decide

variable {digits}

@[simp] theorem number_nil : digits.number [] = none := rfl

theorem number_sign {c : Char} {rest : List Char} (sign : digits.digit c = none) :
    digits.number (c :: rest) = none := by
  simp [number, List.mapM_cons, sign]

variable (digits) in
theorem digit_of_isDigit {c : Char} (isDigit : c.isDigit) :
    ∃ d : Fin 10, digits.digit c = some d ∧ d.val = c.toNat - '0'.toNat := by
  obtain ⟨least, most⟩ := Char.isDigit_iff_toNat.mp isDigit
  have small : c.toNat - 48 < 10 := by
    simp only [Char.reduceToNat] at most
    omega
  have same : Nat.digitChar (c.toNat - 48) = c := by
    rw [← Char.toNat_inj, Nat.toNat_digitChar_of_lt_ten small]
    simp only [Char.reduceToNat] at least
    omega
  refine ⟨⟨c.toNat - 48, small⟩, ?_, rfl⟩
  rw [← digits.digit_ascii, same]

variable (digits) in
/-- A text of ASCII digits is read digit by digit. -/
theorem mapM_digit {text : List Char} (isDigit : ∀ c ∈ text, c.isDigit) :
    ∃ ds : List (Fin 10), text.mapM digits.digit = some ds ∧
      ∀ sum, ds.foldl (fun sum d => 10 * sum + d.val) sum = Nat.ofDigitChars 10 text sum := by
  induction text with
  | nil => exact ⟨[], rfl, fun sum => rfl⟩
  | cons c text ih =>
      obtain ⟨ds, read, value⟩ := ih fun c' mem => isDigit c' (by simp [mem])
      obtain ⟨d, isValue, same⟩ := digit_of_isDigit digits (isDigit c (by simp))
      refine ⟨d :: ds, by simp [List.mapM_cons, isValue, read], fun sum => ?_⟩
      rw [List.foldl_cons, value, same, Nat.ofDigitChars_cons]

theorem number_repr {n : ℕ} : digits.number n.repr.toList = some n := by
  have isDigit : ∀ c ∈ Nat.toDigits 10 n, c.isDigit := fun c mem =>
    Nat.isDigit_of_mem_toDigits (by decide) (by decide) mem
  obtain ⟨ds, read, value⟩ := mapM_digit digits isDigit
  rw [number, Nat.toList_repr, if_neg Nat.toDigits_ne_nil, read, Option.map_some, value,
    Nat.ofDigitChars_ten_toDigits]

theorem ranged_eq_some_iff {m n : ℤ} : ranged m = some n ↔ (-2 ^ 31 ≤ m ∧ m < 2 ^ 31) ∧ m = n := by
  simp only [ranged, Option.ite_none_right_eq_some, Option.some.injEq]

theorem ranged_nonneg_iff {m : ℤ} : (∃ n, ranged m = some n ∧ 0 ≤ n) ↔ 0 ≤ m ∧ m < 2 ^ 31 := by
  constructor
  · rintro ⟨n, read, nonnegative⟩
    obtain ⟨⟨-, small⟩, rfl⟩ := ranged_eq_some_iff.mp read
    exact ⟨nonnegative, small⟩
  · rintro ⟨nonnegative, small⟩
    exact ⟨m, ranged_eq_some_iff.mpr ⟨⟨by omega, small⟩, rfl⟩, nonnegative⟩

theorem parseInt_number {text : List Char} {n : ℕ} (read : digits.number text = some n) :
    digits.parseInt (String.ofList text) = ranged n := by
  rw [parseInt, String.toList_ofList]
  split
  · rw [number_sign digits.digit_plus] at read
    cases read
  · rw [number_sign digits.digit_minus] at read
    cases read
  · rw [read, Option.bind_some]

/-- Reading what was printed. -/
theorem parseInt_repr {n : ℕ} (small : n < 2 ^ 31) : digits.parseInt n.repr = some (n : ℤ) := by
  rw [← String.ofList_toList (s := n.repr), parseInt_number number_repr, ranged_eq_some_iff]
  exact ⟨⟨by omega, by exact_mod_cast small⟩, rfl⟩

theorem parseInt_lt {text : String} {n : ℤ} (read : digits.parseInt text = some n) : n < 2 ^ 31 := by
  unfold parseInt at read
  split at read <;>
    obtain ⟨m, -, inRange⟩ := Option.bind_eq_some_iff.mp read <;>
    obtain ⟨⟨-, small⟩, rfl⟩ := ranged_eq_some_iff.mp inRange <;>
    exact small

theorem parseInt_plus (rest : List Char) :
    digits.parseInt (String.ofList ('+' :: rest)) = (digits.number rest).bind fun n => ranged n := by
  rw [parseInt, String.toList_ofList]
  rfl

theorem parseInt_minus (rest : List Char) :
    digits.parseInt (String.ofList ('-' :: rest)) = (digits.number rest).bind fun n => ranged (-n) := by
  rw [parseInt, String.toList_ofList]
  rfl

theorem ranged_natCast_iff {m : ℕ} : (∃ n, ranged m = some n ∧ 0 ≤ n) ↔ m < 2 ^ 31 := by
  rw [ranged_nonneg_iff, and_iff_right m.cast_nonneg]
  exact_mod_cast Iff.rfl

theorem ranged_neg_iff {m : ℕ} : (∃ n, ranged (-m) = some n ∧ 0 ≤ n) ↔ m = 0 := by
  rw [ranged_nonneg_iff]
  constructor
  · rintro ⟨nonnegative, -⟩
    omega
  · rintro rfl
    decide

theorem parseInt_nonneg_iff {text : List Char} :
    (∃ n, digits.parseInt (String.ofList text) = some n ∧ 0 ≤ n) ↔ digits.NonnegativeText text := by
  constructor
  · rintro ⟨n, read, nonnegative⟩
    rw [parseInt, String.toList_ofList] at read
    split at read
    · obtain ⟨m, isNumber, read⟩ := Option.bind_eq_some_iff.mp read
      exact .plus isNumber (ranged_natCast_iff.mp ⟨n, read, nonnegative⟩)
    · obtain ⟨m, isNumber, read⟩ := Option.bind_eq_some_iff.mp read
      obtain rfl := ranged_neg_iff.mp ⟨n, read, nonnegative⟩
      exact .minus isNumber
    · obtain ⟨m, isNumber, read⟩ := Option.bind_eq_some_iff.mp read
      exact .number isNumber (ranged_natCast_iff.mp ⟨n, read, nonnegative⟩)
  · rintro (⟨read, small⟩ | ⟨read, small⟩ | ⟨read⟩)
    · rw [parseInt_number read]
      exact ranged_natCast_iff.mpr small
    · rw [parseInt_plus, read, Option.bind_some]
      exact ranged_natCast_iff.mpr small
    · rw [parseInt_minus, read, Option.bind_some]
      exact ranged_neg_iff.mpr rfl

end DecimalDigits
