import Renaissance.Lib.DecimalNumber

/-!
# Format strings

`String.format` with arguments that are no numbers, characters or dates, and do not format themselves. How
texts are put in upper case depends on the locale and is a parameter. A length is a number of characters.
For numbers it is modelled which format strings they are printed with, and not how.

* `pieces`: a format string as literal characters and format specifiers;
* `format_of_no_percent`: a text without percent signs is what it stands for;
* `accepts_append`: a text without percent signs in front does not make a format string fail.
-/

namespace JavaFormat

/-- What an argument may be printed as. -/
structure Argument where
  text : String
  hashCode : ℕ

/-- The part of a format specifier before its conversion. -/
structure Specifier where
  index : Option ℕ
  flags : List Char
  width : Option ℕ
  precision : Option ℕ

inductive Piece
  | literal (c : Char)
  | specifier (specifier : Specifier) (conversion : Char)

/-- Digits in a format specifier, if there are any. -/
def number (digits : List Char) : Option (Option ℕ) :=
  if digits = [] then some none
  else do
    let n ← DecimalDigits.ascii.number digits
    if n < 2 ^ 31 then some (some n) else none

def isFlag (c : Char) : Bool :=
  c ∈ ['-', '#', '+', ' ', '0', ',', '(', '<']

/-- `[argument_index$][flags][width][.precision]`. No flag is there twice. -/
def specifier (text : List Char) : Option Specifier := do
  let digits := text.takeWhile Char.isDigit
  let (position, rest) := match text.dropWhile Char.isDigit with
    | '$' :: rest => if digits = [] then ([], text) else (digits, rest)
    | _ => ([], text)
  let index ← number position
  let flags := rest.takeWhile isFlag
  let rest := rest.dropWhile isFlag
  let width ← number (rest.takeWhile Char.isDigit)
  let precision ← match rest.dropWhile Char.isDigit with
    | [] => some none
    | '.' :: digits => if digits ≠ [] ∧ digits.all Char.isDigit then number digits else none
    | _ => none
  if flags.Nodup then some { index, flags, width, precision } else none

/-- A conversion is a letter or a percent sign. The first argument is what was read of a format specifier,
from its end. -/
def pieces : Option (List Char) → List Char → Option (List Piece)
  | none, [] => some []
  | some _, [] => none
  | none, c :: rest =>
      if c = '%' then pieces (some []) rest
      else (pieces none rest).map (.literal c :: ·)
  | some read, c :: rest =>
      if c.isAlpha || c = '%' then do
        let specifier ← specifier read.reverse
        (pieces none rest).map (.specifier specifier c :: ·)
      else pieces (some (c :: read)) rest

/-- Blanks up to the width. -/
def padded (specifier : Specifier) (text : List Char) : List Char :=
  let blanks := List.replicate (specifier.width.getD 0 - text.length) ' '
  if '-' ∈ specifier.flags then text ++ blanks else blanks ++ text

/-- The flags of a text and of a character. A text that is aligned to the left needs a width. -/
def Specifier.textual (specifier : Specifier) : Bool :=
  specifier.flags.all (· ∈ ['-', '<']) && ('-' ∉ specifier.flags || specifier.width.isSome)

/-- The flags that no number may have, whatever its conversion. -/
def Specifier.numeric (specifier : Specifier) : Bool :=
  (('-' ∉ specifier.flags && '0' ∉ specifier.flags) || specifier.width.isSome) &&
    !('+' ∈ specifier.flags && ' ' ∈ specifier.flags) && !('-' ∈ specifier.flags && '0' ∈ specifier.flags)

/-- A conversion that takes an argument. All others than these three fail. -/
def convert (toUpperCase : String → String) (specifier : Specifier) (conversion : Char)
    (argument : Argument) : Option (List Char) := do
  let text ← match conversion.toLower with
    | 'b' => some "true"
    | 'h' => some (String.ofList (Nat.toDigits 16 argument.hashCode))
    | 's' => some argument.text
    | _ => none
  if specifier.textual then
    let text := match specifier.precision with
      | some precision => String.ofList (text.toList.take precision)
      | none => text
    let text := if conversion.isUpper then toUpperCase text else text
    some (padded specifier text.toList)
  else none

/-- An argument, where only its type and the value of an integer matter. -/
inductive Kind
  | object
  | int (value : ℤ)
  | double

/-- The conversions that take any argument, those of an integer and those of a number with a fraction. -/
def Kind.takes (specifier : Specifier) (conversion : Char) (kind : Kind) : Bool :=
  if conversion ∈ ['b', 'B', 'h', 'H', 's', 'S'] then specifier.textual
  else match kind with
    | .object => false
    | .int value =>
        if conversion ∈ ['c', 'C'] then
          specifier.textual && specifier.precision.isNone && 0 ≤ value && value ≤ 0x10FFFF
        else if conversion = 'd' then
          specifier.numeric && specifier.precision.isNone && '#' ∉ specifier.flags
        else if conversion ∈ ['o', 'x', 'X'] then
          specifier.numeric && specifier.precision.isNone &&
            specifier.flags.all (· ∈ ['-', '#', '0', '<'])
        else false
    | .double =>
        if conversion = 'f' then specifier.numeric
        else if conversion ∈ ['e', 'E'] then specifier.numeric && ',' ∉ specifier.flags
        else if conversion ∈ ['g', 'G'] then specifier.numeric && '#' ∉ specifier.flags
        else if conversion ∈ ['a', 'A'] then
          specifier.numeric && '(' ∉ specifier.flags && ',' ∉ specifier.flags
        else false

/-- Which argument a format specifier is about: the same as the last time, the one of a position, or the
next one. -/
def position (specifier : Specifier) (ordinary : ℕ) (last : Option ℕ) : Option ℕ :=
  if '<' ∈ specifier.flags then last
  else match specifier.index with
    | some 0 => none
    | some (index + 1) => some index
    | none => some ordinary

/-- `ordinary` arguments were taken in their order, and `last` was the one before. `convert` prints one
argument. -/
def print {α : Type} (convert : Specifier → Char → α → Option (List Char)) (arguments : List α) :
    ℕ → Option ℕ → List Piece → Option (List Char)
  | _, _, [] => some []
  | ordinary, last, .literal c :: rest => (print convert arguments ordinary last rest).map (c :: ·)
  | ordinary, last, .specifier specifier conversion :: rest =>
      if conversion = '%' then
        if specifier.precision.isNone && specifier.flags.all (· = '-') &&
            (specifier.flags = [] || specifier.width.isSome) then
          (print convert arguments ordinary last rest).map (padded specifier ['%'] ++ ·)
        else none
      else if conversion = 'n' then
        if specifier.precision.isNone && specifier.flags = [] && specifier.width.isNone then
          (print convert arguments ordinary last rest).map ('\n' :: ·)
        else none
      else do
        let index ← position specifier ordinary last
        let argument ← arguments[index]?
        let text ← convert specifier conversion argument
        let next := if '<' ∉ specifier.flags ∧ specifier.index.isNone then ordinary + 1 else ordinary
        (print convert arguments next (some index) rest).map (text ++ ·)

/-- `String.format(format, arguments)`. There is no result where it throws an `IllegalFormatException`. -/
def format (toUpperCase : String → String) (text : String) (arguments : List Argument) : Option String := do
  let pieces ← pieces none text.toList
  (print (convert toUpperCase) arguments 0 none pieces).map String.ofList

/-- `Formatter.format(text, arguments)` throws no `IllegalFormatException`. -/
def accepts (text : String) (arguments : List Kind) : Bool :=
  ((pieces none text.toList).bind
    (print (fun specifier conversion kind => if kind.takes specifier conversion then some [] else none)
      arguments 0 none)).isSome

theorem pieces_append {text : List Char} (plain : '%' ∉ text) (rest : List Char) :
    pieces none (text ++ rest) = (pieces none rest).map (text.map .literal ++ ·) := by
  induction text with
  | nil => simp
  | cons c text ih =>
      obtain ⟨other, plain⟩ := not_or.mp (fun mem => plain (List.mem_cons.mpr mem))
      rw [List.cons_append, pieces, if_neg (Ne.symm other), ih plain, Option.map_map]
      rfl

section Print

variable {α : Type} (convert : Specifier → Char → α → Option (List Char)) (arguments : List α)

theorem print_append (ordinary : ℕ) (last : Option ℕ) (text : List Char) (rest : List Piece) :
    print convert arguments ordinary last (text.map .literal ++ rest) =
      (print convert arguments ordinary last rest).map (text ++ ·) := by
  induction text with
  | nil => simp
  | cons c text ih =>
      rw [List.map_cons, List.cons_append, print, ih, Option.map_map]
      rfl

/-- What is printed of a text that begins without percent signs. -/
theorem print_pieces_append {text : List Char} (plain : '%' ∉ text) (rest : List Char) :
    (pieces none (text ++ rest)).bind (print convert arguments 0 none) =
      ((pieces none rest).bind (print convert arguments 0 none)).map (text ++ ·) := by
  rw [pieces_append plain]
  cases pieces none rest with
  | none => rfl
  | some rest => exact print_append convert arguments 0 none text rest

end Print

/-- A text without percent signs is left as it is, whatever the arguments. -/
theorem format_of_no_percent (toUpperCase : String → String) {text : String} (plain : '%' ∉ text.toList)
    (arguments : List Argument) : format toUpperCase text arguments = some text := by
  have printed := print_pieces_append (convert toUpperCase) arguments plain []
  rw [List.append_nil] at printed
  show (pieces none text.toList).bind
    (Option.map String.ofList ∘ print (convert toUpperCase) arguments 0 none) = some text
  rw [← Option.map_bind, printed]
  simp [pieces, print, String.ofList_toList]

/-- A text without percent signs in front of a format string makes no difference. -/
theorem accepts_append {text : String} (plain : '%' ∉ text.toList) (rest : String)
    (arguments : List Kind) : accepts (text ++ rest) arguments = accepts rest arguments := by
  rw [accepts, String.toList_append, print_pieces_append _ _ plain, Option.isSome_map]
  rfl

example : format id "100%% of %s, %1$-4S|%<h" [⟨"it", 255⟩] = some "100% of it, it  |ff" := by
  decide +kernel

example : format id "100% done" [⟨"it", 255⟩] = none := by
  decide +kernel

example : accepts "100% done %2$.3f" [.int 5, .double] = true ∧ accepts "100% off" [.int 5] = false := by
  decide +kernel

end JavaFormat
