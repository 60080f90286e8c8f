import Mathlib.Data.List.Basic
import Mathlib.Data.String.Basic
import Renaissance.Lib.JavaString

/-!
# Tables as delimited text

A table is written line by line, with commas between the cells of a line. Reading the text back
returns the cells, as long as none of them contains a comma or a line break.

Results:
1. `parse_lines`: reading what was written.
2. `joined_foldl`: the cells of a line may also be appended one after the other.
3. `clean_int`: the decimal representation of an integer is a cell.
-/

namespace DelimitedText

/-- The text can be a cell of a table. -/
def Clean (cell : String) : Prop :=
  ∀ c ∈ cell.toList, c ≠ ',' ∧ c ≠ '\n'

theorem clean_of_all {cell : String}
    (all : (cell.toList.all fun c => c != ',' && c != '\n') = true) : Clean cell := by
  intro c mem
  simpa using List.all_eq_true.mp all c mem

/-- One line of a table. -/
def line (cells : List String) : String :=
  ",".intercalate cells ++ "\n"

/-- The cells of every line. What follows the last line break is a line, too. -/
def parse (text : String) : List (List String) :=
  (text.toList.splitOn '\n').map fun l => (l.splitOn ',').map String.ofList

theorem line_toList (cells : List String) :
    (line cells).toList = [','].intercalate (cells.map String.toList) ++ ['\n'] := by
  simp [line, String.toList_append, String.toList_intercalate]

theorem splitOn_comma {cells : List String} (some : cells ≠ [])
    (clean : ∀ cell ∈ cells, Clean cell) :
    (([','].intercalate (cells.map String.toList)).splitOn ',').map String.ofList = cells := by
  rw [List.splitOn_intercalate]
  · simp [Function.comp_def]
  · intro cell mem found
    obtain ⟨s, memS, rfl⟩ := List.mem_map.mp mem
    exact (clean s memS _ found).1 rfl
  · simpa using some

theorem newline_notMem_intercalate {cells : List String} (clean : ∀ cell ∈ cells, Clean cell) :
    '\n' ∉ [','].intercalate (cells.map String.toList) := by
  refine JavaString.notMem_intercalate (by decide) fun part mem found => ?_
  obtain ⟨cell, listed, rfl⟩ := List.mem_map.mp mem
  exact (clean cell listed _ found).2 rfl

theorem parse_lines {text : String} {rows : List (List String)} (some : ∀ row ∈ rows, row ≠ [])
    (clean : ∀ row ∈ rows, ∀ cell ∈ row, Clean cell)
    (written : text.toList = rows.flatMap fun row => (line row).toList) :
    parse text = rows ++ [[""]] := by
  rw [parse, written]
  induction rows generalizing text with
  | nil => rfl
  | cons row rows ih =>
      have unbroken := newline_notMem_intercalate fun cell mem => clean row (by simp) cell mem
      have inner := @ih (String.ofList (rows.flatMap fun row => (line row).toList))
        (fun row mem => some row (by simp [mem])) (fun row mem => clean row (by simp [mem])) (by simp)
      rw [List.flatMap_cons, line_toList, List.append_assoc, List.singleton_append,
        List.splitOn_eq_splitOnP, List.splitOnP_append_cons_of_forall_mem _ _ (by simp)]
      · rw [← List.splitOn_eq_splitOnP, List.map_cons, inner,
          splitOn_comma (some row (by simp)) fun cell mem => clean row (by simp) cell mem]
        rfl
      · intro c mem
        have : c ≠ '\n' := by
          rintro rfl
          exact unbroken mem
        simpa using this

/-- A text that grows at its end, step by step. -/
theorem toList_foldl {α : Type} {g : String → α → String} {f : α → List Char}
    (grows : ∀ text x, (g text x).toList = text.toList ++ f x) (xs : List α) (text : String) :
    (xs.foldl g text).toList = text.toList ++ xs.flatMap f := by
  induction xs generalizing text with
  | nil => simp
  | cons x xs ih => rw [List.foldl_cons, ih, grows, List.flatMap_cons, List.append_assoc]

/-- The cells of a line, appended one after the other. -/
theorem joined_foldl (first : String) (cells : List String) (text : String) :
    (cells.foldl (fun text cell => text ++ "," ++ cell) (text ++ first)).toList =
      text.toList ++ [','].intercalate ((first :: cells).map String.toList) := by
  induction cells generalizing first text with
  | nil => simp [List.intercalate]
  | cons cell cells ih =>
      rw [List.foldl_cons, ih]
      simp [List.intercalate_cons_cons]

/-- A line written as a first cell, the cells in the middle and a last cell. -/
theorem line_surrounded {cells : List String} (some : cells ≠ []) (first last : String) :
    line (first :: (cells ++ [last])) =
      first ++ "," ++ ",".intercalate cells ++ "," ++ last ++ "\n" := by
  rw [line, String.intercalate_cons_of_ne_nil (by simp),
    String.intercalate_append_of_ne_nil some (by simp), String.intercalate_singleton]
  simp [String.append_assoc]

theorem clean_nat (n : Nat) : Clean n.repr := by
  intro c mem
  rw [Nat.toList_repr] at mem
  have digit := Nat.isDigit_of_mem_toDigits (by decide) (by decide) mem
  refine ⟨?_, ?_⟩ <;> rintro rfl <;> exact absurd digit (by decide)

theorem clean_int (n : Int) : Clean (toString n) := by
  rw [Int.toString_eq_repr, Int.repr_eq_if]
  split
  · exact clean_nat _
  · intro c mem
    rw [String.toList_append, List.mem_append] at mem
    rcases mem with mem | mem
    · obtain rfl : c = '-' := by simpa using mem
      decide
    · exact clean_nat _ c mem

end DelimitedText
