import Renaissance.Core.BenchmarkDescriptor
import Renaissance.Lib.Fallible

/-!
# Tables in parameters

`toCsvRows` reads a table from the value of a parameter. `toCsvRows_reads_iff`: a table is read back as
long as no cell at the end of a line is empty, or, if there is only one column, the last cell is not.
-/

namespace Renaissance.Core

open JavaCollections

namespace Parameter

def trim (parts : List String) : List String :=
  parts.map fun part => JavaString.trim part.toList

/-- `array[i]`. -/
def arrayGet (array : List String) (i : ℕ) : Except String String :=
  match array[i]? with
  | some x => .ok x
  | none => .error "ArrayIndexOutOfBoundsException"

/-- `m.put(names[i], cols[i])`. -/
def putCell (names cols : List String) (m : List (String × String)) (i : ℕ) :
    Except String (List (String × String)) := do
  let name ← arrayGet names i
  let col ← arrayGet cols i
  pure (update m (name, col))

/-- The map of a row, in the order of the names. -/
def rowMap (names cols : List String) : Except String (List (String × String)) :=
  (List.range names.length).foldlM (putCell names cols) []

variable (parameter : Parameter)

/-- `toCsvRows` with a parser of rows. -/
def toCsvRowsOf {R : Type} (parser : List (String × String) → Except String R)
    (availableProcessors : Nat) : Except String (List R) := do
  let value ← parameter.interpretedValue availableProcessors
  let rows := trim (JavaString.split ';' value.toList)
  let names := trim (JavaString.split ',' (← arrayGet rows 0).toList)
  (rows.drop 1).mapM fun row => do
    let cols := trim (JavaString.split ',' row.toList)
    parser (← rowMap names cols)

def toCsvRows (availableProcessors : Nat) : Except String (List (List (String × String))) :=
  parameter.toCsvRowsOf .ok availableProcessors

end Parameter

/-! ## Tables as text -/

/-- A text that can be a cell. -/
structure CellText (text : String) : Prop where
  trimmed : JavaString.trim text.toList = text
  comma : ',' ∉ text.toList
  semicolon : ';' ∉ text.toList

instance (text : String) : Decidable (CellText text) :=
  decidable_of_iff (JavaString.trim text.toList = text ∧ ',' ∉ text.toList ∧ ';' ∉ text.toList)
    ⟨fun ⟨trimmed, comma, semicolon⟩ => ⟨trimmed, comma, semicolon⟩,
      fun ⟨trimmed, comma, semicolon⟩ => ⟨trimmed, comma, semicolon⟩⟩

def csvLine (cells : List String) : String :=
  ",".intercalate cells

def csvText (lines : List (List String)) : String :=
  ";".intercalate (lines.map csvLine)

/-- A table with a name for each column and a cell for each column in each row. Its text is not a
computed-value tag. -/
structure CsvTable where
  header : List String
  rows : List (List String)
  nonempty : header ≠ []
  distinct : header.Nodup
  named : ∀ name ∈ header, name ≠ ""
  complete : ∀ row ∈ rows, row.length = header.length
  cells : ∀ line ∈ header :: rows, ∀ cell ∈ line, CellText cell
  plain : JavaString.startsWith (csvText (header :: rows)) "$" = false

namespace CsvTable

variable (table : CsvTable)

def text : String :=
  csvText (table.header :: table.rows)

/-- The rows as maps. -/
def rowMaps : List (List (String × String)) :=
  table.rows.map table.header.zip

/-- No row ends with an empty cell. In a single column only the last cell counts. -/
structure EndsFilled : Prop where
  single : table.header.length = 1 → table.rows.getLast? ≠ some [""]
  several : 1 < table.header.length → ∀ row ∈ table.rows, row.getLast? ≠ some ""

end CsvTable

/-! ## Reading a row -/

namespace Parameter

theorem arrayGet_ok_iff {array : List String} {i : ℕ} {x : String} :
    arrayGet array i = .ok x ↔ array[i]? = some x := by
  unfold arrayGet
  cases array[i]? <;> simp

theorem arrayGet_eq_ok {array : List String} {i : ℕ} (small : i < array.length) :
    arrayGet array i = .ok array[i] :=
  arrayGet_ok_iff.mpr (List.getElem?_eq_getElem small)

theorem putCell_ok_iff {names cols : List String} {m : List (String × String)} {i : ℕ}
    (named : i < names.length) : (∃ next, putCell names cols m i = .ok next) ↔ i < cols.length := by
  constructor
  · rintro ⟨next, put⟩
    obtain ⟨name, -, put⟩ := Fallible.bind_eq_ok.mp put
    obtain ⟨col, found, -⟩ := Fallible.bind_eq_ok.mp put
    exact (List.getElem?_eq_some_iff.mp (arrayGet_ok_iff.mp found)).1
  · intro small
    exact ⟨_, Fallible.bind_eq_ok.mpr ⟨names[i], arrayGet_eq_ok named,
      Fallible.bind_eq_ok.mpr ⟨cols[i], arrayGet_eq_ok small, rfl⟩⟩⟩

/-- A row is read if it has enough cells. -/
theorem rowMap_ok_iff {names cols : List String} :
    (∃ m, rowMap names cols = .ok m) ↔ names.length ≤ cols.length := by
  have each : ∀ m : List (String × String), ∀ i ∈ List.range names.length, True →
      ((∃ next, putCell names cols m i = .ok next) ↔ i < cols.length) :=
    fun m i mem _ => putCell_ok_iff (List.mem_range.mp mem)
  rw [rowMap, Fallible.foldlM_ok_iff (fun _ => True) each (fun _ _ _ _ _ _ => trivial) trivial]
  constructor
  · intro small
    by_contra more
    exact absurd (small cols.length (List.mem_range.mpr (by omega))) (lt_irrefl _)
  · intro enough i mem
    exact (List.mem_range.mp mem).trans_le enough

theorem rowMap_eq {names cols : List String} (distinct : names.Nodup)
    (same : names.length = cols.length) : rowMap names cols = .ok (names.zip cols) := by
  let entry (i : ℕ) : String × String := ((names[i]?).getD "", (cols[i]?).getD "")
  have puts : ∀ m, ∀ i ∈ List.range names.length,
      putCell names cols m i = .ok (update m (entry i)) := by
    intro m i mem
    have named := List.mem_range.mp mem
    simp only [putCell, arrayGet_eq_ok named, arrayGet_eq_ok (same ▸ named), entry,
      List.getElem?_eq_getElem named, List.getElem?_eq_getElem (same ▸ named)]
    rfl
  have entries : (List.range names.length).map entry = names.zip cols := by
    refine List.ext_getElem (by simp [same]) fun i small small' => ?_
    have named : i < names.length := by simpa using small
    simp [entry, named, same ▸ named]
  rw [rowMap, Fallible.foldlM_ok [] puts, ← List.foldl_map, entries, foldl_update, List.nil_append]
  rw [List.nil_append, List.map_fst_zip same.le]
  exact distinct

end Parameter

/-! ## Reading the lines -/

theorem csvLine_toList (cells : List String) :
    (csvLine cells).toList = [','].intercalate (cells.map String.toList) :=
  String.toList_intercalate

theorem csvText_toList (lines : List (List String)) :
    (csvText lines).toList = [';'].intercalate ((lines.map csvLine).map String.toList) :=
  String.toList_intercalate

/-- Only the line of one empty cell is empty. -/
theorem csvLine_eq_empty {cells : List String} (nonempty : cells ≠ []) :
    csvLine cells = "" ↔ cells = [""] := by
  constructor
  · intro empty
    cases cells with
    | nil => exact absurd rfl nonempty
    | cons cell cells =>
        cases cells with
        | nil => rw [csvLine, String.intercalate_singleton] at empty; rw [empty]
        | cons cell' cells =>
            have list := congrArg String.toList empty
            rw [csvLine_toList, List.map_cons, List.map_cons, List.intercalate_cons_cons] at list
            simp at list
  · rintro rfl
    rfl

section Line

variable {cells : List String} (texts : ∀ cell ∈ cells, CellText cell)
include texts

theorem trim_cells : Parameter.trim cells = cells := by
  rw [Parameter.trim]
  calc cells.map (fun cell => JavaString.trim cell.toList)
      = cells.map id := List.map_congr_left fun cell mem => (texts cell mem).trimmed
    _ = cells := List.map_id cells

theorem trim_csvLine : JavaString.trim (csvLine cells).toList = csvLine cells := by
  have trimmed : JavaString.Trimmed (csvLine cells).toList := by
    rw [csvLine_toList]
    refine JavaString.Trimmed.intercalate (by decide) fun part mem => ?_
    obtain ⟨cell, isCell, rfl⟩ := List.mem_map.mp mem
    exact JavaString.trim_eq_iff.mp (by rw [(texts cell isCell).trimmed, String.ofList_toList])
  rw [JavaString.trim_eq_iff.mpr trimmed, String.ofList_toList]

theorem semicolon_notMem_csvLine : ';' ∉ (csvLine cells).toList := by
  rw [csvLine_toList]
  exact JavaString.notMem_intercalate (by decide)
    (List.forall_mem_map.mpr fun cell mem => (texts cell mem).semicolon)

theorem split_csvLine (nonempty : cells ≠ []) (filled : cells.length = 1 ∨ cells.getLast? ≠ some "") :
    JavaString.split ',' (csvLine cells).toList = cells := by
  rw [csvLine_toList]
  exact JavaString.split_intercalate nonempty (fun cell mem => (texts cell mem).comma) filled

theorem length_split_csvLine_lt (several : 1 < cells.length) (last : cells.getLast? = some "") :
    (JavaString.split ',' (csvLine cells).toList).length < cells.length := by
  rw [csvLine_toList]
  exact JavaString.length_split_lt several (fun cell mem => (texts cell mem).comma) last

end Line

namespace CsvTable

variable {table : CsvTable}

theorem complete' (table : CsvTable) :
    ∀ line ∈ table.header :: table.rows, line.length = table.header.length := by
  rw [List.forall_mem_cons]
  exact ⟨rfl, table.complete⟩

theorem header_pos (table : CsvTable) : 0 < table.header.length :=
  List.length_pos_of_ne_nil table.nonempty

theorem line_ne_nil (table : CsvTable) : ∀ line ∈ table.header :: table.rows, line ≠ [] := by
  rintro line mem rfl
  exact table.header_pos.ne (table.complete' [] mem)

theorem trim_lines (table : CsvTable) :
    Parameter.trim ((table.header :: table.rows).map csvLine) =
      (table.header :: table.rows).map csvLine := by
  rw [Parameter.trim, List.map_map]
  exact List.map_congr_left fun line mem => trim_csvLine (table.cells line mem)

/-- The name of the last column is not empty. -/
theorem header_filled (table : CsvTable) : table.header.getLast? ≠ some "" :=
  fun last => table.named "" (List.mem_of_getLast? last) rfl

/-- The lines are found unless the last one is empty. -/
theorem split_text (filled : table.header.length = 1 → table.rows.getLast? ≠ some [""]) :
    JavaString.split ';' table.text.toList = (table.header :: table.rows).map csvLine := by
  rw [text, csvText_toList]
  refine JavaString.split_intercalate (by simp) (List.forall_mem_map.mpr fun line mem =>
    semicolon_notMem_csvLine (table.cells line mem)) (.inr ?_)
  rw [List.getLast?_map]
  intro empty
  obtain ⟨line, last, isEmpty⟩ := Option.map_eq_some_iff.mp empty
  have mem := List.mem_of_getLast? last
  obtain rfl := (csvLine_eq_empty (table.line_ne_nil line mem)).mp isEmpty
  rw [List.getLast?_cons] at last
  cases rows : table.rows.getLast? with
  | none =>
      rw [rows] at last
      have header : table.header = [""] := by simpa using last
      exact table.named "" (by simp [header]) rfl
  | some line =>
      rw [rows] at last
      obtain rfl : line = [""] := by simpa using last
      exact filled (table.complete' [""] mem).symm rows

/-- An empty last line is lost. -/
theorem length_split_text_lt (single : table.rows.getLast? = some [""]) :
    (JavaString.split ';' table.text.toList).length < table.rows.length + 1 := by
  have several : 2 ≤ ((table.header :: table.rows).map csvLine).length := by
    have := List.length_pos_of_mem (List.mem_of_getLast? single)
    rw [List.length_map, List.length_cons]
    omega
  have last : ((table.header :: table.rows).map csvLine).getLast? = some "" := by
    rw [List.getLast?_map, List.getLast?_cons, single]
    rfl
  have shorter := JavaString.length_split_lt several (List.forall_mem_map.mpr fun line mem =>
    semicolon_notMem_csvLine (table.cells line mem)) last
  rw [List.length_map, List.length_cons] at shorter
  rwa [text, csvText_toList]

/-- What is read of a row. -/
theorem rowMap_csvLine_iff {row : List String} (mem : row ∈ table.rows) :
    Parameter.rowMap table.header (Parameter.trim (JavaString.split ',' (csvLine row).toList)) =
        .ok (table.header.zip row) ↔
      (1 < table.header.length → row.getLast? ≠ some "") := by
  have inTable := List.mem_cons_of_mem table.header mem
  have length := table.complete row mem
  by_cases filled : row.length = 1 ∨ row.getLast? ≠ some ""
  · rw [split_csvLine (table.cells row inTable) (table.line_ne_nil row inTable) filled,
      trim_cells (table.cells row inTable)]
    refine iff_of_true (Parameter.rowMap_eq table.distinct length.symm) fun several => ?_
    exact filled.resolve_left (length ▸ several.ne')
  · obtain ⟨notSingle, last⟩ := not_or.mp filled
    have several : 1 < row.length := by
      have := table.header_pos
      omega
    refine iff_of_false (fun read => ?_) fun nonempty => last (nonempty (length ▸ several))
    have enough := Parameter.rowMap_ok_iff.mp ⟨_, read⟩
    have shorter := length_split_csvLine_lt (table.cells row inTable) several (not_not.mp last)
    rw [Parameter.trim, List.length_map] at enough
    omega

end CsvTable

namespace Parameter

variable {table : CsvTable} {parameter : Parameter}

theorem interpretedValue_eq (value : parameter.effectiveValue = .ok table.text)
    (availableProcessors : Nat) :
    parameter.interpretedValue availableProcessors = .ok table.text := by
  have plain : JavaString.startsWith table.text "$" = false := table.plain
  rw [interpretedValue, value]
  simp only [bind, Except.bind, plain]
  rfl

/-- All lines are found, and the rows are read one by one. -/
theorem toCsvRows_eq (value : parameter.effectiveValue = .ok table.text)
    (filled : table.header.length = 1 → table.rows.getLast? ≠ some [""]) (availableProcessors : Nat) :
    parameter.toCsvRows availableProcessors = table.rows.mapM fun row =>
      rowMap table.header (trim (JavaString.split ',' (csvLine row).toList)) := by
  have header := table.cells table.header (by simp)
  have names : trim (JavaString.split ',' (csvLine table.header).toList) = table.header := by
    rw [split_csvLine header table.nonempty (.inr table.header_filled), trim_cells header]
  have same : ∀ x : Except String (List (String × String)), (x >>= Except.ok) = x :=
    fun x => bind_pure x
  have first : arrayGet ((table.header :: table.rows).map csvLine) 0 = .ok (csvLine table.header) := rfl
  rw [toCsvRows, toCsvRowsOf, interpretedValue_eq value]
  simp only [same, Fallible.ok_bind, CsvTable.split_text filled, table.trim_lines, first, names]
  rw [List.map_cons, List.drop_one, List.tail_cons, List.mapM_map]
  rfl

/-- The rows of a table are read back, in order, if and only if no row ends with an empty cell, or, in a
single column, the last row is not empty. -/
theorem toCsvRows_reads_iff (value : parameter.effectiveValue = .ok table.text)
    (availableProcessors : Nat) :
    parameter.toCsvRows availableProcessors = .ok table.rowMaps ↔ table.EndsFilled := by
  by_cases filled : table.header.length = 1 → table.rows.getLast? ≠ some [""]
  · rw [toCsvRows_eq value filled, Fallible.mapM_eq_ok_iff, CsvTable.rowMaps, List.map_map,
      List.map_inj_left]
    constructor
    · intro read
      exact ⟨filled, fun several row mem => (CsvTable.rowMap_csvLine_iff mem).mp (read row mem) several⟩
    · intro ends' row mem
      exact (CsvTable.rowMap_csvLine_iff mem).mpr fun several => ends'.several several row mem
  · obtain ⟨single, last⟩ := Classical.not_imp.mp filled
    refine iff_of_false (fun read => ?_) fun ends' => filled ends'.single
    have shorter := CsvTable.length_split_text_lt (not_not.mp last)
    rw [toCsvRows, toCsvRowsOf, interpretedValue_eq value, Fallible.ok_bind] at read
    obtain ⟨_, -, read⟩ := Fallible.bind_eq_ok.mp read
    have lengths := congrArg List.length (Fallible.mapM_eq_ok_iff.mp read)
    simp only [trim, CsvTable.rowMaps, List.length_map, List.length_drop] at lengths
    have some' := List.length_pos_of_mem (List.mem_of_getLast? (not_not.mp last))
    omega

end Parameter

/-- The last cell of the first row is empty. -/
def halfFilled : CsvTable where
  header := ["x", "y"]
  rows := [["1", ""], ["2", "3"]]
  nonempty := by decide
  distinct := by decide
  named := by decide
  complete := by decide
  cells := by decide
  plain := by decide

/-- A parameter with the table as its value. -/
def tableParameter (table : CsvTable) : Parameter where
  configuration :=
    { descriptor :=
        { benchmarkName := "gauss-mix"
          benchmarkSettings := [("benchmark.gauss-mix.configuration.test.rows", table.text)]
          parameterOverrides := [] }
      configurationName := "test" }
  parameterName := "rows"

theorem toCsvRows_reads_iff_halfFilled :
    (tableParameter halfFilled).toCsvRows 1 = .ok halfFilled.rowMaps ↔ halfFilled.EndsFilled :=
  Parameter.toCsvRows_reads_iff rfl 1

example : (tableParameter halfFilled).toCsvRows 1 = .error "ArrayIndexOutOfBoundsException" := by
  decide

theorem not_reads_every_table :
    ¬ ∀ (table : CsvTable) (parameter : Parameter) (availableProcessors : Nat),
      parameter.effectiveValue = .ok table.text →
        parameter.toCsvRows availableProcessors = .ok table.rowMaps := by
  intro claim
  exact absurd (claim halfFilled (tableParameter halfFilled) 1 rfl) (by decide)

end Renaissance.Core
