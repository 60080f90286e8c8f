import Renaissance.Lib.DelimitedText
import Renaissance.Lib.Fallible
import Renaissance.Harness.CollectedResults

/-!
# The tables that the writers store

`CsvWriter` and `JsonWriter` each derive the rows of a table from the nested maps. If the sanity check
passes, both store what the writer was told: the value of a metric in a repetition is the value that
was reported, in the order of the reports.

Results:
1. `csv_store`, `json_store`: neither writer fails, and what each of them stores.
2. `writers_agree`: the CSV text and the JSON tree describe the same table and lose nothing.
3. `store_shows`: each writer on its own, for any names.
4. `accounts_jsonTree`: the JSON tree accounts for every benchmark that the writer was told about
   exactly if every failed benchmark has reported something.
-/

namespace Renaissance

open JavaCollections DelimitedText ResultWriter

/-! ## The collected results, benchmark by benchmark -/

/-- Every metric was reported `n` times, for every benchmark that reported it. -/
def Repetitions (writer : ResultWriter) (n : Nat) : Prop :=
  ∀ b m, writer.values b m ≠ [] → (writer.values b m).length = n

theorem exists_repetitions {writer : ResultWriter} (filled : Filled writer.resultsByBenchmarkName)
    (consistent : checkBenchmarkResults writer.resultsByBenchmarkName = none) :
    ∃ n, Repetitions writer n := by
  have same := (checkBenchmarkResults_iff filled).mp consistent
  by_cases some : ∃ b m, writer.values b m ≠ []
  · obtain ⟨b, m, held⟩ := some
    exact ⟨(writer.values b m).length, fun b' m' held' => same b' m' b m held' held⟩
  · refine ⟨0, fun b m held => ?_⟩
    exact absurd ⟨b, m, held⟩ some

section Stores

variable {writer : ResultWriter} {n : Nat}

/-- What `getBenchmarkResults` says about a benchmark. -/
def resultsOf (writer : ResultWriter) (n : Nat) (b : String) : BenchmarkResults where
  benchName := b
  benchFailed := b ∈ writer.failedBenchmarkNames
  metricsByName := (writer.resultsByBenchmarkName.lookup b).getD ∅
  repetitionCount := n

theorem lookup_resultsOf (filled : Filled writer.resultsByBenchmarkName) {b : String}
    (mem : b ∈ writer.resultsByBenchmarkName.keys) (m : String) :
    (resultsOf writer n b).metricsByName.lookup m =
      if writer.values b m = [] then none else some (writer.values b m) := by
  obtain ⟨metrics, found⟩ := Option.isSome_iff_exists.mp
    (AList.lookup_isSome.mpr (AList.mem_keys.mpr mem))
  rw [← lookup_metric filled found m, resultsOf, found]
  rfl

theorem benchmarkResults_ok (filled : Filled writer.resultsByBenchmarkName)
    (repeated : Repetitions writer n) {b : String}
    (mem : b ∈ writer.resultsByBenchmarkName.keys) :
    writer.benchmarkResults b = .ok (resultsOf writer n b) := by
  obtain ⟨m, held⟩ := (mem_keys_iff filled b).mp mem
  obtain ⟨metrics, found⟩ := Option.isSome_iff_exists.mp
    (AList.lookup_isSome.mpr (AList.mem_keys.mpr mem))
  have all : ∀ size ∈ metrics.entries.map fun metric => metric.2.length, size = n := by
    intro size memSize
    obtain ⟨⟨metric, values⟩, memEntry, rfl⟩ := List.mem_map.mp memSize
    have foundValues := AList.mem_lookup_iff.mpr memEntry
    rw [Option.mem_def, lookup_metric filled found] at foundValues
    split at foundValues
    · cases foundValues
    · rename_i nonempty
      rw [← Option.some.inj foundValues]
      exact repeated b metric nonempty
  have foundValues := lookup_metric filled found m
  rw [if_neg held] at foundValues
  have reached : n ∈ metrics.entries.map fun metric => metric.2.length :=
    List.mem_map.mpr ⟨⟨m, writer.values b m⟩, AList.mem_lookup_iff.mp foundValues,
      repeated b m held⟩
  have largest : (metrics.entries.map fun metric => metric.2.length).max? = some n :=
    List.max?_eq_some_iff.mpr ⟨reached, fun size memSize => le_of_eq (all size memSize)⟩
  simp only [benchmarkResults, found, maximum, largest]
  rw [resultsOf, found]
  rfl

theorem getBenchmarkResults_ok (filled : Filled writer.resultsByBenchmarkName)
    (repeated : Repetitions writer n) (order : IterationOrder String) :
    writer.getBenchmarkResults order =
      .ok ((writer.getBenchmarkNames order).map (resultsOf writer n)) :=
  Fallible.mapM_ok fun b mem => benchmarkResults_ok filled repeated (by simpa [getBenchmarkNames] using mem)

theorem mem_getMetricNames (filled : Filled writer.resultsByBenchmarkName) (m : String) :
    m ∈ writer.getMetricNames ↔ ∃ b, writer.values b m ≠ [] := by
  simp only [getMetricNames, mem_sorted, List.mem_dedup, List.mem_flatMap]
  constructor
  · rintro ⟨⟨b, metrics⟩, memB, memM⟩
    have found := AList.mem_lookup_iff.mpr memB
    obtain ⟨values, foundValues⟩ := Option.isSome_iff_exists.mp
      (AList.lookup_isSome.mpr (AList.mem_keys.mpr memM))
    refine ⟨b, fun empty => ?_⟩
    rw [lookup_metric filled found, if_pos empty] at foundValues
    cases foundValues
  · rintro ⟨b, held⟩
    obtain ⟨metrics, found⟩ := Option.isSome_iff_exists.mp
      (AList.lookup_isSome.mpr (AList.mem_keys.mpr ((mem_keys_iff filled b).mpr ⟨m, held⟩)))
    refine ⟨⟨b, metrics⟩, AList.mem_lookup_iff.mp found, AList.mem_keys.mp ?_⟩
    rw [← AList.lookup_isSome, lookup_metric filled found, if_neg held]
    rfl

theorem nodup_getMetricNames : writer.getMetricNames.Nodup :=
  (sorted_perm _).nodup_iff.mpr (List.nodup_dedup _)

theorem nodup_getBenchmarkNames (order : IterationOrder String) :
    (writer.getBenchmarkNames order).Nodup :=
  (order.perm _).nodup_iff.mpr writer.resultsByBenchmarkName.keys_nodup

/-! ## The text of the CSV writer -/

/-- What a row shows of a metric in one repetition. -/
def csvCell : Option Int → String
  | some value => toString value
  | none => "NA"

/-- The row of the `i`-th values of a benchmark, with a cell for each column. -/
def tableRow (values : String → String → List Int) (columns : List String) (start : Int) (b : String)
    (i : Nat) : List String :=
  b :: ((columns.map fun m => csvCell (values b m)[i]?) ++ [toString start])

/-- The `i`-th row of a benchmark. -/
def csvRow (writer : ResultWriter) (start : Int) (b : String) (i : Nat) : List String :=
  tableRow writer.values writer.getMetricNames start b i

/-- The header has an empty cell where there is no metric at all. -/
def csvHeader (columns : List String) : List String :=
  "benchmark" :: ((if columns = [] then [""] else columns) ++ ["vm_start_unix_ms"])

def csvRows (writer : ResultWriter) (order : IterationOrder String) (start : Int) (n : Nat) :
    List (List String) :=
  (writer.getBenchmarkNames order).flatMap fun b => (List.range n).map (csvRow writer start b)

theorem formatHeader_eq (columns : List String) :
    CsvWriter.formatHeader columns "" = line (csvHeader columns) := by
  rw [CsvWriter.formatHeader, csvHeader]
  split
  · rename_i none
    subst none
    decide
  · rename_i some
    rw [line_surrounded some]
    simp [String.append_assoc]

theorem stringValue_ok (filled : Filled writer.resultsByBenchmarkName)
    (repeated : Repetitions writer n) {b : String}
    (mem : b ∈ writer.resultsByBenchmarkName.keys) {i : Nat} (less : i < n) (m : String) :
    CsvWriter.stringValue (resultsOf writer n b).metricsByName i m =
      .ok (csvCell (writer.values b m)[i]?) := by
  rw [CsvWriter.stringValue, lookup_resultsOf filled mem]
  split
  · rename_i values found
    split at found
    · cases found
    · rename_i held
      obtain rfl := Option.some.inj found
      have inside : i < (writer.values b m).length := by
        rw [repeated b m held]
        exact less
      rw [valueAt, List.getElem?_eq_getElem inside]
      rfl
  · rename_i absent
    split at absent
    · rename_i empty
      rw [empty]
      rfl
    · cases absent

theorem formatRow_ok (filled : Filled writer.resultsByBenchmarkName)
    (repeated : Repetitions writer n) {b : String}
    (mem : b ∈ writer.resultsByBenchmarkName.keys) {i : Nat} (less : i < n) (start : Int)
    (csv : String) :
    CsvWriter.formatRow start writer.getMetricNames (resultsOf writer n b) csv i =
      .ok (csv ++ line (csvRow writer start b i)) := by
  have cells : writer.getMetricNames.foldlM
      (fun csv metricName => do
        let value ← CsvWriter.stringValue (resultsOf writer n b).metricsByName i metricName
        pure (csv ++ "," ++ value))
      (csv ++ b) = .ok (writer.getMetricNames.foldl
        (fun csv m => csv ++ "," ++ csvCell (writer.values b m)[i]?) (csv ++ b)) := by
    refine Fallible.foldlM_ok _ fun acc m _ => ?_
    rw [stringValue_ok filled repeated mem less]
    rfl
  rw [CsvWriter.formatRow]
  simp only [show (resultsOf writer n b).benchName = b from rfl, cells]
  refine congrArg Except.ok (String.toList_inj.mp ?_)
  have joined := joined_foldl b
    ((writer.getMetricNames.map fun m => csvCell (writer.values b m)[i]?) ++ [toString start]) csv
  rw [List.foldl_append, List.foldl_map, List.foldl_cons, List.foldl_nil] at joined
  rw [String.toList_append, joined, String.toList_append, line_toList, csvRow, tableRow]
  simp

theorem csv_store (filled : Filled writer.resultsByBenchmarkName)
    (repeated : Repetitions writer n) (jvm : Jvm) :
    ∃ text, CsvWriter.store jvm writer = .ok text ∧
      text.toList = (csvHeader writer.getMetricNames ::
        csvRows writer jvm.order jvm.startTime n).flatMap fun row => (line row).toList := by
  have rows : ∀ (acc : String), ∀ b ∈ writer.getBenchmarkNames jvm.order,
      (List.range n).foldlM
        (CsvWriter.formatRow jvm.startTime writer.getMetricNames (resultsOf writer n b)) acc =
      .ok ((List.range n).foldl
        (fun csv i => csv ++ line (csvRow writer jvm.startTime b i)) acc) := by
    intro acc b mem
    refine Fallible.foldlM_ok acc fun acc i less => ?_
    exact formatRow_ok filled repeated (by simpa [getBenchmarkNames] using mem)
      (List.mem_range.mp less) _ acc
  refine ⟨(writer.getBenchmarkNames jvm.order).foldl
    (fun csv b => (List.range n).foldl
      (fun csv i => csv ++ line (csvRow writer jvm.startTime b i)) csv)
    (CsvWriter.formatHeader writer.getMetricNames ""), ?_, ?_⟩
  · simp only [CsvWriter.store, CsvWriter.formatResults, getBenchmarkResults_ok filled repeated]
    refine (List.foldlM_map ..).trans (Fallible.foldlM_ok _ ?_)
    exact rows
  · have grows : ∀ (csv b : String), ((List.range n).foldl
        (fun csv i => csv ++ line (csvRow writer jvm.startTime b i)) csv).toList =
        csv.toList ++ (List.range n).flatMap fun i =>
          (line (csvRow writer jvm.startTime b i)).toList :=
      fun csv b => toList_foldl
        (f := fun i => (line (csvRow writer jvm.startTime b i)).toList) (by simp) _ csv
    rw [toList_foldl grows, formatHeader_eq, List.flatMap_cons, csvRows, List.flatMap_assoc]
    simp only [List.flatMap_map]

/-! ## The tree of the JSON writer -/

/-- The fields of the `i`-th repetition of a benchmark. -/
def jsonFields (writer : ResultWriter) (b : String) (i : Nat) : List (String × JsValue) :=
  writer.getMetricNames.filterMap fun m =>
    (writer.values b m)[i]?.map fun value => (m, JsValue.number value)

def jsonEntry (writer : ResultWriter) (n : Nat) (b : String) : JsValue :=
  .object [
    ("results", .array ((List.range n).map fun i => .object (jsonFields writer b i))),
    ("termination", .string (if b ∈ writer.failedBenchmarkNames then "failure" else "normal"))]

theorem repetition_ok (filled : Filled writer.resultsByBenchmarkName)
    (repeated : Repetitions writer n) {b : String}
    (mem : b ∈ writer.resultsByBenchmarkName.keys) {i : Nat} (less : i < n) :
    JsonWriter.repetition writer.getMetricNames (resultsOf writer n b).metricsByName i =
      .ok (jsonFields writer b i) := by
  have fields : ∀ m ∈ writer.getMetricNames,
      JsonWriter.field (resultsOf writer n b).metricsByName i m =
        .ok ((writer.values b m)[i]?.map fun value => (m, JsValue.number value)) := by
    intro m _
    rw [JsonWriter.field, lookup_resultsOf filled mem]
    by_cases held : writer.values b m = []
    · rw [if_pos held, held]
      rfl
    · have inside : i < (writer.values b m).length := by
        rw [repeated b m held]
        exact less
      rw [if_neg held]
      simp only [valueAt, List.getElem?_eq_getElem inside]
      rfl
  rw [JsonWriter.repetition, Fallible.mapM_ok fields]
  refine congrArg Except.ok ?_
  exact List.filterMap_map

/-- What `JsonWriter.store` writes after `n` repetitions. -/
def jsonTree (writer : ResultWriter) (jvm : Jvm) (normalTermination : Bool) (n : Nat) : JsValue :=
  .object [
    ("format_version", .number 5),
    ("benchmarks", .array ((writer.getBenchmarkNames jvm.order).map .string)),
    ("environment", jvm.environment normalTermination),
    ("suite", jvm.suite),
    ("data", .object ((writer.getBenchmarkNames jvm.order).map fun b => (b, jsonEntry writer n b)))]

theorem json_store (filled : Filled writer.resultsByBenchmarkName)
    (repeated : Repetitions writer n) (jvm : Jvm) (normalTermination : Bool) :
    JsonWriter.store jvm normalTermination writer =
      .ok (jsonTree writer jvm normalTermination n) := by
  have trees : ∀ b ∈ writer.getBenchmarkNames jvm.order,
      JsonWriter.benchmarkTree writer.getMetricNames (resultsOf writer n b) =
        .ok (jsonEntry writer n b) := by
    intro b mem
    have repetitions : (List.range n).mapM
        (JsonWriter.repetition writer.getMetricNames (resultsOf writer n b).metricsByName) =
        .ok ((List.range n).map (jsonFields writer b)) := Fallible.mapM_ok fun i less =>
      repetition_ok filled repeated (by simpa [getBenchmarkNames] using mem) (List.mem_range.mp less)
    rw [JsonWriter.benchmarkTree, show (resultsOf writer n b).repetitionCount = n from rfl,
      repetitions, jsonEntry]
    simp [resultsOf, Function.comp_def]
  have data : JsonWriter.getResultData jvm writer =
      .ok ((writer.getBenchmarkNames jvm.order).map fun b => (b, jsonEntry writer n b)) := by
    have entries : ∀ result ∈ (writer.getBenchmarkNames jvm.order).map (resultsOf writer n),
        (do
          let tree ← JsonWriter.benchmarkTree writer.getMetricNames result
          pure (result.benchName, tree) : Except Throwable (String × JsValue)) =
        .ok (result.benchName, jsonEntry writer n result.benchName) := by
      intro result mem
      obtain ⟨b, memB, rfl⟩ := List.mem_map.mp mem
      rw [trees b memB]
      rfl
    simp only [JsonWriter.getResultData, getBenchmarkResults_ok filled repeated]
    refine (Fallible.mapM_ok entries).trans ?_
    rw [List.map_map]
    rfl
  rw [JsonWriter.store, data]
  rfl

end Stores

/-! ## Reading the tables -/

/-- The rows of a benchmark. -/
def rowsOf (rows : List (List String)) (b : String) : List (List String) :=
  rows.filter fun row => row.head? = some b

/-- The cell in column `j` of the `i`-th row of a benchmark. -/
def cellOf (rows : List (List String)) (b : String) (i j : Nat) : Option String :=
  (rowsOf rows b)[i]?.bind fun row => row[j]?

namespace JsValue

/-- The entry of a benchmark under `data`. -/
def entryOf (tree : JsValue) (b : String) : Option JsValue :=
  (tree.field? "data").bind (field? b)

def repetitionsOf (tree : JsValue) (b : String) : List JsValue :=
  (((tree.entryOf b).bind (field? "results")).bind elements?).getD []

/-- The value of a metric in the `i`-th repetition of a benchmark. -/
def metricOf (tree : JsValue) (b : String) (i : Nat) (m : String) : Option JsValue :=
  (tree.repetitionsOf b)[i]?.bind (field? m)

end JsValue

theorem lookup_map_self {α : Type} (names : List String) (f : String → α) (name : String) :
    (names.map fun x => (x, f x)).lookup name = if name ∈ names then some (f name) else none := by
  induction names with
  | nil => rfl
  | cons x names ih =>
      rw [List.map_cons, List.lookup_cons, ih]
      by_cases same : name = x
      · subst same
        simp
      · have other : (name == x) = false := beq_eq_false_iff_ne.mpr same
        simp [same, other]

theorem lookup_filterMap_self {α : Type} (names : List String) (f : String → Option α)
    (name : String) :
    (names.filterMap fun x => (f x).map fun y => (x, y)).lookup name =
      if name ∈ names then f name else none := by
  induction names with
  | nil => rfl
  | cons x names ih =>
      rw [List.filterMap_cons]
      by_cases same : name = x
      · subst same
        cases h : f name with
        | none => simp [h, ih]
        | some y => simp
      · have other : (name == x) = false := beq_eq_false_iff_ne.mpr same
        cases h : f x with
        | none => simp [ih, same]
        | some y => simp [List.lookup_cons, ih, same, other]

theorem rowsOf_flatMap {names : List String} (distinct : names.Nodup) (n : Nat)
    {row : String → Nat → List String} (head : ∀ b i, (row b i).head? = some b) (b : String) :
    rowsOf (names.flatMap fun b => (List.range n).map (row b)) b =
      if b ∈ names then (List.range n).map (row b) else [] := by
  have own : ∀ b', rowsOf ((List.range n).map (row b')) b =
      if b' = b then (List.range n).map (row b') else [] := by
    intro b'
    rw [rowsOf, List.filter_map]
    simp only [Function.comp_def, head, Option.some.injEq]
    split <;> simp_all
  induction names with
  | nil => rfl
  | cons b' names ih =>
      obtain ⟨fresh, distinct⟩ := List.nodup_cons.mp distinct
      rw [List.flatMap_cons, rowsOf, List.filter_append, ← rowsOf, ← rowsOf, own, ih distinct]
      by_cases same : b' = b
      · subst same
        simp [fresh]
      · have other : ¬ b = b' := fun h => same h.symm
        simp [same, other]

section Reading

variable {writer : ResultWriter} {n : Nat}

theorem rowsOf_csvRows (order : IterationOrder String) (start : Int) (b : String) :
    rowsOf (csvRows writer order start n) b =
      if b ∈ writer.resultsByBenchmarkName.keys then
        (List.range n).map (csvRow writer start b) else [] := by
  rw [csvRows, rowsOf_flatMap (nodup_getBenchmarkNames order) n (fun _ _ => rfl)]
  simp [getBenchmarkNames]

theorem entryOf_jsonTree (jvm : Jvm) (normalTermination : Bool) (b : String) :
    (jsonTree writer jvm normalTermination n).entryOf b =
      if b ∈ writer.resultsByBenchmarkName.keys then some (jsonEntry writer n b) else none :=
  (lookup_map_self _ _ b).trans (by simp [getBenchmarkNames])

theorem repetitionsOf_jsonTree (jvm : Jvm) (normalTermination : Bool) (b : String) :
    (jsonTree writer jvm normalTermination n).repetitionsOf b =
      if b ∈ writer.resultsByBenchmarkName.keys then
        (List.range n).map fun i => .object (jsonFields writer b i) else [] := by
  rw [JsValue.repetitionsOf, entryOf_jsonTree]
  split <;> rfl

theorem field?_jsonFields (filled : Filled writer.resultsByBenchmarkName) (b : String) (i : Nat)
    (m : String) :
    (JsValue.object (jsonFields writer b i)).field? m =
      (writer.values b m)[i]?.map JsValue.number := by
  have fields : jsonFields writer b i = writer.getMetricNames.filterMap fun m =>
      ((writer.values b m)[i]?.map JsValue.number).map fun value => (m, value) := by
    simp [jsonFields, Function.comp_def]
  rw [JsValue.field?, fields, lookup_filterMap_self]
  split
  · rfl
  · rename_i absent
    have empty : writer.values b m = [] := by
      by_contra held
      exact absent ((mem_getMetricNames filled m).mpr ⟨b, held⟩)
    rw [empty]
    rfl

/-- The cell of a metric, found by the position of the metric's column. -/
theorem cellOf_csvRows {order : IterationOrder String} {start : Int} {b m : String} {i j : Nat}
    (mem : b ∈ writer.resultsByBenchmarkName.keys) (less : i < n)
    (column : writer.getMetricNames[j]? = some m) :
    cellOf (csvRows writer order start n) b i (j + 1) = some (csvCell (writer.values b m)[i]?) := by
  have inside := (List.getElem?_eq_some_iff.mp column).1
  rw [cellOf, rowsOf_csvRows, if_pos mem, List.getElem?_map, List.getElem?_range less]
  simp only [Option.map_some, Option.bind_some, csvRow, tableRow, List.getElem?_cons_succ]
  rw [List.getElem?_append_left (by simpa using inside), List.getElem?_map, column]
  rfl

theorem metricOf_jsonTree (filled : Filled writer.resultsByBenchmarkName) {jvm : Jvm}
    {normalTermination : Bool} {b : String} {i : Nat}
    (mem : b ∈ writer.resultsByBenchmarkName.keys) (less : i < n) (m : String) :
    (jsonTree writer jvm normalTermination n).metricOf b i m =
      (writer.values b m)[i]?.map JsValue.number := by
  rw [JsValue.metricOf, repetitionsOf_jsonTree, if_pos mem, List.getElem?_map,
    List.getElem?_range less]
  exact field?_jsonFields filled b i m

end Reading

/-! ## One table -/

theorem mem_csvRows {writer : ResultWriter} {order : IterationOrder String} {start : Int} {n : Nat}
    {row : List String} :
    row ∈ csvRows writer order start n ↔
      ∃ b ∈ writer.resultsByBenchmarkName.keys, ∃ i < n, csvRow writer start b i = row := by
  simp [csvRows, getBenchmarkNames]

section Cells

variable {kind : WriterKind} {ns : List Notification}
  (clean : ∀ b m v, .onMeasurementResult b m v ∈ ns → Clean b ∧ Clean m)
include clean

theorem clean_of_recorded {b m : String} (reported : recorded ns b m ≠ []) : Clean b ∧ Clean m := by
  obtain ⟨value, mem⟩ := List.exists_mem_of_ne_nil _ reported
  exact clean b m value ((mem_recorded_iff ns b m value).mp mem)

theorem clean_getMetricNames : ∀ m ∈ (collect kind ns).getMetricNames, Clean m := by
  intro m mem
  obtain ⟨b, reported⟩ := (mem_getMetricNames filled_collect m).mp mem
  rw [values_collect] at reported
  exact (clean_of_recorded clean reported).2

theorem clean_csvHeader : ∀ cell ∈ csvHeader (collect kind ns).getMetricNames, Clean cell := by
  intro cell mem
  simp only [csvHeader, List.mem_cons, List.mem_append, List.not_mem_nil, or_false] at mem
  rcases mem with rfl | mem | rfl
  · exact clean_of_all rfl
  · split at mem
    · obtain rfl := List.mem_singleton.mp mem
      exact clean_of_all rfl
    · exact clean_getMetricNames clean cell mem
  · exact clean_of_all rfl

theorem clean_csvRows (order : IterationOrder String) (start : Int) (n : Nat) :
    ∀ row ∈ csvRows (collect kind ns) order start n, ∀ cell ∈ row, Clean cell := by
  intro row memRow cell mem
  obtain ⟨b, memB, i, -, rfl⟩ := mem_csvRows.mp memRow
  simp only [csvRow, tableRow, List.mem_cons, List.mem_append, List.mem_map, List.not_mem_nil, or_false] at mem
  rcases mem with rfl | ⟨m, -, rfl⟩ | rfl
  · obtain ⟨m, reported⟩ := (mem_keys_iff filled_collect cell).mp memB
    rw [values_collect] at reported
    exact (clean_of_recorded clean reported).1
  · cases ((collect kind ns).values b m)[i]? with
    | some value => exact clean_int value
    | none => exact clean_of_all rfl
  · exact clean_int start

end Cells

theorem length_csvRow {writer : ResultWriter} (some : writer.getMetricNames ≠ []) (start : Int)
    (b : String) (i : Nat) :
    (csvRow writer start b i).length = (csvHeader writer.getMetricNames).length := by
  simp [csvRow, tableRow, csvHeader, some]

/-- The name of the `j`-th metric stands in the column after that of the benchmark. -/
theorem header_column {columns : List String} {j : Nat} {m : String}
    (column : columns[j]? = some m) : (csvHeader columns)[j + 1]? = some m := by
  have some : columns ≠ [] := by
    rintro rfl
    simp at column
  rw [csvHeader, if_neg some, List.getElem?_cons_succ, List.getElem?_append_left]
  · exact column
  · exact (List.getElem?_eq_some_iff.mp column).1

/-- A CSV writer and a JSON writer that were told `ns` both store, and the CSV text and the JSON tree
show the same values: for each benchmark, repetition and metric the value that was reported, as a
decimal and as a number, or `NA` and no field if the benchmark never reported the metric. -/
def StoreSameTable (ns : List Notification) (csvJvm jsonJvm : Jvm) (normalTermination : Bool) :
    Prop :=
  ∃ (text : String) (tree : JsValue) (header : List String) (rows : List (List String))
    (columns : List String),
    (collect .csv ns).store csvJvm normalTermination = .ok (.csv text) ∧
    (collect .json ns).store jsonJvm normalTermination = .ok (.json tree) ∧
    parse text = header :: (rows ++ [[""]]) ∧
    (∀ row ∈ rows, row.length = header.length) ∧
    columns.Nodup ∧ (∀ m, m ∈ columns ↔ ∃ b, recorded ns b m ≠ []) ∧
    (∀ j m, columns[j]? = some m → header[j + 1]? = some m) ∧
    ∀ b, (rowsOf rows b).length = (tree.repetitionsOf b).length ∧
      (∀ m, recorded ns b m ≠ [] → (recorded ns b m).length = (rowsOf rows b).length) ∧
      ∀ i < (rowsOf rows b).length, ∀ j m, columns[j]? = some m →
        match (recorded ns b m)[i]? with
        | some value =>
            cellOf rows b i (j + 1) = some (toString value) ∧
              tree.metricOf b i m = some (.number value)
        | none =>
            recorded ns b m = [] ∧ cellOf rows b i (j + 1) = some "NA" ∧
              tree.metricOf b i m = none

theorem writers_agree (ns : List Notification)
    (clean : ∀ b m v, .onMeasurementResult b m v ∈ ns → Clean b ∧ Clean m)
    (consistent : checkBenchmarkResults (collect .csv ns).resultsByBenchmarkName = none)
    (csvJvm jsonJvm : Jvm) (normalTermination : Bool) :
    StoreSameTable ns csvJvm jsonJvm normalTermination := by
  obtain ⟨n, repeated⟩ := exists_repetitions filled_collect consistent
  have repeatedJson : Repetitions (collect .json ns) n := by
    intro b m held
    rw [values_collect] at held ⊢
    simpa using repeated b m (by rwa [values_collect])
  obtain ⟨text, stored, written⟩ := csv_store filled_collect repeated csvJvm
  have storedJson := json_store filled_collect repeatedJson jsonJvm normalTermination
  refine ⟨text, jsonTree (collect .json ns) jsonJvm normalTermination n,
    csvHeader (collect .csv ns).getMetricNames,
    csvRows (collect .csv ns) csvJvm.order csvJvm.startTime n, (collect .csv ns).getMetricNames,
    ?_, ?_, ?_, ?_, nodup_getMetricNames, ?_, ?_, ?_⟩
  · simp only [ResultWriter.store, kind_collect, stored]
    rfl
  · simp only [ResultWriter.store, kind_collect, storedJson]
    rfl
  · -- no line is empty, and no cell contains a comma or a line break
    rw [parse_lines _ _ written]
    · rfl
    · intro row mem
      rcases List.mem_cons.mp mem with rfl | mem
      · simp [csvHeader]
      · obtain ⟨b, -, i, -, rfl⟩ := mem_csvRows.mp mem
        simp [csvRow, tableRow]
    · intro row mem
      rcases List.mem_cons.mp mem with rfl | mem
      · exact clean_csvHeader clean
      · exact clean_csvRows clean _ _ _ row mem
  · intro row mem
    obtain ⟨b, memB, i, -, rfl⟩ := mem_csvRows.mp mem
    obtain ⟨m, held⟩ := (mem_keys_iff filled_collect b).mp memB
    have named := (mem_getMetricNames filled_collect m).mpr ⟨b, held⟩
    exact length_csvRow (List.ne_nil_of_mem named) _ b i
  · intro m
    simp [mem_getMetricNames filled_collect]
  · exact fun j m column => header_column column
  · intro b
    have keys : b ∈ (collect .json ns).resultsByBenchmarkName.keys ↔
        b ∈ (collect .csv ns).resultsByBenchmarkName.keys := by
      simp [mem_keys_iff filled_collect]
    by_cases mem : b ∈ (collect .csv ns).resultsByBenchmarkName.keys
    · have rows : (rowsOf (csvRows (collect .csv ns) csvJvm.order csvJvm.startTime n) b).length = n := by
        rw [rowsOf_csvRows, if_pos mem]
        simp
      rw [rows, repetitionsOf_jsonTree, if_pos (keys.mpr mem)]
      have lengths : ∀ m, recorded ns b m ≠ [] → (recorded ns b m).length = n := by
        intro m reported
        simpa using repeated b m (by rwa [values_collect])
      refine ⟨by simp, lengths, fun i less j m column => ?_⟩
      rw [cellOf_csvRows mem less column, metricOf_jsonTree filled_collect (keys.mpr mem) less,
        values_collect, values_collect]
      cases value : (recorded ns b m)[i]? with
      | some value => exact ⟨rfl, rfl⟩
      | none =>
          refine ⟨?_, rfl, rfl⟩
          by_contra reported
          have short := List.getElem?_eq_none_iff.mp value
          rw [lengths m reported] at short
          omega
    · -- a benchmark without results has no rows
      have unreported : ∀ m, recorded ns b m = [] := by
        intro m
        by_contra reported
        exact mem ((mem_keys_iff filled_collect b).mpr ⟨m, by rwa [values_collect]⟩)
      rw [rowsOf_csvRows, repetitionsOf_jsonTree, if_neg mem, if_neg (keys.not.mpr mem)]
      exact ⟨rfl, fun m reported => absurd (unreported m) reported, fun i less => by simp at less⟩

/-- Two benchmarks with a metric of their own and a common one. -/
def sampleNotifications : List Notification :=
  [.onMeasurementResult "a" "time" 7, .onMeasurementResult "a" "misses" (-1),
    .onMeasurementResult "b" "time" 8, .onBenchmarkFailure "b"]

theorem writers_agree_sample : StoreSameTable sampleNotifications .plain .plain true := by
  refine writers_agree sampleNotifications ?_ (by decide) .plain .plain true
  intro b m v mem
  simp only [sampleNotifications, List.mem_cons, Notification.onMeasurementResult.injEq,
    List.not_mem_nil, or_false, reduceCtorEq] at mem
  rcases mem with ⟨rfl, rfl, -⟩ | ⟨rfl, rfl, -⟩ | ⟨rfl, rfl, -⟩ <;>
    exact ⟨clean_of_all rfl, clean_of_all rfl⟩

/-! ## Nothing is lost -/

/-- The file is the table of the values, and of nothing else. A CSV text has one header and, for each
benchmark with values, one row for each repetition, with the value or `NA` below each metric. In a JSON
tree a benchmark has the repetitions that some metric of it has, and each of them the values. -/
def Content.Shows (values : String → String → List Int) : Content → Prop
  | .csv text =>
      ∃ (benchmarks columns : List String) (start : Int) (n : Nat),
        benchmarks.Nodup ∧ (∀ b, b ∈ benchmarks ↔ ∃ m, values b m ≠ []) ∧
        columns.Nodup ∧ (∀ m, m ∈ columns ↔ ∃ b, values b m ≠ []) ∧
        (∀ b m, values b m ≠ [] → (values b m).length = n) ∧
        text.toList = (csvHeader columns ::
          benchmarks.flatMap fun b => (List.range n).map (tableRow values columns start b)).flatMap
            fun row => (line row).toList
  | .json tree =>
      (∀ b i, i < (tree.repetitionsOf b).length ↔ ∃ m, i < (values b m).length) ∧
        ∀ b i m, tree.metricOf b i m = (values b m)[i]?.map .number

theorem length_repetitionsOf_jsonTree {writer : ResultWriter} {n : Nat}
    (filled : Filled writer.resultsByBenchmarkName) (repeated : Repetitions writer n) (jvm : Jvm)
    (normalTermination : Bool) (b : String) (i : Nat) :
    i < ((jsonTree writer jvm normalTermination n).repetitionsOf b).length ↔
      ∃ m, i < (writer.values b m).length := by
  rw [repetitionsOf_jsonTree]
  constructor
  · intro less
    split at less
    · rename_i mem
      obtain ⟨m, held⟩ := (mem_keys_iff filled b).mp mem
      rw [List.length_map, List.length_range] at less
      exact ⟨m, by rwa [repeated b m held]⟩
    · cases less
  · rintro ⟨m, less⟩
    have held : writer.values b m ≠ [] := List.ne_nil_of_length_pos (Nat.zero_lt_of_lt less)
    rw [if_pos ((mem_keys_iff filled b).mpr ⟨m, held⟩), List.length_map, List.length_range,
      ← repeated b m held]
    exact less

/-- If the sanity check passes then `store` succeeds, and what it writes is the table of the values held. -/
theorem store_shows {writer : ResultWriter} (filled : Filled writer.resultsByBenchmarkName)
    (consistent : checkBenchmarkResults writer.resultsByBenchmarkName = none) (jvm : Jvm)
    (normalTermination : Bool) :
    ∃ content, writer.store jvm normalTermination = .ok content ∧ content.Shows writer.values := by
  obtain ⟨n, repeated⟩ := exists_repetitions filled consistent
  cases kind : writer.kind with
  | csv =>
      obtain ⟨text, stored, written⟩ := csv_store filled repeated jvm
      refine ⟨.csv text, ?_, writer.getBenchmarkNames jvm.order, writer.getMetricNames, jvm.startTime, n,
        nodup_getBenchmarkNames jvm.order, fun b => ?_, nodup_getMetricNames, mem_getMetricNames filled,
        repeated, written⟩
      · simp only [ResultWriter.store, kind, stored]
        rfl
      · rw [← mem_keys_iff filled b]
        exact jvm.order.mem_arrange
  | json =>
      refine ⟨.json (jsonTree writer jvm normalTermination n), ?_,
        length_repetitionsOf_jsonTree filled repeated jvm normalTermination, fun b i m => ?_⟩
      · simp only [ResultWriter.store, kind, json_store filled repeated]
        rfl
      · by_cases inside : i < ((jsonTree writer jvm normalTermination n).repetitionsOf b).length
        · have keys := inside
          rw [repetitionsOf_jsonTree] at keys
          split at keys
          · rename_i mem
            rw [List.length_map, List.length_range] at keys
            exact metricOf_jsonTree filled mem keys m
          · cases keys
        · have none := inside
          rw [length_repetitionsOf_jsonTree filled repeated, not_exists] at none
          rw [JsValue.metricOf, List.getElem?_eq_none (Nat.le_of_not_lt inside),
            List.getElem?_eq_none (Nat.le_of_not_lt (none m))]
          rfl

/-! ## Benchmarks that failed -/

namespace JsValue

/-- The benchmark is named in the list of benchmarks. -/
def lists (tree : JsValue) (b : String) : Prop :=
  ∃ names, (tree.field? "benchmarks").bind elements? = some names ∧ .string b ∈ names

/-- The termination field of the benchmark's entry. -/
def terminationOf (tree : JsValue) (b : String) : Option JsValue :=
  (tree.entryOf b).bind (field? "termination")

end JsValue

/-- Every benchmark that `ns` tells about is listed and has an entry, which says whether the benchmark
failed. -/
def Accounts (ns : List Notification) (tree : JsValue) : Prop :=
  ∀ b, ((∃ m, recorded ns b m ≠ []) ∨ b ∈ failures ns) →
    tree.lists b ∧ tree.terminationOf b =
      some (.string (if b ∈ failures ns then "failure" else "normal"))

section Accounting

variable {ns : List Notification} {jvm : Jvm} {normalTermination : Bool} {n : Nat}

theorem lists_jsonTree (b : String) :
    (jsonTree (collect .json ns) jvm normalTermination n).lists b ↔ ∃ m, recorded ns b m ≠ [] := by
  have names : ((jsonTree (collect .json ns) jvm normalTermination n).field? "benchmarks").bind
      JsValue.elements? = some (((collect .json ns).getBenchmarkNames jvm.order).map .string) := rfl
  rw [JsValue.lists, names]
  simp [getBenchmarkNames, mem_keys_iff filled_collect]

theorem terminationOf_jsonTree {b : String} (reported : ∃ m, recorded ns b m ≠ []) :
    (jsonTree (collect .json ns) jvm normalTermination n).terminationOf b =
      some (.string (if b ∈ failures ns then "failure" else "normal")) := by
  have mem : b ∈ (collect .json ns).resultsByBenchmarkName.keys := by
    simpa [mem_keys_iff filled_collect] using reported
  rw [JsValue.terminationOf, entryOf_jsonTree, if_pos mem]
  simp only [jsonEntry, failed_collect]
  rfl

/-- What is stored accounts for every benchmark exactly if each failed benchmark has reported a
result. -/
theorem accounts_jsonTree :
    Accounts ns (jsonTree (collect .json ns) jvm normalTermination n) ↔
      ∀ b ∈ failures ns, ∃ m, recorded ns b m ≠ [] := by
  constructor
  · intro accounts b failed
    exact (lists_jsonTree b).mp (accounts b (.inr failed)).1
  · intro reported b told
    have some : ∃ m, recorded ns b m ≠ [] := told.elim id (reported b)
    exact ⟨(lists_jsonTree b).mpr some, terminationOf_jsonTree some⟩

end Accounting

end Renaissance
