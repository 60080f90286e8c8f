import Mathlib.Data.List.AList
import Mathlib.Data.Finset.Insert
import Renaissance.Lib.JavaCollections
import Renaissance.Harness.Plugin

/-!
# The result writers

`ResultWriter` collects the measurement results of every benchmark and the names of the benchmarks
that failed; `CsvWriter` and `JsonWriter` turn what was collected into a file. A hash map is an
`AList`, and where the source enumerates one the order is a parameter.
-/

namespace Renaissance

open JavaCollections

/-- `Map[String, Buffer[Long]]`: the values of each metric, in the order they were reported. -/
abbrev MetricsByName := AList fun _ : String => List Int

/-- `Map[String, Map[String, Buffer[Long]]]`. -/
abbrev ResultsByBenchmarkName := AList fun _ : String => MetricsByName

/-- The values of `spray.json`. The fields of an object are in no particular order. -/
inductive JsValue where
  | null
  | boolean (value : Bool)
  | number (value : Int)
  | string (value : String)
  | array (elements : List JsValue)
  | object (fields : List (String × JsValue))

/-- The field of an object. -/
def JsValue.field? (name : String) : JsValue → Option JsValue
  | .object fields => fields.lookup name
  | _ => none

/-- The elements of an array. -/
def JsValue.elements? : JsValue → Option (List JsValue)
  | .array elements => some elements
  | _ => none

/-- What the writers read from the running virtual machine: the start time in milliseconds, the
environment and suite information, and the order in which its hash maps enumerate names. -/
structure Jvm where
  startTime : Int
  environment : Bool → JsValue
  suite : JsValue
  order : IterationOrder String

/-- A virtual machine that tells nothing about itself. -/
def Jvm.plain : Jvm where
  startTime := 0
  environment _ := .null
  suite := .null
  order := .insertion String

inductive WriterKind where
  | csv | json
deriving DecidableEq, Repr

inductive Content where
  | csv (text : String)
  | json (value : JsValue)

structure ResultWriter where
  kind : WriterKind
  storeHook : Bool := true
  resultsByBenchmarkName : ResultsByBenchmarkName := ∅
  failedBenchmarkNames : Finset String := ∅

/-- One element of `getBenchmarkResults`. -/
structure BenchmarkResults where
  benchName : String
  benchFailed : Bool
  metricsByName : MetricsByName
  repetitionCount : Nat

def noSuchElement (key : String) : Throwable where
  simpleName := "NoSuchElementException"
  message := "key not found: " ++ key
  isValidation := false

def emptyMax : Throwable where
  simpleName := "UnsupportedOperationException"
  message := "empty.max"
  isValidation := false

def indexOutOfBounds (index : Nat) : Throwable where
  simpleName := "IndexOutOfBoundsException"
  message := toString index
  isValidation := false

/-- `values(i)`. -/
def valueAt (values : List Int) (i : Nat) : Except Throwable Int :=
  match values[i]? with
  | some value => .ok value
  | none => .error (indexOutOfBounds i)

/-- `sizes.max`. -/
def maximum (sizes : List Nat) : Except Throwable Nat :=
  match sizes.max? with
  | some size => .ok size
  | none => .error emptyMax

namespace ResultWriter

def onMeasurementResult (writer : ResultWriter) (benchmark metric : String) (value : Int) :
    ResultWriter :=
  let metricsByName := (writer.resultsByBenchmarkName.lookup benchmark).getD ∅
  let metricValues := (metricsByName.lookup metric).getD []
  { writer with
    resultsByBenchmarkName :=
      writer.resultsByBenchmarkName.insert benchmark
        (metricsByName.insert metric (metricValues ++ [value])) }

def onBenchmarkFailure (writer : ResultWriter) (benchmarkName : String) : ResultWriter :=
  { writer with failedBenchmarkNames := insert benchmarkName writer.failedBenchmarkNames }

/-- The number of values of every metric of every benchmark. -/
def sizes (results : ResultsByBenchmarkName) : List Nat :=
  results.entries.flatMap fun benchmark => benchmark.2.entries.map fun metric => metric.2.length

/-- All sizes are compared with the first one, across benchmarks. -/
def checkBenchmarkResults (results : ResultsByBenchmarkName) : Option String :=
  match sizes results with
  | [] => none
  | head :: tail =>
      if (head :: tail).any (· != head) then
        some "inconsistent number of measurements (check plugin configuration)"
      else none

def getBenchmarkNames (order : IterationOrder String) (writer : ResultWriter) : List String :=
  order.arrange writer.resultsByBenchmarkName.keys

/-- The names are sorted, so it does not matter which occurrence of a name `distinct` keeps. -/
def getMetricNames (writer : ResultWriter) : List String :=
  sorted (writer.resultsByBenchmarkName.entries.flatMap fun benchmark => benchmark.2.keys).dedup

def benchmarkResults (writer : ResultWriter) (benchName : String) :
    Except Throwable BenchmarkResults :=
  match writer.resultsByBenchmarkName.lookup benchName with
  | none => .error (noSuchElement benchName)
  | some metricsByName => do
      let repetitionCount ← maximum (metricsByName.entries.map fun metric => metric.2.length)
      pure {
        benchName
        benchFailed := benchName ∈ writer.failedBenchmarkNames
        metricsByName
        repetitionCount }

def getBenchmarkResults (order : IterationOrder String) (writer : ResultWriter) :
    Except Throwable (List BenchmarkResults) :=
  (writer.getBenchmarkNames order).mapM writer.benchmarkResults

end ResultWriter

namespace CsvWriter

open ResultWriter

def formatHeader (metricNames : List String) (csv : String) : String :=
  csv ++ "benchmark," ++ ",".intercalate metricNames ++ ",vm_start_unix_ms\n"

/-- The cell of one metric in the `i`-th row of a benchmark. -/
def stringValue (metricsByName : MetricsByName) (i : Nat) (metricName : String) :
    Except Throwable String :=
  match metricsByName.lookup metricName with
  | some values => do
      let value ← valueAt values i
      pure (toString value)
  | none => pure "NA"

def formatRow (vmStartTime : Int) (metricNames : List String) (result : BenchmarkResults)
    (csv : String) (i : Nat) : Except Throwable String := do
  let csv ← metricNames.foldlM
    (fun csv metricName => do
      let value ← stringValue result.metricsByName i metricName
      pure (csv ++ "," ++ value))
    (csv ++ result.benchName)
  pure (csv ++ "," ++ toString vmStartTime ++ "\n")

def formatResults (jvm : Jvm) (writer : ResultWriter) (metricNames : List String) (csv : String) :
    Except Throwable String := do
  let results ← writer.getBenchmarkResults jvm.order
  results.foldlM
    (fun csv result =>
      (List.range result.repetitionCount).foldlM (formatRow jvm.startTime metricNames result) csv)
    csv

def store (jvm : Jvm) (writer : ResultWriter) : Except Throwable String :=
  let columns := writer.getMetricNames
  formatResults jvm writer columns (formatHeader columns "")

end CsvWriter

namespace JsonWriter

open ResultWriter

/-- `name -> values(i).toJson`, if the benchmark reported the metric. -/
def field (metricsByName : MetricsByName) (i : Nat) (name : String) :
    Except Throwable (Option (String × JsValue)) :=
  match metricsByName.lookup name with
  | some values => do
      let value ← valueAt values i
      pure (some (name, .number value))
  | none => pure none

/-- The metrics of the `i`-th repetition that the benchmark reported. -/
def repetition (metricNames : List String) (metricsByName : MetricsByName) (i : Nat) :
    Except Throwable (List (String × JsValue)) := do
  let fields ← metricNames.mapM (field metricsByName i)
  pure fields.reduceOption

def benchmarkTree (metricNames : List String) (result : BenchmarkResults) :
    Except Throwable JsValue := do
  let repetitions ← (List.range result.repetitionCount).mapM
    (repetition metricNames result.metricsByName)
  pure (.object [
    ("results", .array (repetitions.map .object)),
    ("termination", .string (if result.benchFailed then "failure" else "normal"))])

/-- `dataTree` maps each benchmark name to its tree. The names are distinct. -/
def getResultData (jvm : Jvm) (writer : ResultWriter) :
    Except Throwable (List (String × JsValue)) := do
  let results ← writer.getBenchmarkResults jvm.order
  results.mapM fun result => do
    let tree ← benchmarkTree writer.getMetricNames result
    pure (result.benchName, tree)

def store (jvm : Jvm) (normalTermination : Bool) (writer : ResultWriter) :
    Except Throwable JsValue := do
  let data ← getResultData jvm writer
  pure (.object [
    ("format_version", .number 5),
    ("benchmarks", .array ((writer.getBenchmarkNames jvm.order).map .string)),
    ("environment", jvm.environment normalTermination),
    ("suite", jvm.suite),
    ("data", .object data)])

end JsonWriter

/-- The `store` method of the writer's class. -/
def ResultWriter.store (jvm : Jvm) (normalTermination : Bool) (writer : ResultWriter) :
    Except Throwable Content :=
  match writer.kind with
  | .csv => Content.csv <$> CsvWriter.store jvm writer
  | .json => Content.json <$> JsonWriter.store jvm normalTermination writer

/-- What `storeResults` does with the collected results, once it has removed the shutdown hook. -/
inductive StoreDecision where
  | exit (message : String)
  | store (normalTermination : Bool)
deriving DecidableEq, Repr

def ResultWriter.storeDecision (normalTermination : Bool) (writer : ResultWriter) : StoreDecision :=
  match checkBenchmarkResults writer.resultsByBenchmarkName with
  | some message => .exit ("error: benchmark results failed sanity check: " ++ message)
  | none => .store normalTermination

end Renaissance
