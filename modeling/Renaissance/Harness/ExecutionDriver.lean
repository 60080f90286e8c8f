import Renaissance.Lib.JavaFormat
import Renaissance.Harness.Notify

/-!
# The execution driver

`ExecutionDriver.executeBenchmark`: three nested pairs of opening and closing calls around the loop
that executes the measured operation. The loop has a fuel argument; a run that uses it up is still
going on, and none of the `finally` blocks around it is reached. The lines that the driver prints have
the names of the benchmark, its group and the configuration in their format strings.

Result: `isPrintable_of_plain`, names without percent signs do not keep a line from being printed.
-/

namespace Renaissance

open Traced JavaInt

/-- The benchmark that a line is about. -/
def Line.benchmark : Line → String
  | .started benchmark _ | .completed benchmark .. | .failed benchmark .. => benchmark

namespace Harness

variable {π : Type} (h : Harness π)

def callBenchmark (method : BenchmarkMethod) (benchmarkName : String) : Action π Unit :=
  invoke (.benchmark method benchmarkName) (external (h.env.benchmark method benchmarkName))

def validate (operation : Operation) : Action π Unit :=
  invoke (.validate operation) (external (h.env.validate operation))

def canExecute (benchmarkName : String) (opIndex : Int) : Action π Bool :=
  query (.canExecute benchmarkName opIndex)
    (match h.policy with
    | .builtin => step fun w => (w.policy.canExecute opIndex, w)
    | .external p => external (h.env.canExecute p benchmarkName opIndex))

def isLast (benchmarkName : String) (opIndex : Int) : Action π Bool :=
  query (.isLast benchmarkName opIndex)
    (match h.policy with
    | .builtin => step fun w => (w.policy.isLast opIndex, w)
    | .external p => external (h.env.isLast p benchmarkName opIndex))

def executeOperation (benchmarkName : String) (index : Int) : Action π Int := do
  h.callBenchmark .setUpBeforeEach benchmarkName
  let isLastOp ← h.isLast benchmarkName index
  h.notifyAfterOperationSetUp benchmarkName index isLastOp
  let startNanos ← nanoTime h.env
  h.callBenchmark .run benchmarkName
  let endNanos ← nanoTime h.env
  let durationNanos := long (endNanos - startNanos)
  h.notifyBeforeOperationTearDown benchmarkName index durationNanos
  h.callBenchmark .tearDownAfterEach benchmarkName
  h.validate { benchmark := benchmarkName, index, startNanos, durationNanos }
  let uptimeNanos := long (startNanos - h.vmStartNanos)
  h.notifyOnMeasurementResult benchmarkName "uptime_ns" uptimeNanos
  h.notifyOnMeasurementResult benchmarkName "duration_ns" durationNanos
  h.notifyOnMeasurementResultsRequested benchmarkName index
  pure durationNanos

/-- The beginning of each format string. The names are not arguments: they are put in before. -/
def linePrefix (benchmarkName : String) : String :=
  "====== " ++ benchmarkName ++ " (" ++ h.env.primaryGroup benchmarkName ++ ") [" ++
    h.env.configurationName ++ "], iteration"

def beforeEachFormat (benchmarkName : String) : String :=
  h.linePrefix benchmarkName ++ " %d started ======\n"

def afterSuccessFormat (benchmarkName : String) : String :=
  h.linePrefix benchmarkName ++ " %d completed (%.3f ms) ======\n"

def afterFailureFormat (benchmarkName : String) : String :=
  h.linePrefix benchmarkName ++ " %d failed (%s) ======\n"

def lineFormat : Line → String
  | .started benchmarkName _ => h.beforeEachFormat benchmarkName
  | .completed benchmarkName _ _ => h.afterSuccessFormat benchmarkName
  | .failed benchmarkName _ _ => h.afterFailureFormat benchmarkName

/-- The format string of a line can be used for its arguments. -/
def isPrintable : Line → Bool
  | .started benchmarkName index =>
      JavaFormat.accepts (h.beforeEachFormat benchmarkName) [.int index]
  | .completed benchmarkName index _ =>
      JavaFormat.accepts (h.afterSuccessFormat benchmarkName) [.int index, .double]
  | .failed benchmarkName index _ =>
      JavaFormat.accepts (h.afterFailureFormat benchmarkName) [.int index, .object]

/-- `System.out.printf`. -/
def printf (line : Line) : Action π Unit :=
  if h.isPrintable line then emit (.printed line)
  else do
    emit (.unprinted line)
    throw (h.env.illegalFormat (h.lineFormat line))

def printBeforeEachMessage (benchmarkName : String) (index : Int) : Action π Unit :=
  h.printf (.started benchmarkName index)

def printAfterSuccessMessage (benchmarkName : String) (index nanos : Int) : Action π Unit :=
  h.printf (.completed benchmarkName index nanos)

def printAfterFailureMessage (benchmarkName : String) (index : Int) (cause : String) : Action π Unit :=
  h.printf (.failed benchmarkName index cause)

/-- The condition and the body of the `while` loop; the answer is the condition. -/
def loopBody (benchmarkName : String) (operationIndex : Int) : Action π Bool := do
  if ← h.canExecute benchmarkName operationIndex then
    h.printBeforeEachMessage benchmarkName operationIndex
    let durationNanos ← h.executeOperation benchmarkName operationIndex
    h.printAfterSuccessMessage benchmarkName operationIndex durationNanos
    pure true
  else
    pure false

/-- The loop, with the value of `operationIndex` and the exception that the `catch` block around it
sees. `operationIndex` is a 32-bit integer. -/
def operationLoop (benchmarkName : String) :
    Nat → Int → Action π (Int × Except Throwable Unit)
  | 0, _ => stop .outOfFuel
  | fuel + 1, operationIndex => do
      match ← attempt (h.loopBody benchmarkName operationIndex) with
      | .error cause => pure (operationIndex, .error cause)
      | .ok false => pure (operationIndex, .ok ())
      | .ok true => operationLoop benchmarkName fuel (int (operationIndex + 1))

/-- The loop and its `catch` block. An exception of `printf` takes the place of the cause. -/
def executeOperations (fuel : Nat) (benchmarkName : String) : Action π Unit := do
  let (operationIndex, result) ← h.operationLoop benchmarkName fuel 0
  match result with
  | .ok () => pure ()
  | .error cause =>
      h.printAfterFailureMessage benchmarkName operationIndex cause.simpleName
      throw cause

def executeBenchmark (fuel : Nat) (benchmarkName : String) : Action π Unit := do
  h.notifyBeforeBenchmarkSetUp benchmarkName
  tryFinally
    (do
      h.callBenchmark .setUpBeforeAll benchmarkName
      tryFinally
        (do
          h.notifyAfterBenchmarkSetUp benchmarkName
          tryFinally
            (h.executeOperations fuel benchmarkName)
            -- Complements notifyAfterBenchmarkSetUp.
            (h.notifyBeforeBenchmarkTearDown benchmarkName))
        -- Complements setUpBeforeAll.
        (h.callBenchmark .tearDownAfterAll benchmarkName))
    -- Complements notifyBeforeBenchmarkSetUp.
    (h.notifyAfterBenchmarkTearDown benchmarkName)

/-! ## Lines that can be printed -/

/-- The names in the format strings of a benchmark have no percent signs. -/
structure PlainNames (benchmarkName : String) : Prop where
  benchmark : '%' ∉ benchmarkName.toList
  primaryGroup : '%' ∉ (h.env.primaryGroup benchmarkName).toList
  configuration : '%' ∉ h.env.configurationName.toList

variable {h}

theorem PlainNames.linePrefix {b : String} (plain : h.PlainNames b) :
    '%' ∉ (h.linePrefix b).toList := by
  simp [Harness.linePrefix, String.toList_append, plain.benchmark, plain.primaryGroup,
    plain.configuration]

theorem isPrintable_of_plain {line : Line} (plain : h.PlainNames line.benchmark) :
    h.isPrintable line = true := by
  cases line with
  | started b i => exact (JavaFormat.accepts_append plain.linePrefix _ _).trans rfl
  | completed b i nanos => exact (JavaFormat.accepts_append plain.linePrefix _ _).trans rfl
  | failed b i cause => exact (JavaFormat.accepts_append plain.linePrefix _ _).trans rfl

theorem printf_of_plain {line : Line} (plain : h.PlainNames line.benchmark) :
    h.printf line = emit (.printed line) := by
  rw [printf, isPrintable_of_plain plain, if_pos rfl]

end Harness

end Renaissance
