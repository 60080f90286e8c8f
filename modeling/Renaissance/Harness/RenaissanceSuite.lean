import Renaissance.Harness.ExecutionDriver

/-!
# Running the selected benchmarks

`RenaissanceSuite.runBenchmarks`: attempt every benchmark, collect those that fail, and tell the
listeners.
-/

namespace Renaissance

open Traced

/-- What the harness uses of a benchmark descriptor. -/
structure BenchmarkDescriptor where
  name : String
  repetitions : Int
deriving DecidableEq, Repr

/-- The lines printed for a benchmark whose execution threw. -/
def reportFailure {π : Type} (benchmarkName : String) (cause : Throwable) : Action π Unit :=
  if cause.isValidation then
    emit (.stderr
      ("Benchmark '" ++ benchmarkName ++ "' failed result validation:\n" ++ cause.message))
  else do
    emit (.stderr ("Benchmark '" ++ benchmarkName ++ "' failed with exception:"))
    emit (.stackTrace cause)

namespace Harness

variable {π : Type} (h : Harness π)

/-- `ExecutionDriver.create` loads the benchmark. -/
def create (benchmarkName : String) : Action π Unit :=
  invoke (.create benchmarkName) (external (h.env.create benchmarkName))

/-- The inner `try`: execute a loaded benchmark, with the list of failed benchmarks so far. -/
def executeLoaded (fuel : Nat) (failedBenchmarks : List BenchmarkDescriptor)
    (descriptor : BenchmarkDescriptor) : Action π (List BenchmarkDescriptor) := do
  match ← attempt (invoke (.executeBenchmark descriptor.name)
      (h.executeBenchmark fuel descriptor.name)) with
  | .ok () => pure failedBenchmarks
  | .error cause =>
      h.notifyOnBenchmarkFailure descriptor.name
      reportFailure descriptor.name cause
      pure (failedBenchmarks ++ [descriptor])

/-- One iteration of the loop over the benchmarks. The outer `catch` also sees what a failure
listener throws. -/
def runBenchmark (fuel : Nat) (failedBenchmarks : List BenchmarkDescriptor)
    (descriptor : BenchmarkDescriptor) : Action π (List BenchmarkDescriptor) := do
  match ← attempt (do
      h.create descriptor.name
      h.executeLoaded fuel failedBenchmarks descriptor) with
  | .ok failedBenchmarks => pure failedBenchmarks
  | .error cause =>
      emit (.stderr
        ("Failed to load benchmark '" ++ descriptor.name ++ "': " ++ cause.message))
      pure (failedBenchmarks ++ [descriptor])

def runEach (fuel : Nat) (failedBenchmarks : List BenchmarkDescriptor) :
    List BenchmarkDescriptor → Action π (List BenchmarkDescriptor)
  | [] => pure failedBenchmarks
  | descriptor :: benchmarks => do
      let failedBenchmarks ← h.runBenchmark fuel failedBenchmarks descriptor
      runEach fuel failedBenchmarks benchmarks

def runBenchmarks (fuel : Nat) (benchmarks : List BenchmarkDescriptor) :
    Action π (List BenchmarkDescriptor) := do
  h.notifyAfterHarnessInit
  let failedBenchmarks ← h.runEach fuel [] benchmarks
  h.notifyBeforeHarnessShutdown
  pure failedBenchmarks

end Harness

end Renaissance
