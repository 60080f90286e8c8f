import Renaissance.Harness.WriterRuns

/-!
# What is stored, over whole runs

A result writer that starts empty holds, at every point of a run, what was delivered to it up to that
point. It stores its results at the shutdown, or earlier in its shutdown hook if the virtual machine
is forced to terminate. The hook runs in a thread of its own and finds the writer as the deliveries
have left it.

Results:
1. `hook_stores_iff`: when the shutdown hook stores everything reported so far.
2. `written_accounts_iff`: when a stored JSON tree accounts for every benchmark.
-/

namespace Renaissance

open Traced ResultWriter

variable {π : Type}

/-! ## A writer that starts empty -/

section Fresh

variable {h : Harness π} {w : World π} {k : Nat} {kind : WriterKind}
  (fresh : w.writers[k]? = some { kind })
include fresh

/-- At the end of a run the writer holds what was delivered to it. -/
theorem writer_runBenchmarks (fuel : Nat) (benchmarks : List BenchmarkDescriptor) :
    (h.runBenchmarks fuel benchmarks w).state.writers[k]? =
      some (collect kind (deliveredTo k (h.runBenchmarks fuel benchmarks w).trace)) := by
  rw [(replays_runBenchmarks h k fuel benchmarks w).1, fresh, Option.map_some, foldl_hear, collect]

theorem storesAt_runBenchmarks {fuel : Nat} {benchmarks : List BenchmarkDescriptor}
    {before after : List Event} {e : Event}
    (split : (h.runBenchmarks fuel benchmarks w).trace = before ++ e :: after) :
    StoresAt h.env.jvm k (collect kind (deliveredTo k before)) e after := by
  have stores := (replays_runBenchmarks h k fuel benchmarks w).2 _ fresh
  rw [split] at stores
  have here := stores_split stores
  rwa [foldl_hear] at here

end Fresh

theorem storeDecision_eq_store_iff {writer : ResultWriter} {normal normal' : Bool} :
    writer.storeDecision normal = .store normal' ↔
      checkBenchmarkResults writer.resultsByBenchmarkName = none ∧ normal = normal' := by
  unfold storeDecision
  split
  · rename_i failed
    simp [failed]
  · rename_i passed
    simp [passed]

/-! ## Forced termination -/

/-- The shutdown hook of the writer at position `k`, started in the world `w`, stores its results, and
the file is the table of the values that `ns` reports. -/
def Flushes (env : Env π) (k : Nat) (w : World π) (ns : List Notification) : Prop :=
  ∃ content, storeResults env k false w =
      ⟨.ret (), [.call (.store k false), .written k content, .returned (.store k false)], w⟩ ∧
    content.Shows (recorded ns)

theorem storeResults_hook (env : Env π) {k : Nat} {w : World π} {writer : ResultWriter}
    (found : w.writers[k]? = some writer) :
    storeResults env k false w =
      match checkBenchmarkResults writer.resultsByBenchmarkName with
      | some message =>
          ⟨.stopped (.exit 1),
            [.stderr ("error: benchmark results failed sanity check: " ++ message)], w⟩
      | none =>
          match writer.store env.jvm false with
          | .ok content =>
              ⟨.ret (), [.call (.store k false), .written k content, .returned (.store k false)], w⟩
          | .error cause =>
              ⟨.thrown cause, [.call (.store k false), .threw (.store k false)], w⟩ := by
  cases check : checkBenchmarkResults writer.resultsByBenchmarkName with
  | some message =>
      simp [storeResults, getWriter, bind_apply, Run.andThen, found, storeDecision, check]
  | none =>
      cases stored : writer.store env.jvm false <;>
        simp [storeResults, getWriter, bind_apply, Run.andThen, found, storeDecision, check, stored,
          invoke_run, fromExcept, ending]

theorem checkBenchmarkResults_collect (kind : WriterKind) (ns : List Notification) :
    checkBenchmarkResults (collect kind ns).resultsByBenchmarkName = none ↔
      ∀ b m b' m', recorded ns b m ≠ [] → recorded ns b' m' ≠ [] →
        (recorded ns b m).length = (recorded ns b' m').length := by
  simpa using checkBenchmarkResults_iff (@filled_collect kind ns)

theorem storeResults_consistent (env : Env π) {k : Nat} {w : World π} {kind : WriterKind}
    {ns : List Notification} (found : w.writers[k]? = some (collect kind ns))
    (consistent : checkBenchmarkResults (collect kind ns).resultsByBenchmarkName = none) :
    ∃ content, (collect kind ns).store env.jvm false = .ok content ∧
      storeResults env k false w =
        ⟨.ret (), [.call (.store k false), .written k content, .returned (.store k false)], w⟩ ∧
      content.Shows (recorded ns) := by
  obtain ⟨content, stored, shows⟩ := store_shows filled_collect consistent env.jvm false
  have values : (collect kind ns).values = recorded ns :=
    funext fun b => funext fun m => values_collect b m
  refine ⟨content, stored, ?_, values ▸ shows⟩
  rw [storeResults_hook env found, consistent, stored]

/-- Whenever the virtual machine is forced to terminate, the shutdown hook of a writer stores all that
was reported so far exactly if any two metrics, of any two benchmarks, have been reported equally
often. -/
theorem hook_stores_iff (h : Harness π) (fuel : Nat) (benchmarks : List BenchmarkDescriptor)
    (w : World π) (k : Nat) (kind : WriterKind) (fresh : w.writers[k]? = some { kind }) :
    let run := h.runBenchmarks fuel benchmarks w
    run.state.writers[k]? = some (collect kind (deliveredTo k run.trace)) ∧
    ∀ before, before <+: run.trace →
      ∀ w' : World π, w'.writers[k]? = some (collect kind (deliveredTo k before)) →
        (Flushes h.env k w' (deliveredTo k before) ↔
          ∀ b m b' m', recorded (deliveredTo k before) b m ≠ [] →
            recorded (deliveredTo k before) b' m' ≠ [] →
            (recorded (deliveredTo k before) b m).length =
              (recorded (deliveredTo k before) b' m').length) := by
  refine ⟨writer_runBenchmarks fresh fuel benchmarks, fun before _ w' found => ?_⟩
  rw [← checkBenchmarkResults_collect kind]
  constructor
  · rintro ⟨content, stored, -⟩
    rw [storeResults_hook h.env found] at stored
    split at stored
    · cases congrArg Run.outcome stored
    · assumption
  · intro consistent
    obtain ⟨content, -, stored, shows⟩ := storeResults_consistent h.env found consistent
    exact ⟨content, stored, shows⟩

/-- The built-in operation count and one result writer. -/
def countingHarness : Harness Unit where
  env := .calm 0
  dispatcher := createEventDispatcher Listener.isInstance [.plugin (.builtinPolicy .fixedOpCount)]
    [.writer 0]
  policy := .builtin
  vmStartNanos := 0

def countingWorld (kind : WriterKind) (countLimitProvider : String → Int) : World Unit where
  env := ()
  policy := .fixedOpCount { countLimitProvider }
  writers := [{ kind }]

/-- Two operations of one benchmark. -/
def twoOperations : Run (World Unit) Event Throwable (List BenchmarkDescriptor) :=
  countingHarness.runBenchmarks 3 [⟨"b", 2⟩] (countingWorld .csv fun _ => 2)

set_option maxRecDepth 2000 in
/-- After the first operation the hook stores it. -/
theorem hook_stores_first_operation :
    Flushes countingHarness.env 0
      { countingWorld .csv (fun _ => 2) with
        writers := [collect .csv
          [.onMeasurementResult "b" "uptime_ns" 0, .onMeasurementResult "b" "duration_ns" 1]] }
      [.onMeasurementResult "b" "uptime_ns" 0, .onMeasurementResult "b" "duration_ns" 1] := by
  have told : deliveredTo 0 (twoOperations.trace.take 40) =
      [.onMeasurementResult "b" "uptime_ns" 0, .onMeasurementResult "b" "duration_ns" 1] := rfl
  rw [← told]
  refine ((hook_stores_iff countingHarness 3 [⟨"b", 2⟩] (countingWorld .csv fun _ => 2) 0 .csv rfl).2
    (twoOperations.trace.take 40) (List.take_prefix _ _) _ rfl).mpr ?_
  rw [← checkBenchmarkResults_collect .csv, told]
  decide

set_option maxRecDepth 2000 in
/-- Between the two measurements of the second operation the shutdown hook exits, and the results of
the first operation are lost. -/
theorem hook_exits :
    ∃ before, before <+: twoOperations.trace ∧
      deliveredTo 0 before = [.onMeasurementResult "b" "uptime_ns" 0,
        .onMeasurementResult "b" "duration_ns" 1, .onMeasurementResult "b" "uptime_ns" 2] ∧
      ∀ w' : World Unit, w'.writers[0]? = some (collect .csv (deliveredTo 0 before)) →
        (storeResults countingHarness.env 0 false w').outcome = .stopped (.exit 1) ∧
          ¬ Flushes countingHarness.env 0 w' (deliveredTo 0 before) := by
  refine ⟨twoOperations.trace.take 62, List.take_prefix _ _, rfl, fun w' found => ?_⟩
  have exits : (storeResults countingHarness.env 0 false w').outcome = .stopped (.exit 1) := by
    rw [storeResults_hook _ found]
    rfl
  refine ⟨exits, ?_⟩
  rintro ⟨content, stored, -⟩
  rw [stored] at exits
  cases exits

/-! ## Benchmarks that a stored tree accounts for -/

/-- The writer at position `k` of a run stores `content` when it has been told `ns`: at the shutdown,
or in its shutdown hook at some point before. -/
inductive Stored (env : Env π) (k : Nat) (kind : WriterKind) (trace : List Event) :
    List Notification → Content → Prop where
  | atShutdown {before after : List Event} {content : Content} :
      trace = before ++ .written k content :: after →
      Stored env k kind trace (deliveredTo k before) content
  | inHook {before : List Event} {content : Content} {w : World π} :
      before <+: trace → w.writers[k]? = some (collect kind (deliveredTo k before)) →
      .written k content ∈ (storeResults env k false w).trace →
      Stored env k kind trace (deliveredTo k before) content

/-- Only results that pass the sanity check are stored, and they are those the writer was told. -/
theorem Stored.consistent {h : Harness π} {fuel : Nat} {benchmarks : List BenchmarkDescriptor}
    {w : World π} {k : Nat} {kind : WriterKind} (fresh : w.writers[k]? = some { kind })
    {ns : List Notification} {content : Content}
    (stored : Stored h.env k kind (h.runBenchmarks fuel benchmarks w).trace ns content) :
    checkBenchmarkResults (collect kind ns).resultsByBenchmarkName = none ∧
      ∃ normal, (collect kind ns).store h.env.jvm normal = .ok content := by
  cases stored with
  | atShutdown split =>
      obtain ⟨decision, written⟩ := (storesAt_runBenchmarks fresh split).written _ rfl
      exact ⟨(storeDecision_eq_store_iff.mp decision).1, true, written⟩
  | inHook _ found written =>
      rw [storeResults_hook h.env found] at written
      split at written
      · simp at written
      · rename_i passed
        refine ⟨passed, false, ?_⟩
        split at written
        · rename_i stored
          obtain rfl : content = _ := by simpa using written
          exact stored
        · simp at written

/-- A writer whose results pass the sanity check at the shutdown stores them. -/
theorem stored_of_shutdown {h : Harness π} {fuel : Nat} {benchmarks : List BenchmarkDescriptor}
    {w : World π} {k : Nat} {kind : WriterKind} (fresh : w.writers[k]? = some { kind })
    {before after : List Event} (split : (h.runBenchmarks fuel benchmarks w).trace =
      before ++ .call (.deliver (.writer k) .beforeHarnessShutdown) :: after)
    (consistent :
      checkBenchmarkResults (collect kind (deliveredTo k before)).resultsByBenchmarkName = none) :
    ∃ content, (collect kind (deliveredTo k before)).store h.env.jvm true = .ok content ∧
      [.call (.store k true), .written k content] <+: after := by
  obtain ⟨content, stored, -⟩ := store_shows filled_collect consistent h.env.jvm true
  have decision : (collect kind (deliveredTo k before)).storeDecision true = .store true :=
    storeDecision_eq_store_iff.mpr ⟨consistent, rfl⟩
  have next := (storesAt_runBenchmarks fresh split).shutdown rfl
  simp only [shutdownEvents, decision, stored] at next
  exact ⟨content, stored, next⟩

/-- A stored JSON tree accounts for every benchmark that the writer was told about exactly if every
benchmark that failed had reported a result before. -/
theorem written_accounts_iff (h : Harness π) (fuel : Nat) (benchmarks : List BenchmarkDescriptor)
    (w : World π) (k : Nat) (fresh : w.writers[k]? = some { kind := .json })
    (ns : List Notification) (tree : JsValue)
    (stored : Stored h.env k .json (h.runBenchmarks fuel benchmarks w).trace ns (.json tree)) :
    Accounts ns tree ↔ ∀ b ∈ failures ns, ∃ m, recorded ns b m ≠ [] := by
  obtain ⟨consistent, normal, written⟩ := stored.consistent fresh
  obtain ⟨n, repeated⟩ := exists_repetitions filled_collect consistent
  rw [ResultWriter.store, kind_collect] at written
  simp only [json_store filled_collect repeated] at written
  cases written
  exact accounts_jsonTree

/-- The benchmark "early" throws before its first operation, the benchmark "late" after its last. -/
def failingHarness : Harness Unit :=
  { countingHarness with
    env := { Env.calm 0 with
      benchmark := fun method b s =>
        (if (b = "early" ∧ method = .setUpBeforeAll) ∨ (b = "late" ∧ method = .tearDownAfterAll) then
            .error { simpleName := "RuntimeException", message := "", isValidation := false }
          else .ok (), s) } }

def failingRun (benchmarks : List BenchmarkDescriptor) :
    Run (World Unit) Event Throwable (List BenchmarkDescriptor) :=
  failingHarness.runBenchmarks 3 benchmarks (countingWorld .json fun _ => 1)

def lateNotifications : List Notification :=
  [.onMeasurementResult "late" "uptime_ns" 0, .onMeasurementResult "late" "duration_ns" 1,
    .onBenchmarkFailure "late", .beforeHarnessShutdown]

set_option maxRecDepth 2000 in
theorem written_accounts_for_late :
    Accounts lateNotifications (jsonTree (collect .json lateNotifications) .plain true 1) := by
  have split : (failingRun [⟨"late", 1⟩]).trace =
      (failingRun [⟨"late", 1⟩]).trace.take 59 ++
        .written 0 (.json (jsonTree (collect .json lateNotifications) .plain true 1)) ::
          (failingRun [⟨"late", 1⟩]).trace.drop 60 := rfl
  refine (written_accounts_iff failingHarness 3 [⟨"late", 1⟩] (countingWorld .json fun _ => 1) 0 rfl
    lateNotifications _ (.atShutdown split)).mpr ?_
  intro b failed
  obtain rfl : b = "late" := List.mem_singleton.mp failed
  exact ⟨"uptime_ns", by decide⟩

set_option maxRecDepth 2000 in
/-- A benchmark that fails before its first result is missing from the tree. -/
theorem written_without_early :
    ∃ ns tree, Stored failingHarness.env 0 .json (failingRun [⟨"early", 1⟩, ⟨"late", 1⟩]).trace ns
        (.json tree) ∧ "early" ∈ failures ns ∧ ¬ Accounts ns tree := by
  let ns : List Notification := .onBenchmarkFailure "early" :: lateNotifications
  have split : (failingRun [⟨"early", 1⟩, ⟨"late", 1⟩]).trace =
      (failingRun [⟨"early", 1⟩, ⟨"late", 1⟩]).trace.take 75 ++
        .written 0 (.json (jsonTree (collect .json ns) .plain true 1)) ::
          (failingRun [⟨"early", 1⟩, ⟨"late", 1⟩]).trace.drop 76 := rfl
  refine ⟨ns, _, .atShutdown split, by decide, ?_⟩
  rw [accounts_jsonTree]
  intro all
  obtain ⟨m, reported⟩ := all "early" (by decide)
  exact reported rfl

end Renaissance
