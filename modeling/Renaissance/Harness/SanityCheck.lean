import Mathlib.Data.List.TakeWhile
import Renaissance.Harness.ResultRuns

/-!
# The sanity check at the shutdown

`checkBenchmarkResults` compares the number of measurements of all metrics of all benchmarks. If every
operation that passed validation reports each metric of its benchmark once, then a metric was
reported as often as the benchmark executed a valid operation, so the check compares the number of
operations of different benchmarks.

Results:
1. `late_runBenchmarks`: no result reaches a writer before an operation has passed validation.
2. `length_recorded`: how often a metric was reported.
3. `shutdown_stores_iff`: when the results are stored at the shutdown.
-/

namespace Renaissance

open Traced ResultWriter

variable {π : Type}

/-- The benchmark of an operation that passed validation. -/
def Event.validated? : Event → Option String
  | .returned (.validate operation) => some operation.benchmark
  | _ => none

/-- The benchmarks of the operations that passed validation. -/
def validated (t : List Event) : List String :=
  t.filterMap Event.validated?

/-- For each operation that passed validation its benchmark and what the writer at position `k` was
told until the next one did. -/
def reportsByOperation (k : Nat) : List Event → List (String × List Notification)
  | [] => []
  | e :: t =>
      match e.validated? with
      | some b =>
          (b, deliveredTo k (t.takeWhile (·.validated?.isNone))) :: reportsByOperation k t
      | none => reportsByOperation k t

/-- Every operation that passed validation reported one value for each metric of its benchmark, and
nothing else. -/
def OneValuePerMetric (metricsOf : String → List String) (k : Nat) (t : List Event) : Prop :=
  ∀ report ∈ reportsByOperation k t, ∀ b m,
    (recorded report.2 b m).length = if b = report.1 ∧ m ∈ metricsOf b then 1 else 0

/-! ## Results follow a validation -/

/-- Every result delivered to the writer at position `k` comes after an operation that passed
validation. -/
def Late (k : Nat) (t : List Event) : Prop :=
  ∀ before after b m value,
    t = before ++ .call (.deliver (.writer k) (.onMeasurementResult b m value)) :: after →
      ∃ e ∈ before, e.validated?.isSome

theorem Late.of_start {k : Nat} {t t' : List Event} (late : Late k t') (start : t <+: t') :
    Late k t := by
  obtain ⟨rest, rfl⟩ := start
  rintro before after b m value rfl
  exact late before (after ++ rest) b m value (by simp)

theorem late_append {k : Nat} {t t' : List Event} (first : Late k t) (second : Late k t') :
    Late k (t ++ t') := by
  intro before after b m value split
  rcases List.append_eq_append_iff.mp split with ⟨middle, rfl, inSecond⟩ | ⟨middle, inFirst, rest⟩
  · obtain ⟨e, mem, valid⟩ := second middle after b m value inSecond
    exact ⟨e, by simp [mem], valid⟩
  · cases middle with
    | nil =>
        obtain ⟨e, mem, -⟩ := second [] after b m value (by simpa using rest.symm)
        cases mem
    | cons e middle =>
        obtain ⟨rfl, -⟩ := List.cons.inj rest
        exact first before middle b m value inFirst

/-- After a validation anything may follow. -/
theorem late_of_validated {k : Nat} {t t' : List Event} {operation : Operation} (first : Late k t) :
    Late k (t ++ .returned (.validate operation) :: t') := by
  intro before after b m value split
  rcases List.append_eq_append_iff.mp split with ⟨middle, rfl, rest⟩ | ⟨middle, inFirst, rest⟩
  · cases middle with
    | nil => simp at rest
    | cons e middle =>
        obtain ⟨rfl, -⟩ := List.cons.inj rest
        exact ⟨.returned (.validate operation), by simp, rfl⟩
  · cases middle with
    | nil => simp at rest
    | cons e middle =>
        obtain ⟨rfl, -⟩ := List.cons.inj rest
        exact first before middle b m value inFirst

theorem late_of_no_result {k : Nat} {t : List Event} (none : ∀ b m value,
    .call (.deliver (.writer k) (.onMeasurementResult b m value)) ∉ t) : Late k t := by
  rintro before after b m value rfl
  exact absurd (by simp) (none b m value)

/-- No event of the run delivers a result to a writer. -/
def Resultless {α : Type} (m : Action π α) : Prop :=
  Emits (fun e => ∀ index b metric value,
    e ≠ .call (.deliver (.writer index) (.onMeasurementResult b metric value))) m

theorem closed_resultless : Closed (fun {α} (m : Action π α) => Resultless m) :=
  closed_emits _

theorem resultless_emit {e : Event} (other : ∀ index b metric value,
    e ≠ .call (.deliver (.writer index) (.onMeasurementResult b metric value))) :
    Resultless (emit e : Action π Unit) := by
  intro w e' he'
  obtain rfl : e' = e := by simpa using he'
  exact other

theorem resultless_step {β : Type} (f : World π → β × World π) :
    Resultless (step f : Action π β) := by
  intro w e he
  simp at he

theorem resultless_deliver (env : Env π) {n : Notification} (event : n.isResult = false)
    (l : Listener) : Resultless (deliver env n l) := by
  have delivery : ∀ index b metric value, Event.call (.deliver l n) ≠
      .call (.deliver (.writer index) (.onMeasurementResult b metric value)) := by
    rintro index b metric value same
    cases same
    cases event
  refine closed_invoke closed_resultless (resultless_emit delivery) (resultless_emit (by simp))
    (resultless_emit (by simp)) ?_
  cases l with
  | plugin p =>
      exact closed_handle_plugin closed_resultless (fun f _ => resultless_step f)
        (fun _ _ => resultless_emit (by simp)) (fun _ _ _ => resultless_emit (by simp)) n p
  | writer index =>
      refine closed_handle_writer closed_resultless (fun _ => resultless_step _) fun _ => ?_
      refine closed_storeResults closed_resultless (fun _ => resultless_step _) (resultless_step _)
        (fun _ => resultless_emit (by simp)) ?_ (fun _ => resultless_emit (by simp))
        (fun _ => resultless_emit (by simp)) (fun _ => resultless_emit (by simp))
        (fun _ => resultless_emit (by simp)) true
      intro w e he
      simp at he

/-- In every run results come after an operation that passed validation. -/
def AlwaysLate (k : Nat) {α : Type} (m : Action π α) : Prop :=
  ∀ w, Late k (m w).trace

theorem Resultless.alwaysLate {k : Nat} {α : Type} {m : Action π α} (resultless : Resultless m) :
    AlwaysLate k m :=
  fun w => late_of_no_result fun b metric value mem => resultless w _ mem k b metric value rfl

theorem closed_alwaysLate (k : Nat) : Closed (fun {α} (m : Action π α) => AlwaysLate k m) :=
  closed_of_composes (Q := fun _ t _ => Late k t) (fun _ => late_of_no_result (by simp))
    (fun first second => late_append first second)

theorem late_runSteps (h : Harness π) (k : Nat) :
    RunSteps h (fun {α} (m : Action π α) => AlwaysLate k m) where
  closed := closed_alwaysLate k
  step f _ := (resultless_step f).alwaysLate
  emit e plain := by
    refine (resultless_emit ?_).alwaysLate
    rintro index b metric value rfl
    cases plain
  deliver n event l _ := (resultless_deliver h.env event l).alwaysLate
  request l _ b i := (resultless_emit (by simp)).alwaysLate
  outOfFuel := fun w => late_of_no_result (by simp)

theorem external_trace {α : Type} (f : π → Except Throwable α × π) (w : World π) :
    (external f w).trace = [] := by
  rw [external, step_bind_apply]
  cases (f w.env).1 <;> rfl

theorem late_validate_bind (h : Harness π) (k : Nat) (operation : Operation) {β : Type}
    (f : Unit → Action π β) : AlwaysLate k (h.validate operation >>= f) := by
  intro w
  rw [bind_apply]
  have early : Late k (h.validate operation w).trace := (late_runSteps h k).validate operation w
  cases returned : (h.validate operation w).outcome with
  | thrown e => rw [andThen_thrown returned]; exact early
  | stopped r => rw [andThen_stopped returned]; exact early
  | ret u =>
      rw [andThen_ret returned]
      have marks : (h.validate operation w).trace =
          [.call (.validate operation)] ++ [.returned (.validate operation)] := by
        rw [Harness.validate, invoke_run] at returned ⊢
        rw [external_trace, List.nil_append, returned]
        rfl
      rw [marks, List.append_assoc]
      exact late_of_validated (late_of_no_result (by simp))

theorem late_executeOperation (h : Harness π) (k : Nat) (b : String) (i : Int) :
    AlwaysLate k (h.executeOperation b i) := by
  have steps := late_runSteps h k
  have closed := steps.closed
  refine closed.bind (steps.callBenchmark _ b) fun _ => closed.bind (steps.isLast b i) fun _ => ?_
  refine closed.bind (steps.notifyEvent rfl) fun _ => ?_
  refine closed.bind (steps.nanoTime) fun _ => ?_
  refine closed.bind (steps.callBenchmark _ b) fun _ => ?_
  refine closed.bind (steps.nanoTime) fun _ => ?_
  refine closed.bind (steps.notifyEvent rfl) fun _ => closed.bind (steps.callBenchmark _ b) fun _ => ?_
  exact late_validate_bind h k _ _

/-- No result reaches a writer before an operation has passed validation. -/
theorem late_runBenchmarks (h : Harness π) (k fuel : Nat) (benchmarks : List BenchmarkDescriptor)
    (w : World π) : Late k (h.runBenchmarks fuel benchmarks w).trace :=
  (late_runSteps h k).runBenchmarks (late_executeOperation h k) fuel benchmarks w

/-! ## Counting measurements -/

theorem recorded_cons (k : Nat) (e : Event) (t : List Event) (b m : String) :
    recorded (deliveredTo k (e :: t)) b m =
      recorded (deliveredTo k [e]) b m ++ recorded (deliveredTo k t) b m := by
  rw [← recorded_append, deliveredTo, deliveredTo, deliveredTo, ← List.filterMap_append]
  rfl

theorem deliveredTo_validated {k : Nat} {e : Event} {b : String} (valid : e.validated? = some b) :
    deliveredTo k [e] = [] := by
  cases e with
  | returned c => rfl
  | _ => cases valid

/-- What was reported before the first validation, and once for each validated operation. -/
theorem length_recorded_split {metricsOf : String → List String} {k : Nat} {t : List Event}
    (reported : OneValuePerMetric metricsOf k t) (b m : String) :
    (recorded (deliveredTo k t) b m).length =
      (recorded (deliveredTo k (t.takeWhile (·.validated?.isNone))) b m).length +
        if m ∈ metricsOf b then (validated t).count b else 0 := by
  induction t with
  | nil => simp [deliveredTo, recorded, validated]
  | cons e t ih =>
      rw [recorded_cons k e t, List.length_append]
      cases valid : e.validated? with
      | none =>
          have rest : OneValuePerMetric metricsOf k t := by
            simpa [OneValuePerMetric, reportsByOperation, valid] using reported
          have same : validated (e :: t) = validated t := by simp [validated, valid]
          rw [List.takeWhile_cons_of_pos (by simp [valid]), recorded_cons k e (t.takeWhile _),
            List.length_append, same, ih rest]
          omega
      | some benchmark =>
          simp only [OneValuePerMetric, reportsByOperation, valid, List.forall_mem_cons] at reported
          obtain ⟨own, rest⟩ := reported
          have more : validated (e :: t) = benchmark :: validated t := by simp [validated, valid]
          rw [List.takeWhile_cons_of_neg (by simp [valid]), deliveredTo_validated valid, more,
            ih rest, own b m, List.count_cons]
          have none : recorded (deliveredTo k []) b m = [] := rfl
          rw [none, show recorded [] b m = [] from rfl]
          by_cases metric : m ∈ metricsOf b
          · by_cases same : benchmark = b
            · simp [metric, same, Nat.add_comm]
            · have other : b ≠ benchmark := fun h => same h.symm
              simp [metric, same, other]
          · simp [metric]

/-- A metric of a benchmark was reported as often as the benchmark executed a valid operation. -/
theorem length_recorded {metricsOf : String → List String} {k : Nat} {t : List Event}
    (late : Late k t) (reported : OneValuePerMetric metricsOf k t) (b m : String) :
    (recorded (deliveredTo k t) b m).length =
      if m ∈ metricsOf b then (validated t).count b else 0 := by
  have nothing : recorded (deliveredTo k (t.takeWhile (·.validated?.isNone))) b m = [] := by
    refine List.eq_nil_iff_forall_not_mem.mpr fun value mem => ?_
    rw [mem_recorded_iff, deliveredTo, List.mem_filterMap] at mem
    obtain ⟨e, inside, told⟩ := mem
    obtain ⟨pre, post, here⟩ := List.append_of_mem inside
    have delivery : e = .call (.deliver (.writer k) (.onMeasurementResult b m value)) := by
      unfold Event.deliveredTo? at told
      split at told
      · split at told
        · rename_i own
          rw [own, Option.some.inj told]
        · cases told
      · cases told
    obtain ⟨e', before, valid⟩ := late pre (post ++ t.dropWhile (·.validated?.isNone)) b m value (by
      rw [← delivery, ← List.cons_append, ← List.append_assoc, ← here, List.takeWhile_append_dropWhile])
    have early : e' ∈ t.takeWhile (·.validated?.isNone) := by
      rw [here]
      exact List.mem_append_left _ before
    have unvalidated := List.mem_takeWhile_imp early
    rw [Option.isNone_iff_eq_none.mp unvalidated] at valid
    cases valid
  rw [length_recorded_split reported, nothing]
  simp

/-- If every operation that passed validation reported one value for each metric of its benchmark,
then the results are stored at the shutdown exactly if all benchmarks that executed a valid operation
executed equally many of them. -/
theorem shutdown_stores_iff (h : Harness π) (fuel : Nat) (benchmarks : List BenchmarkDescriptor)
    (w : World π) (k : Nat) (kind : WriterKind) (fresh : w.writers[k]? = some { kind })
    (metricsOf : String → List String) (some : ∀ b, metricsOf b ≠ [])
    (before after : List Event) (split : (h.runBenchmarks fuel benchmarks w).trace =
      before ++ .call (.deliver (.writer k) .beforeHarnessShutdown) :: after)
    (reported : OneValuePerMetric metricsOf k before) :
    (∃ content, [.call (.store k true), .written k content] <+: after) ↔
      ∀ b ∈ validated before, ∀ b' ∈ validated before,
        (validated before).count b = (validated before).count b' := by
  have late : Late k before := (late_runBenchmarks h k fuel benchmarks w).of_start
    (split ▸ List.prefix_append before _)
  have counted := length_recorded late reported
  have held : ∀ b m, recorded (deliveredTo k before) b m ≠ [] ↔
      b ∈ validated before ∧ m ∈ metricsOf b := by
    intro b m
    rw [← List.length_pos_iff, counted b m]
    split_ifs with metric <;> simp [metric]
  have stores : (∃ content, [.call (.store k true), .written k content] <+: after) ↔
      checkBenchmarkResults (collect kind (deliveredTo k before)).resultsByBenchmarkName = none := by
    constructor
    · rintro ⟨content, start⟩
      have next := (storesAt_runBenchmarks fresh split).shutdown rfl
      by_contra failed
      obtain ⟨message, exits⟩ := Option.ne_none_iff_exists'.mp failed
      obtain ⟨rest, rfl⟩ := start
      simp [shutdownEvents, storeDecision, exits] at next
    · intro consistent
      obtain ⟨content, -, next⟩ := stored_of_shutdown fresh split consistent
      exact ⟨content, next⟩
  rw [stores, checkBenchmarkResults_collect]
  constructor
  · intro same b mem b' mem'
    obtain ⟨m, metric⟩ := List.exists_mem_of_ne_nil _ (some b)
    obtain ⟨m', metric'⟩ := List.exists_mem_of_ne_nil _ (some b')
    have equal := same b m b' m' ((held b m).mpr ⟨mem, metric⟩) ((held b' m').mpr ⟨mem', metric'⟩)
    rwa [counted, counted, if_pos metric, if_pos metric'] at equal
  · intro same b m b' m' reported reported'
    obtain ⟨mem, metric⟩ := (held b m).mp reported
    obtain ⟨mem', metric'⟩ := (held b' m').mp reported'
    rw [counted, counted, if_pos metric, if_pos metric']
    exact same b mem b' mem'

/-- Two benchmarks, with a number of operations for each. -/
def countingRun (countLimitProvider : String → Int) :
    Run (World Unit) Event Throwable (List BenchmarkDescriptor) :=
  countingHarness.runBenchmarks 3 [⟨"a", 1⟩, ⟨"b", 2⟩] (countingWorld .json countLimitProvider)

theorem length_recorded_pair (b benchmark m : String) (uptime duration : Int) :
    (recorded [.onMeasurementResult b "uptime_ns" uptime,
        .onMeasurementResult b "duration_ns" duration] benchmark m).length =
      if benchmark = b ∧ m ∈ ["uptime_ns", "duration_ns"] then 1 else 0 := by
  by_cases same : b = benchmark
  · subst same
    by_cases first : "uptime_ns" = m
    · subst first
      simp [recorded, Notification.values]
    · have other : m ≠ "uptime_ns" := fun h => first h.symm
      by_cases second : "duration_ns" = m
      · subst second
        simp [recorded, Notification.values]
      · have another : m ≠ "duration_ns" := fun h => second h.symm
        simp [recorded, Notification.values, first, second, other, another]
  · have other : benchmark ≠ b := fun h => same h.symm
    simp [recorded, Notification.values, same, other]

set_option maxRecDepth 1000 in
theorem shutdown_stores_equal_counts :
    let run := countingRun fun _ => 1
    ∃ content, [.call (.store 0 true), .written 0 content] <+: run.trace.drop 100 := by
  intro run
  have split : run.trace =
      run.trace.take 99 ++ .call (.deliver (.writer 0) .beforeHarnessShutdown) ::
        run.trace.drop 100 := rfl
  have reports : reportsByOperation 0 (run.trace.take 99) =
      [("a", [.onMeasurementResult "a" "uptime_ns" 0, .onMeasurementResult "a" "duration_ns" 1]),
        ("b", [.onMeasurementResult "b" "uptime_ns" 2, .onMeasurementResult "b" "duration_ns" 1])] :=
    rfl
  refine (shutdown_stores_iff countingHarness 3 [⟨"a", 1⟩, ⟨"b", 2⟩] (countingWorld .json fun _ => 1)
    0 .json rfl (fun _ => ["uptime_ns", "duration_ns"]) (by simp) _ _ split ?_).mpr ?_
  · simp only [OneValuePerMetric, reports, List.forall_mem_cons]
    exact ⟨fun b m => length_recorded_pair "a" b m 0 1, fun b m => length_recorded_pair "b" b m 2 1,
      by simp⟩
  · decide

set_option maxRecDepth 2000 in
/-- The benchmark "a" executes one operation, "b" executes two, and the process exits. -/
theorem shutdown_exits :
    let run := countingRun fun b => if b = "a" then 1 else 2
    ∃ before after,
      run.trace = before ++ .call (.deliver (.writer 0) .beforeHarnessShutdown) :: after ∧
      OneValuePerMetric (fun _ => ["uptime_ns", "duration_ns"]) 0 before ∧
      run.outcome = .stopped (.exit 1) ∧
      ¬ ∃ content, [.call (.store 0 true), .written 0 content] <+: after := by
  intro run
  have reports : reportsByOperation 0 (run.trace.take 127) =
      [("a", [.onMeasurementResult "a" "uptime_ns" 0, .onMeasurementResult "a" "duration_ns" 1]),
        ("b", [.onMeasurementResult "b" "uptime_ns" 2, .onMeasurementResult "b" "duration_ns" 1]),
        ("b", [.onMeasurementResult "b" "uptime_ns" 4, .onMeasurementResult "b" "duration_ns" 1])] :=
    rfl
  have rest : ∃ message, run.trace.drop 128 = [.stderr message] := ⟨_, rfl⟩
  refine ⟨run.trace.take 127, run.trace.drop 128, rfl, ?_, rfl, ?_⟩
  · simp only [OneValuePerMetric, reports, List.forall_mem_cons]
    exact ⟨fun b m => length_recorded_pair "a" b m 0 1, fun b m => length_recorded_pair "b" b m 2 1,
      fun b m => length_recorded_pair "b" b m 4 1, by simp⟩
  · obtain ⟨message, rest⟩ := rest
    rintro ⟨content, start⟩
    rw [rest] at start
    simp at start

end Renaissance
