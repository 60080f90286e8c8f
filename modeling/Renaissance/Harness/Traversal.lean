import Renaissance.Harness.RenaissanceSuite

/-!
# Closed properties of harness runs

A closed property that holds of the primitive steps of a run holds of the run. The rules follow the
layers of the code: one call, one notification, one operation, the driver, the suite. Each layer is
a structure that lists the steps it is made of, so that a property which only holds of a whole
operation enters at that layer. `CallSteps` is for properties of every step that calls no listener,
`RunSteps` for those that also hold of every delivery but that of a result.
-/

namespace Renaissance

open Traced

variable {π : Type} {P : ∀ {α : Type}, Action π α → Prop}

/-! ## Calls -/

theorem closed_invoke (closed : Closed P) {α : Type} {call : Call} {body : Action π α}
    (called : P (emit (.call call))) (returned : P (emit (.returned call)))
    (threw : P (emit (.threw call))) (inner : P body) : P (invoke call body) := by
  refine closed.bind called fun _ => closed.bind (closed.attempt inner) fun result => ?_
  cases result with
  | ok a => exact closed.bind returned fun _ => closed.pure a
  | error e => exact closed.bind threw fun _ => closed.throw e

theorem closed_query (closed : Closed P) {call : Call} {body : Action π Bool}
    (called : P (emit (.call call))) (answered : ∀ answer, P (emit (.answered call answer)))
    (threw : P (emit (.threw call))) (inner : P body) : P (query call body) := by
  refine closed.bind called fun _ => closed.bind (closed.attempt inner) fun result => ?_
  cases result with
  | ok answer => exact closed.bind (answered answer) fun _ => closed.pure answer
  | error e => exact closed.bind threw fun _ => closed.throw e

/-- What holds of the answer of the built-in policy and of that of a plugin. -/
theorem of_policy {Q : Action π Bool → Prop} (policy : ExecutionPolicy) {own : Action π Bool}
    {other : ExternalPlugin → Action π Bool} (builtin : Q own) (external : ∀ p, Q (other p)) :
    Q (match policy with
      | .builtin => own
      | .external p => other p) := by
  cases policy with
  | builtin => exact builtin
  | external p => exact external p

theorem closed_fromExcept (closed : Closed P) {α : Type} (result : Except Throwable α) :
    P (fromExcept result : Action π α) := by
  cases result with
  | ok a => exact closed.pure a
  | error e => exact closed.throw e

theorem closed_external (closed : Closed P) {α : Type} {f : π → Except Throwable α × π}
    (ask : P (step fun w : World π => ((f w.env).1, { w with env := (f w.env).2 }))) :
    P (external f) :=
  closed.bind ask fun result => closed_fromExcept closed result

/-! ## Notifications -/

theorem closed_notify (closed : Closed P) {h : Harness π} {n : Notification}
    (called : P (emit (.call (.notify n)))) (returned : P (emit (.returned (.notify n))))
    (threw : P (emit (.threw (.notify n))))
    (delivered : ∀ l ∈ h.dispatcher.of n.interface, P (deliver h.env n l)) : P (h.notify n) :=
  closed_invoke closed called returned threw (closed.forEach delivered)

theorem closed_dispatch (closed : Closed P) {h : Harness π} {benchmark metric : String}
    {value : Int} (called : P (emit (.call (.dispatch benchmark metric value))))
    (returned : P (emit (.returned (.dispatch benchmark metric value))))
    (threw : P (emit (.threw (.dispatch benchmark metric value))))
    (delivered : ∀ l ∈ h.dispatcher.measurementResultListeners,
      P (deliver h.env (.onMeasurementResult benchmark metric value) l)) :
    P (h.dispatch benchmark metric value) :=
  closed_invoke closed called returned threw (closed.forEach delivered)

theorem closed_runPublication (closed : Closed P) {h : Harness π}
    (dispatched : ∀ benchmark metric value, P (h.dispatch benchmark metric value))
    (publication : Publication) : P (h.runPublication publication) := by
  induction publication with
  | finish result => exact closed_fromExcept closed result
  | publish benchmark metric value next ih =>
      exact closed.bind (closed.attempt (dispatched benchmark metric value)) fun result => ih result

theorem closed_publish (closed : Closed P) {h : Harness π} {benchName : String} {opIndex : Int}
    (asked : ∀ p, P (step fun w : World π => ((h.env.publisher p benchName opIndex w.env).1,
      { w with env := (h.env.publisher p benchName opIndex w.env).2 })))
    (dispatched : ∀ benchmark metric value, P (h.dispatch benchmark metric value))
    (l : Listener) : P (h.publish benchName opIndex l) := by
  cases l with
  | writer _ => exact closed.pure ()
  | plugin p =>
      cases p with
      | external p =>
          exact closed.bind (asked p) fun publication =>
            closed_runPublication closed dispatched publication
      | _ => exact closed.pure ()

/-! ## The driver -/

/-- The steps of `executeOperation`. -/
structure OperationSteps (h : Harness π) (b : String) (P : ∀ {α : Type}, Action π α → Prop) :
    Prop where
  closed : Closed P
  benchmark : ∀ method, P (h.callBenchmark method b)
  isLast : ∀ i, P (h.isLast b i)
  nanoTime : P (nanoTime h.env)
  validate : ∀ operation : Operation, operation.benchmark = b → P (h.validate operation)
  afterOperationSetUp : ∀ i isLastOp, P (h.notifyAfterOperationSetUp b i isLastOp)
  beforeOperationTearDown : ∀ i nanos, P (h.notifyBeforeOperationTearDown b i nanos)
  onMeasurementResult : ∀ metric value, P (h.notifyOnMeasurementResult b metric value)
  onMeasurementResultsRequested : ∀ i, P (h.notifyOnMeasurementResultsRequested b i)

theorem OperationSteps.executeOperation {h : Harness π} {b : String}
    (steps : OperationSteps h b P) (i : Int) : P (h.executeOperation b i) := by
  have closed := steps.closed
  refine closed.bind (steps.benchmark _) fun _ => closed.bind (steps.isLast i) fun isLastOp => ?_
  refine closed.bind (steps.afterOperationSetUp i isLastOp) fun _ => ?_
  refine closed.bind steps.nanoTime fun startNanos => closed.bind (steps.benchmark _) fun _ => ?_
  refine closed.bind steps.nanoTime fun endNanos => ?_
  refine closed.bind (steps.beforeOperationTearDown i _) fun _ => ?_
  refine closed.bind (steps.benchmark _) fun _ => closed.bind (steps.validate _ rfl) fun _ => ?_
  refine closed.bind (steps.onMeasurementResult _ _) fun _ => ?_
  refine closed.bind (steps.onMeasurementResult _ _) fun _ => ?_
  exact closed.bind (steps.onMeasurementResultsRequested i) fun _ => closed.pure _

theorem closed_printf (closed : Closed P) {h : Harness π} {line : Line}
    (printed : P (emit (.printed line))) (unprinted : P (emit (.unprinted line))) :
    P (h.printf line) := by
  unfold Harness.printf
  split
  · exact printed
  · exact closed.bind unprinted fun _ => closed.throw _

/-- The steps of the loop over the operations. -/
structure LoopSteps (h : Harness π) (b : String) (P : ∀ {α : Type}, Action π α → Prop) : Prop where
  closed : Closed P
  canExecute : ∀ i, P (h.canExecute b i)
  printf : ∀ line : Line, line.benchmark = b → P (h.printf line)
  executeOperation : ∀ i, P (h.executeOperation b i)
  outOfFuel : P (stop .outOfFuel : Action π (Int × Except Throwable Unit))

theorem LoopSteps.loopBody {h : Harness π} {b : String} (steps : LoopSteps h b P) (i : Int) :
    P (h.loopBody b i) := by
  have closed := steps.closed
  refine closed.bind (steps.canExecute i) fun answer => ?_
  cases answer with
  | false => exact closed.pure false
  | true =>
      refine closed.bind (steps.printf _ rfl) fun _ => ?_
      refine closed.bind (steps.executeOperation i) fun nanos => ?_
      exact closed.bind (steps.printf _ rfl) fun _ => closed.pure true

theorem LoopSteps.operationLoop {h : Harness π} {b : String} (steps : LoopSteps h b P)
    (fuel : Nat) (i : Int) : P (h.operationLoop b fuel i) := by
  have closed := steps.closed
  induction fuel generalizing i with
  | zero => exact steps.outOfFuel
  | succ fuel ih =>
      refine closed.bind (closed.attempt (steps.loopBody i)) fun result => ?_
      cases result with
      | error cause => exact closed.pure _
      | ok again =>
          cases again with
          | false => exact closed.pure _
          | true => exact ih _

theorem LoopSteps.executeOperations {h : Harness π} {b : String} (steps : LoopSteps h b P)
    (fuel : Nat) : P (h.executeOperations fuel b) := by
  have closed := steps.closed
  refine closed.bind (steps.operationLoop fuel 0) fun (operationIndex, result) => ?_
  cases result with
  | ok _ => exact closed.pure ()
  | error cause => exact closed.bind (steps.printf _ rfl) fun _ => closed.throw cause

/-- The steps of `executeBenchmark`. -/
structure BenchmarkSteps (h : Harness π) (b : String) (P : ∀ {α : Type}, Action π α → Prop) :
    Prop where
  closed : Closed P
  beforeBenchmarkSetUp : P (h.notifyBeforeBenchmarkSetUp b)
  setUpBeforeAll : P (h.callBenchmark .setUpBeforeAll b)
  afterBenchmarkSetUp : P (h.notifyAfterBenchmarkSetUp b)
  executeOperations : ∀ fuel, P (h.executeOperations fuel b)
  beforeBenchmarkTearDown : P (h.notifyBeforeBenchmarkTearDown b)
  tearDownAfterAll : P (h.callBenchmark .tearDownAfterAll b)
  afterBenchmarkTearDown : P (h.notifyAfterBenchmarkTearDown b)

theorem BenchmarkSteps.executeBenchmark {h : Harness π} {b : String} (steps : BenchmarkSteps h b P)
    (fuel : Nat) : P (h.executeBenchmark fuel b) := by
  have closed := steps.closed
  have inner := closed.bind steps.afterBenchmarkSetUp fun _ =>
    closed.tryFinally (steps.executeOperations fuel) steps.beforeBenchmarkTearDown
  have middle := closed.bind steps.setUpBeforeAll fun _ =>
    closed.tryFinally inner steps.tearDownAfterAll
  exact closed.bind steps.beforeBenchmarkSetUp fun _ =>
    closed.tryFinally middle steps.afterBenchmarkTearDown

/-! ## The suite -/

/-- The steps of the loop over the benchmarks. -/
structure SuiteSteps (h : Harness π) (P : ∀ {α : Type}, Action π α → Prop) : Prop where
  closed : Closed P
  create : ∀ b, P (h.create b)
  executeBenchmark : ∀ fuel b, P (invoke (.executeBenchmark b) (h.executeBenchmark fuel b))
  onBenchmarkFailure : ∀ b, P (h.notifyOnBenchmarkFailure b)
  stderr : ∀ line, P (emit (.stderr line))
  stackTrace : ∀ cause, P (emit (.stackTrace cause))

namespace SuiteSteps

variable {h : Harness π} (steps : SuiteSteps h P)
include steps

theorem reportFailure (b : String) (cause : Throwable) : P (reportFailure b cause : Action π Unit) := by
  unfold Renaissance.reportFailure
  split
  · exact steps.stderr _
  · exact steps.closed.bind (steps.stderr _) fun _ => steps.stackTrace cause

theorem executeLoaded (fuel : Nat) (failed : List BenchmarkDescriptor) (d : BenchmarkDescriptor) :
    P (h.executeLoaded fuel failed d) := by
  have closed := steps.closed
  refine closed.bind (closed.attempt (steps.executeBenchmark fuel d.name)) fun result => ?_
  cases result with
  | ok _ => exact closed.pure _
  | error cause =>
      refine closed.bind (steps.onBenchmarkFailure d.name) fun _ => ?_
      exact closed.bind (steps.reportFailure d.name cause) fun _ => closed.pure _

theorem runBenchmark (fuel : Nat) (failed : List BenchmarkDescriptor) (d : BenchmarkDescriptor) :
    P (h.runBenchmark fuel failed d) := by
  have closed := steps.closed
  have attempted := closed.bind (steps.create d.name) fun _ => steps.executeLoaded fuel failed d
  refine closed.bind (closed.attempt attempted) fun result => ?_
  cases result with
  | ok _ => exact closed.pure _
  | error cause => exact closed.bind (steps.stderr _) fun _ => closed.pure _

theorem runEach (fuel : Nat) (failed : List BenchmarkDescriptor)
    (benchmarks : List BenchmarkDescriptor) : P (h.runEach fuel failed benchmarks) := by
  induction benchmarks generalizing failed with
  | nil => exact steps.closed.pure _
  | cons d benchmarks ih =>
      exact steps.closed.bind (steps.runBenchmark fuel failed d) fun failed => ih failed

theorem runBenchmarks (afterHarnessInit : P h.notifyAfterHarnessInit)
    (beforeHarnessShutdown : P h.notifyBeforeHarnessShutdown) (fuel : Nat)
    (benchmarks : List BenchmarkDescriptor) : P (h.runBenchmarks fuel benchmarks) := by
  have closed := steps.closed
  refine closed.bind afterHarnessInit fun _ => ?_
  refine closed.bind (steps.runEach fuel [] benchmarks) fun failed => ?_
  exact closed.bind beforeHarnessShutdown fun _ => closed.pure failed

end SuiteSteps

/-! ## Whole runs -/

/-- The events that no delivery to a listener and no result writer leaves. -/
def Event.isPlain : Event → Bool
  | .call (.deliver ..) | .call (.store ..) | .written .. => false
  | _ => true

def Notification.isResult : Notification → Bool
  | .onMeasurementResult .. => true
  | _ => false

/-- The steps of a whole run that call no listener. -/
structure CallSteps (h : Harness π) (P : ∀ {α : Type}, Action π α → Prop) : Prop where
  closed : Closed P
  step : ∀ {β : Type} (f : World π → β × World π), Outside f → P (step f)
  emit : ∀ e : Event, e.isPlain = true → P (emit e)
  outOfFuel : P (stop .outOfFuel : Action π (Int × Except Throwable Unit))

namespace CallSteps

variable {h : Harness π} (steps : CallSteps h P)
include steps

theorem external {α : Type} (f : π → Except Throwable α × π) : P (external f) :=
  closed_external steps.closed (steps.step _ (outside_env f))

theorem call {α : Type} {call : Call} {body : Action π α} (plain : (Event.call call).isPlain = true)
    (inner : P body) : P (invoke call body) :=
  closed_invoke steps.closed (steps.emit _ plain) (steps.emit _ rfl) (steps.emit _ rfl) inner

theorem question {call : Call} {body : Action π Bool} (plain : (Event.call call).isPlain = true)
    (inner : P body) : P (query call body) :=
  closed_query steps.closed (steps.emit _ plain) (fun _ => steps.emit _ rfl) (steps.emit _ rfl) inner

theorem notify (n : Notification)
    (delivered : ∀ l ∈ h.dispatcher.of n.interface, P (Renaissance.deliver h.env n l)) :
    P (h.notify n) :=
  steps.call rfl (steps.closed.forEach delivered)

theorem canExecute (b : String) (i : Int) : P (h.canExecute b i) := by
  refine steps.question rfl ?_
  exact of_policy h.policy (steps.step _ (outside_look _)) fun _ => steps.external _

theorem isLast (b : String) (i : Int) : P (h.isLast b i) := by
  refine steps.question rfl ?_
  exact of_policy h.policy (steps.step _ (outside_look _)) fun _ => steps.external _

theorem callBenchmark (method : BenchmarkMethod) (b : String) : P (h.callBenchmark method b) :=
  steps.call rfl (steps.external _)

theorem validate (operation : Operation) : P (h.validate operation) :=
  steps.call rfl (steps.external _)

theorem nanoTime : P (Renaissance.nanoTime h.env) :=
  steps.step _ (outside_nanoTime h.env)

theorem create (b : String) : P (h.create b) :=
  steps.call rfl (steps.external _)

/-- A request for results leads to results only. -/
theorem onMeasurementResultsRequested (b : String) (i : Int)
    (requested : ∀ l ∈ h.dispatcher.measurementResultPublishers,
      P (Traced.emit (.call (.deliver l (.onMeasurementResultsRequested b i))) : Action π Unit))
    (report : ∀ b m value, ∀ l ∈ h.dispatcher.measurementResultListeners,
      P (Renaissance.deliver h.env (.onMeasurementResult b m value) l)) :
    P (h.notifyOnMeasurementResultsRequested b i) := by
  refine steps.call rfl (steps.closed.forEach fun l mem => ?_)
  refine closed_invoke steps.closed (requested l mem) (steps.emit _ rfl) (steps.emit _ rfl) ?_
  refine closed_publish steps.closed (fun _ => steps.step _ (outside_env _)) (fun b m value => ?_) l
  exact steps.call rfl (steps.closed.forEach fun l mem => report b m value l mem)

theorem loopSteps {b : String} (executeOperation : ∀ i, P (h.executeOperation b i)) :
    LoopSteps h b P where
  closed := steps.closed
  canExecute i := steps.canExecute b i
  printf _ _ := closed_printf steps.closed (steps.emit _ rfl) (steps.emit _ rfl)
  executeOperation := executeOperation
  outOfFuel := steps.outOfFuel

theorem operationSteps {b : String}
    (afterOperationSetUp : ∀ i isLastOp, P (h.notifyAfterOperationSetUp b i isLastOp))
    (beforeOperationTearDown : ∀ i nanos, P (h.notifyBeforeOperationTearDown b i nanos))
    (onMeasurementResult : ∀ metric value, P (h.notifyOnMeasurementResult b metric value))
    (onMeasurementResultsRequested : ∀ i, P (h.notifyOnMeasurementResultsRequested b i)) :
    OperationSteps h b P where
  closed := steps.closed
  benchmark method := steps.callBenchmark method b
  isLast i := steps.isLast b i
  nanoTime := steps.nanoTime
  validate operation _ := steps.validate operation
  afterOperationSetUp := afterOperationSetUp
  beforeOperationTearDown := beforeOperationTearDown
  onMeasurementResult := onMeasurementResult
  onMeasurementResultsRequested := onMeasurementResultsRequested

theorem benchmarkSteps {b : String} (beforeBenchmarkSetUp : P (h.notifyBeforeBenchmarkSetUp b))
    (afterBenchmarkSetUp : P (h.notifyAfterBenchmarkSetUp b))
    (executeOperation : ∀ i, P (h.executeOperation b i))
    (beforeBenchmarkTearDown : P (h.notifyBeforeBenchmarkTearDown b))
    (afterBenchmarkTearDown : P (h.notifyAfterBenchmarkTearDown b)) : BenchmarkSteps h b P where
  closed := steps.closed
  beforeBenchmarkSetUp := beforeBenchmarkSetUp
  setUpBeforeAll := steps.callBenchmark _ b
  afterBenchmarkSetUp := afterBenchmarkSetUp
  executeOperations := (steps.loopSteps executeOperation).executeOperations
  beforeBenchmarkTearDown := beforeBenchmarkTearDown
  tearDownAfterAll := steps.callBenchmark _ b
  afterBenchmarkTearDown := afterBenchmarkTearDown

theorem suiteSteps (executeBenchmark : ∀ fuel b, P (h.executeBenchmark fuel b))
    (onBenchmarkFailure : ∀ b, P (h.notifyOnBenchmarkFailure b)) : SuiteSteps h P where
  closed := steps.closed
  create := steps.create
  executeBenchmark fuel b := steps.call rfl (executeBenchmark fuel b)
  onBenchmarkFailure := onBenchmarkFailure
  stderr _ := steps.emit _ rfl
  stackTrace _ := steps.emit _ rfl

end CallSteps

/-- The steps of a whole run but for the reporting of results. A delivery is one step. -/
structure RunSteps (h : Harness π) (P : ∀ {α : Type}, Action π α → Prop) : Prop
    extends CallSteps h P where
  deliver : ∀ n, n.isResult = false → ∀ l ∈ h.dispatcher.of n.interface, P (deliver h.env n l)
  request : ∀ l ∈ h.dispatcher.measurementResultPublishers, ∀ b i,
    P (Traced.emit (.call (.deliver l (.onMeasurementResultsRequested b i))) : Action π Unit)

namespace RunSteps

variable {h : Harness π} (steps : RunSteps h P)
include steps

theorem notifyEvent {n : Notification} (event : n.isResult = false) : P (h.notify n) :=
  steps.notify n fun l mem => steps.deliver n event l mem

/-- The execution of an operation, where results are delivered by steps with the property, too. -/
theorem executeOperation (report : ∀ b m value, ∀ l ∈ h.dispatcher.measurementResultListeners,
      P (Renaissance.deliver h.env (.onMeasurementResult b m value) l))
    (b : String) (i : Int) : P (h.executeOperation b i) := by
  refine (steps.operationSteps (fun _ _ => ?_) (fun _ _ => ?_) (fun m value => ?_)
    fun i => ?_).executeOperation i
  · exact steps.notifyEvent rfl
  · exact steps.notifyEvent rfl
  · exact steps.notify _ fun l mem => report b m value l mem
  · exact steps.onMeasurementResultsRequested b i (fun l mem => steps.request l mem b i) report

/-- A property of whole operations and of all other steps is one of the steps of the suite. -/
theorem suite (executeOperation : ∀ b i, P (h.executeOperation b i)) : SuiteSteps h P :=
  steps.suiteSteps
    (fun fuel b => (steps.benchmarkSteps (steps.notifyEvent rfl) (steps.notifyEvent rfl)
      (executeOperation b) (steps.notifyEvent rfl) (steps.notifyEvent rfl)).executeBenchmark fuel)
    fun _ => steps.notifyEvent rfl

theorem runBenchmarks (executeOperation : ∀ b i, P (h.executeOperation b i)) (fuel : Nat)
    (benchmarks : List BenchmarkDescriptor) : P (h.runBenchmarks fuel benchmarks) :=
  (steps.suite executeOperation).runBenchmarks (steps.notifyEvent rfl) (steps.notifyEvent rfl) fuel
    benchmarks

end RunSteps

end Renaissance
