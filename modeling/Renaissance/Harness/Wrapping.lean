import Renaissance.Lib.Script
import Renaissance.Harness.Events

/-!
# Wrapping

Plugins wrap each other: of two plugins that listen to both events of a pair, the one registered first
hears the opening event first and the closing event last. Result writers come after all plugins.

Results:
1. `reaches_send`, `reaches_dispatch`: a notification reaches its recipients in order, each once, until
   one of them throws.
2. `createEventDispatcher_wraps`: over whole runs the intervals of the plugins are properly nested.
3. `notification_cut_short`: a listener that throws keeps the others from being told.
-/

namespace Renaissance

open Traced

variable {π : Type}

/-! ## Watching deliveries -/

/-- The events that a listener leaves inside its method. -/
def Event.ofListener : Event → Bool
  | .timeStart .. | .timeCheck .. | .stderr _ | .written .. => true
  | .call (.store ..) | .returned (.store ..) | .threw (.store ..) => true
  | _ => false

theorem unseen_handle {γ : Type} {f : Event → Option γ}
    (blind : ∀ e : Event, e.ofListener = true → f e = none) (env : Env π) (l : Listener)
    (n : Notification) : Unseen f (handle env l n) := by
  cases l with
  | plugin p =>
      exact closed_handle_plugin closed_unseen (fun f _ => unseen_step f)
        (fun _ _ => unseen_emit (blind _ rfl)) (fun _ _ _ => unseen_emit (blind _ rfl)) n p
  | writer index =>
      refine closed_handle_writer closed_unseen (fun _ => unseen_step _) fun _ => ?_
      exact closed_storeResults closed_unseen (fun _ => unseen_step _) (unseen_step _)
        (fun _ => unseen_emit (blind _ rfl)) (unseen_stop _) (fun _ => unseen_emit (blind _ rfl))
        (fun _ => unseen_emit (blind _ rfl)) (fun _ => unseen_emit (blind _ rfl))
        (fun _ => unseen_emit (blind _ rfl)) true

/-- An observer of the deliveries that `g` picks out. -/
def watching {γ : Type} (g : Listener → Notification → Option γ) : Event → Option γ
  | .call (.deliver l n) => g l n
  | _ => none

section Watching

variable {γ : Type} {g : Listener → Notification → Option γ}

theorem watching_blind (e : Event) (own : e.ofListener = true) : watching g e = none := by
  cases e with
  | call c =>
      cases c with
      | deliver _ _ => cases own
      | _ => rfl
  | _ => rfl

theorem script_invoke {f : Event → Option γ} {α : Type} {call : Call} {body : Action π α}
    {script : List γ} (returned : f (.returned call) = none) (threw : f (.threw call) = none)
    (inner : Script f script body) :
    Script f ((f (.call call)).toList ++ script) (invoke call body) := by
  intro w
  obtain ⟨start, whole⟩ := inner w
  have marks : (ending call (body w).outcome).filterMap f = [] := by
    cases (body w).outcome <;> simp [ending, returned, threw]
  have seen : (invoke call body w).trace.filterMap f =
      (f (.call call)).toList ++ (body w).trace.filterMap f := by
    rw [invoke_run]
    dsimp only
    rw [List.filterMap_cons, List.filterMap_append, marks, List.append_nil]
    cases f (.call call) <;> rfl
  rw [seen]
  refine ⟨(List.prefix_append_right_inj _).mpr start, fun a same => ?_⟩
  rw [invoke_run] at same
  rw [whole a same]

theorem script_deliver (env : Env π) (n : Notification) (l : Listener) :
    Script (watching g) (g l n).toList (deliver env n l) := by
  have delivered : Script (watching g) ((g l n).toList ++ []) (deliver env n l) :=
    script_invoke rfl rfl (unseen_handle watching_blind env l n).script
  rwa [List.append_nil] at delivered

theorem script_deliveries (env : Env π) (n : Notification) (ls : List Listener) :
    Script (watching g) (ls.filterMap (g · n)) (forEach ls (deliver env n)) := by
  have all : Script (watching g) (ls.flatMap fun l => (g l n).toList) (forEach ls (deliver env n)) :=
    script_forEach fun l _ => script_deliver env n l
  rwa [← List.filterMap_eq_flatMap_toList] at all

theorem script_notify (h : Harness π) (n : Notification) :
    Script (watching g) ((h.dispatcher.of n.interface).filterMap (g · n)) (h.notify n) :=
  script_invoke rfl rfl (script_deliveries h.env n _)

theorem unseen_deliver {env : Env π} {n : Notification} {l : Listener} (other : g l n = none) :
    Unseen (watching g) (deliver env n l) :=
  closed_invoke closed_unseen (unseen_emit other) (unseen_emit rfl) (unseen_emit rfl)
    (unseen_handle watching_blind env l n)

theorem unseen_callSteps (h : Harness π) :
    CallSteps h (fun {α} (m : Action π α) => Unseen (watching g) m) where
  closed := closed_unseen
  step f _ := unseen_step f
  emit e plain := by
    refine unseen_emit ?_
    cases e with
    | call c =>
        cases c with
        | deliver _ _ => cases plain
        | _ => rfl
    | _ => rfl
  outOfFuel := unseen_stop _

theorem unseen_notify {h : Harness π} {n : Notification} (other : ∀ l, g l n = none) :
    Unseen (watching g) (h.notify n) :=
  (unseen_callSteps h).notify n fun l _ => unseen_deliver (other l)

end Watching

/-! ## The recipients of a notification -/

/-- The method of the dispatcher that sends a notification. -/
def Harness.send (h : Harness π) : Notification → Action π Unit
  | .onMeasurementResultsRequested benchName opIndex =>
      h.notifyOnMeasurementResultsRequested benchName opIndex
  | n => h.notify n

/-- See the deliveries of `n`. -/
def deliveriesOf (n : Notification) : Event → Option Listener :=
  watching fun l n' => if n' = n then some l else none

/-- The listeners to which the trace delivers `n`. -/
def reached (n : Notification) (t : List Event) : List Listener :=
  t.filterMap (deliveriesOf n)

/-- A notification reaches the listeners in order, each once: all of them if it returns, and all up
to the one that throws if it throws. -/
structure Reaches (n : Notification) (listeners : List Listener)
    (run : Run (World π) Event Throwable Unit) : Prop where
  inOrder : reached n run.trace <+: listeners
  all : run.outcome = .ret () → reached n run.trace = listeners
  upToThrowing : ∀ cause, run.outcome = .thrown cause →
    ∃ l, (reached n run.trace).getLast? = some l ∧ .threw (.deliver l n) ∈ run.trace

theorem script_delivery {n : Notification} {l : Listener} {inner : Action π Unit}
    (unseen : Unseen (deliveriesOf n) inner) :
    Script (deliveriesOf n) [l] (invoke (.deliver l n) inner) := by
  have delivered : Script (deliveriesOf n) ((deliveriesOf n (.call (.deliver l n))).toList ++ [])
      (invoke (.deliver l n) inner) := script_invoke rfl rfl unseen.script
  rwa [show deliveriesOf n (.call (.deliver l n)) = some l from if_pos rfl] at delivered

theorem reaches_listeners {call : Call} {n : Notification} {listeners : List Listener}
    {inner : Listener → Action π Unit} (other : deliveriesOf n (.call call) = none)
    (unseen : ∀ l, Unseen (deliveriesOf n) (inner l)) (w : World π) :
    Reaches n listeners
      (invoke call (forEach listeners fun l => invoke (.deliver l n) (inner l)) w) := by
  have loop : ∀ ls : List Listener, Script (deliveriesOf n) ls
      (forEach ls fun l => invoke (.deliver l n) (inner l)) := by
    intro ls
    have all : Script (deliveriesOf n) (ls.flatMap fun l => [l])
        (forEach ls fun l => invoke (.deliver l n) (inner l)) :=
      script_forEach fun l _ => script_delivery (unseen l)
    rwa [List.flatMap_singleton'] at all
  have whole : Script (deliveriesOf n) ((deliveriesOf n (.call call)).toList ++ listeners)
      (invoke call (forEach listeners fun l => invoke (.deliver l n) (inner l))) :=
    script_invoke rfl rfl (loop listeners)
  rw [other] at whole
  refine ⟨(whole w).1, (whole w).2 (), fun cause thrown => ?_⟩
  rw [invoke_run] at thrown ⊢
  obtain ⟨before, l, after, -, returned, threw, trace⟩ := forEach_thrown thrown
  have own : deliveriesOf n (.call (.deliver l n)) = some l := if_pos rfl
  have last : (forEach listeners (fun l => invoke (.deliver l n) (inner l)) w).trace.filterMap
      (deliveriesOf n) = before ++ [l] := by
    rw [trace, List.filterMap_append, (loop before w).2 () returned, invoke_run]
    dsimp only
    rw [List.filterMap_cons_some own, List.filterMap_append, (unseen l).nothing]
    rw [invoke_run] at threw
    rw [threw]
    rfl
  refine ⟨l, ?_, ?_⟩
  · have mark : (ending call (Outcome.thrown cause : Outcome Throwable Unit)).filterMap
        (deliveriesOf n) = [] := rfl
    rw [reached, List.filterMap_cons_none other, List.filterMap_append, last, thrown, mark,
      List.append_nil, List.getLast?_append]
    rfl
  · rw [trace, invoke_run] at *
    rw [threw]
    simp [ending]

/-- Every notification reaches its recipients. -/
theorem reaches_send (h : Harness π) (plugins : List Plugin) (writers : List Nat) (n : Notification)
    (w : World π) :
    Reaches n (recipients plugins writers n) ((h.registering plugins writers).send n w) := by
  rw [← of_registering h]
  cases n with
  | onMeasurementResultsRequested b i =>
      refine reaches_listeners rfl (fun l => ?_) w
      refine closed_publish closed_unseen (fun _ => unseen_step _) (fun b' m value => ?_) l
      exact closed_dispatch closed_unseen (unseen_emit rfl) (unseen_emit rfl) (unseen_emit rfl)
        fun l' _ => unseen_deliver (if_neg (by simp))
  | _ => exact reaches_listeners rfl (fun l => unseen_handle watching_blind _ l _) w

/-- So does a result that a publisher reports through its callback. -/
theorem reaches_dispatch (h : Harness π) (plugins : List Plugin) (writers : List Nat)
    (b m : String) (value : Int) (w : World π) :
    Reaches (.onMeasurementResult b m value)
      (recipients plugins writers (.onMeasurementResult b m value))
      ((h.registering plugins writers).dispatch b m value w) := by
  rw [← of_registering h]
  exact reaches_listeners rfl (fun l => unseen_handle watching_blind _ l _) w

/-! ## Properly nested intervals -/

/-- The pairs of listener interfaces with an opening and a closing event. -/
inductive ListenerPair where
  | harness | benchmark | benchmarkSetUp | operation
deriving DecidableEq, Repr

/-- What lies between an opening event and its closing event. -/
inductive Scope where
  | harness
  | benchmark (benchmark : String)
  | operation (benchmark : String) (opIndex : Int)
deriving DecidableEq, Repr

inductive Boundary where
  | opens (scope : Scope)
  | closes (scope : Scope)
deriving DecidableEq, Repr

namespace ListenerPair

def opening : ListenerPair → Interface
  | .harness => .afterHarnessInitListener
  | .benchmark => .beforeBenchmarkSetUpListener
  | .benchmarkSetUp => .afterBenchmarkSetUpListener
  | .operation => .afterOperationSetUpListener

def closing : ListenerPair → Interface
  | .harness => .beforeHarnessShutdownListener
  | .benchmark => .afterBenchmarkTearDownListener
  | .benchmarkSetUp => .beforeBenchmarkTearDownListener
  | .operation => .beforeOperationTearDownListener

/-- The event of the pair that the notification tells of. -/
def boundary? : ListenerPair → Notification → Option Boundary
  | .harness, .afterHarnessInit => some (.opens .harness)
  | .harness, .beforeHarnessShutdown => some (.closes .harness)
  | .benchmark, .beforeBenchmarkSetUp b => some (.opens (.benchmark b))
  | .benchmark, .afterBenchmarkTearDown b => some (.closes (.benchmark b))
  | .benchmarkSetUp, .afterBenchmarkSetUp b => some (.opens (.benchmark b))
  | .benchmarkSetUp, .beforeBenchmarkTearDown b => some (.closes (.benchmark b))
  | .operation, .afterOperationSetUp b i _ => some (.opens (.operation b i))
  | .operation, .beforeOperationTearDown b i _ => some (.closes (.operation b i))
  | _, _ => none

/-- The plugin implements both interfaces of the pair. -/
def implementedBy (pair : ListenerPair) (p : Plugin) : Bool :=
  p.interfaces.contains pair.opening && p.interfaces.contains pair.closing

/-- The boundary that a delivery makes for a plugin that implements both interfaces. -/
def boundaryOf? (pair : ListenerPair) : Listener → Notification → Option (Plugin × Boundary)
  | .plugin p, n => if pair.implementedBy p then (pair.boundary? n).map (p, ·) else none
  | .writer _, _ => none

/-- The intervals of the plugins over one scope: the one registered first opens its interval first and
closes it last. -/
def intervals (pair : ListenerPair) (plugins : List Plugin) (scope : Scope) :
    List (Plugin × Boundary) :=
  (plugins.filter pair.implementedBy).map (·, .opens scope) ++
    (plugins.filter pair.implementedBy).reverse.map (·, .closes scope)

/-- The trace shows intervals one scope after the other, each from its start. -/
def ProperlyNested (pair : ListenerPair) (plugins : List Plugin) (t : List Event) : Prop :=
  Episodes (watching pair.boundaryOf?) (fun script => ∃ scope, script = pair.intervals plugins scope) t

theorem interface_of_opens {pair : ListenerPair} {n : Notification} {scope : Scope}
    (opens : pair.boundary? n = some (.opens scope)) : n.interface = pair.opening := by
  unfold boundary? at opens
  split at opens <;> first | rfl | cases opens

theorem interface_of_closes {pair : ListenerPair} {n : Notification} {scope : Scope}
    (closes : pair.boundary? n = some (.closes scope)) : n.interface = pair.closing := by
  unfold boundary? at closes
  split at closes <;> first | rfl | cases closes

variable {pair : ListenerPair} {plugins : List Plugin} {writers : List Nat}

theorem boundaries_of_plugins {n : Notification} {boundary : Boundary}
    (bounds : pair.boundary? n = some boundary) (ps : List Plugin) :
    (ps.map Listener.plugin).filterMap (pair.boundaryOf? · n) =
      (ps.filter pair.implementedBy).map (·, boundary) := by
  induction ps with
  | nil => rfl
  | cons p ps ih =>
      rw [List.map_cons, List.filterMap_cons, ih, List.filter_cons]
      cases implemented : pair.implementedBy p <;> simp [boundaryOf?, implemented, bounds]

theorem boundaries_of_writers (n : Notification) :
    (writers.map Listener.writer).filterMap (pair.boundaryOf? · n) = [] :=
  List.filterMap_eq_nil_iff.mpr fun l mem => by
    obtain ⟨index, -, rfl⟩ := List.mem_map.mp mem
    rfl

theorem implementers_of_opening :
    (plugins.filter (·.interfaces.contains pair.opening)).filter pair.implementedBy =
      plugins.filter pair.implementedBy := by
  rw [List.filter_filter]
  exact List.filter_congr fun p _ => by simpa [implementedBy] using fun opening _ => opening

theorem implementers_of_closing :
    (plugins.filter (·.interfaces.contains pair.closing)).filter pair.implementedBy =
      plugins.filter pair.implementedBy := by
  rw [List.filter_filter]
  exact List.filter_congr fun p _ => by simp [implementedBy, Bool.and_comm]

theorem recipients_of_opens {n : Notification} {scope : Scope}
    (opens : pair.boundary? n = some (.opens scope)) :
    recipients plugins writers n =
      (plugins.filter (·.interfaces.contains pair.opening)).map Listener.plugin := by
  rw [← interface_of_opens opens]
  unfold boundary? at opens
  split at opens <;> first | rfl | cases opens

theorem recipients_of_closes {n : Notification} {scope : Scope}
    (closes : pair.boundary? n = some (.closes scope)) :
    recipients plugins writers n =
      (plugins.filter (·.interfaces.contains pair.closing)).reverse.map Listener.plugin ++
        if n = .beforeHarnessShutdown then writers.map .writer else [] := by
  rw [← interface_of_closes closes]
  unfold boundary? at closes
  split at closes <;> first | (cases closes; done) | simp [recipients]

/-- An opening event reaches the plugins that implement the pair in the order of registration. -/
theorem boundaries_of_opens {n : Notification} {scope : Scope}
    (opens : pair.boundary? n = some (.opens scope)) :
    (recipients plugins writers n).filterMap (pair.boundaryOf? · n) =
      (plugins.filter pair.implementedBy).map (·, .opens scope) := by
  rw [recipients_of_opens opens, boundaries_of_plugins opens, implementers_of_opening]

/-- A closing event reaches them in the reverse order. -/
theorem boundaries_of_closes {n : Notification} {scope : Scope}
    (closes : pair.boundary? n = some (.closes scope)) :
    (recipients plugins writers n).filterMap (pair.boundaryOf? · n) =
      (plugins.filter pair.implementedBy).reverse.map (·, .closes scope) := by
  have none : (if n = .beforeHarnessShutdown then writers.map Listener.writer else []).filterMap
      (pair.boundaryOf? · n) = [] := by
    split
    · exact boundaries_of_writers n
    · rfl
  rw [recipients_of_closes closes, List.filterMap_append, none, List.append_nil,
    boundaries_of_plugins closes, List.filter_reverse, implementers_of_closing]

section Runs

variable (h : Harness π)

theorem script_opens {n : Notification} {scope : Scope}
    (opens : pair.boundary? n = some (.opens scope)) :
    Script (watching pair.boundaryOf?) ((plugins.filter pair.implementedBy).map (·, .opens scope))
      ((h.registering plugins writers).notify n) := by
  have recipients := @boundaries_of_opens pair plugins writers n scope opens
  rw [← recipients, ← of_registering h]
  exact script_notify _ n

theorem script_closes {n : Notification} {scope : Scope}
    (closes : pair.boundary? n = some (.closes scope)) :
    Script (watching pair.boundaryOf?)
      ((plugins.filter pair.implementedBy).reverse.map (·, .closes scope))
      ((h.registering plugins writers).notify n) := by
  have recipients := @boundaries_of_closes pair plugins writers n scope closes
  rw [← recipients, ← of_registering h]
  exact script_notify _ n

theorem unseen_of_no_boundary {n : Notification} (none : pair.boundary? n = none) :
    Unseen (watching pair.boundaryOf?) (h.notify n) := by
  refine unseen_notify fun l => ?_
  cases l with
  | writer _ => rfl
  | plugin p =>
      unfold boundaryOf?
      split <;> simp [none]

theorem unseen_requested (b : String) (i : Int) :
    Unseen (watching pair.boundaryOf?) (h.notifyOnMeasurementResultsRequested b i) := by
  have noResult : ∀ l b m value, pair.boundaryOf? l (.onMeasurementResult b m value) = none := by
    intro l b m value
    cases l <;> cases pair <;> simp [boundaryOf?, boundary?]
  have noRequest : ∀ l, pair.boundaryOf? l (.onMeasurementResultsRequested b i) = none := by
    intro l
    cases l <;> cases pair <;> simp [boundaryOf?, boundary?]
  exact (unseen_callSteps h).onMeasurementResultsRequested b i
    (fun l _ => unseen_emit (noRequest l)) fun b m value l _ => unseen_deliver (noResult l b m value)

theorem unseen_executeOperation (other : pair ≠ .operation) (b : String) (i : Int) :
    Unseen (watching pair.boundaryOf?) (h.executeOperation b i) := by
  refine ((unseen_callSteps h).operationSteps (fun _ _ => ?_) (fun _ _ => ?_) (fun _ _ => ?_)
    (unseen_requested h b)).executeOperation i
  · exact unseen_of_no_boundary h (by cases pair <;> first | rfl | exact absurd rfl other)
  · exact unseen_of_no_boundary h (by cases pair <;> first | rfl | exact absurd rfl other)
  · exact unseen_of_no_boundary h (by cases pair <;> rfl)

theorem unseen_executeOperations (other : pair ≠ .operation) (fuel : Nat) (b : String) :
    Unseen (watching pair.boundaryOf?) (h.executeOperations fuel b) :=
  ((unseen_callSteps h).loopSteps (unseen_executeOperation h other b)).executeOperations fuel

theorem unseen_executeBenchmark (fuel : Nat) (b : String) :
    Unseen (watching harness.boundaryOf?) (h.executeBenchmark fuel b) :=
  ((unseen_callSteps h).benchmarkSteps (unseen_of_no_boundary h rfl) (unseen_of_no_boundary h rfl)
    (unseen_executeOperation h (by decide) b) (unseen_of_no_boundary h rfl)
    (unseen_of_no_boundary h rfl)).executeBenchmark fuel

/-- One operation shows the intervals over that operation. -/
theorem script_executeOperation (b : String) (i : Int) :
    Script (watching operation.boundaryOf?) (operation.intervals plugins (.operation b i))
      ((h.registering plugins writers).executeOperation b i) := by
  have steps : CallSteps (h.registering plugins writers) _ :=
    unseen_callSteps (g := operation.boundaryOf?) (h.registering plugins writers)
  refine (steps.callBenchmark _ b).bind fun _ => (steps.isLast b i).bind fun isLastOp => ?_
  refine script_bind (script_opens h rfl) fun _ => ?_
  refine steps.nanoTime.bind fun startNanos => (steps.callBenchmark _ b).bind fun _ => ?_
  refine steps.nanoTime.bind fun endNanos => ?_
  refine (script_closes h rfl).bind_unseen fun _ => ?_
  refine closed_unseen.bind (steps.callBenchmark _ b) fun _ => ?_
  refine closed_unseen.bind (steps.validate _) fun _ => ?_
  refine closed_unseen.bind (unseen_of_no_boundary _ rfl) fun _ => ?_
  refine closed_unseen.bind (unseen_of_no_boundary _ rfl) fun _ => ?_
  exact closed_unseen.bind (unseen_requested _ b i) fun _ => closed_unseen.pure _

/-- The intervals between the set up and the tear down of a benchmark. -/
theorem script_executeBenchmark_setUp (fuel : Nat) (b : String) :
    Script (watching benchmarkSetUp.boundaryOf?) (benchmarkSetUp.intervals plugins (.benchmark b))
      ((h.registering plugins writers).executeBenchmark fuel b) := by
  have steps : CallSteps (h.registering plugins writers) _ :=
    unseen_callSteps (g := benchmarkSetUp.boundaryOf?) (h.registering plugins writers)
  refine (unseen_of_no_boundary _ rfl).bind fun _ => script_tryFinally_body ?_
    (unseen_of_no_boundary _ rfl)
  refine (steps.callBenchmark _ b).bind fun _ => script_tryFinally_body ?_ (steps.callBenchmark _ b)
  refine script_bind (script_opens h rfl) fun _ => script_tryFinally_last ?_ (script_closes h rfl)
  exact unseen_executeOperations _ (by decide) fuel b

theorem script_executeBenchmark (fuel : Nat) (b : String) :
    Script (watching benchmark.boundaryOf?) (benchmark.intervals plugins (.benchmark b))
      ((h.registering plugins writers).executeBenchmark fuel b) := by
  have steps : CallSteps (h.registering plugins writers) _ :=
    unseen_callSteps (g := benchmark.boundaryOf?) (h.registering plugins writers)
  refine script_bind (script_opens h rfl) fun _ => script_tryFinally_last ?_ (script_closes h rfl)
  refine closed_unseen.bind (steps.callBenchmark _ b) fun _ =>
    closed_unseen.tryFinally ?_ (steps.callBenchmark _ b)
  refine closed_unseen.bind (unseen_of_no_boundary _ rfl) fun _ =>
    closed_unseen.tryFinally ?_ (unseen_of_no_boundary _ rfl)
  exact unseen_executeOperations _ (by decide) fuel b

theorem script_runBenchmarks (fuel : Nat) (benchmarks : List BenchmarkDescriptor) :
    Script (watching harness.boundaryOf?) (harness.intervals plugins .harness)
      ((h.registering plugins writers).runBenchmarks fuel benchmarks) := by
  have steps : CallSteps (h.registering plugins writers) _ :=
    unseen_callSteps (g := harness.boundaryOf?) (h.registering plugins writers)
  refine script_bind (script_opens h rfl) fun _ => ?_
  refine Unseen.bind ?_ fun failed =>
    (script_closes h rfl).bind_unseen fun _ => closed_unseen.pure failed
  exact (steps.suiteSteps (unseen_executeBenchmark _) fun _ =>
    unseen_of_no_boundary _ rfl).runEach fuel [] benchmarks

theorem nested_callSteps (pair : ListenerPair) (plugins : List Plugin) :
    CallSteps h (fun {α} (m : Action π α) => ∀ w, pair.ProperlyNested plugins (m w).trace) where
  closed := closed_episodes _
  step f outside := ((unseen_callSteps h).step f outside).episodes
  emit e plain := ((unseen_callSteps h).emit e plain).episodes
  outOfFuel := (unseen_callSteps h).outOfFuel.episodes

/-- Over every run the intervals of the plugins are properly nested. -/
theorem properlyNested_runBenchmarks (pair : ListenerPair) (fuel : Nat)
    (benchmarks : List BenchmarkDescriptor) (w : World π) :
    pair.ProperlyNested plugins
      ((h.registering plugins writers).runBenchmarks fuel benchmarks w).trace := by
  have calls := nested_callSteps (h.registering plugins writers) pair plugins
  have unseen : ∀ {n}, pair.boundary? n = none → ∀ w, pair.ProperlyNested plugins
      ((h.registering plugins writers).notify n w).trace :=
    fun none => (unseen_of_no_boundary _ none).episodes
  cases pair with
  | harness => exact (script_runBenchmarks h fuel benchmarks).episodes ⟨_, rfl⟩ w
  | benchmark =>
      refine (calls.suiteSteps (fun fuel b => ?_) fun _ => unseen rfl).runBenchmarks (unseen rfl)
        (unseen rfl) fuel benchmarks w
      exact (script_executeBenchmark h fuel b).episodes ⟨_, rfl⟩
  | benchmarkSetUp =>
      refine (calls.suiteSteps (fun fuel b => ?_) fun _ => unseen rfl).runBenchmarks (unseen rfl)
        (unseen rfl) fuel benchmarks w
      exact (script_executeBenchmark_setUp h fuel b).episodes ⟨_, rfl⟩
  | operation =>
      refine (calls.suiteSteps (fun fuel b => ?_) fun _ => unseen rfl).runBenchmarks (unseen rfl)
        (unseen rfl) fuel benchmarks w
      refine (calls.benchmarkSteps (unseen rfl) (unseen rfl) (fun i => ?_) (unseen rfl)
        (unseen rfl)).executeBenchmark fuel
      exact (script_executeOperation h b i).episodes ⟨_, rfl⟩

end Runs

end ListenerPair

/-! ## Nobody else is told -/

/-- See the deliveries to listeners that are not meant. -/
def strays (meant : Notification → List Listener) : Event → Option (Listener × Notification) :=
  watching fun l n => if l ∈ meant n then none else some (l, n)

theorem no_strays (h : Harness π) (plugins : List Plugin) (writers : List Nat) (fuel : Nat)
    (benchmarks : List BenchmarkDescriptor) (w : World π) (l : Listener) (n : Notification)
    (told : .call (.deliver l n) ∈
      ((h.registering plugins writers).runBenchmarks fuel benchmarks w).trace) :
    l ∈ recipients plugins writers n := by
  have steps : RunSteps (h.registering plugins writers)
      (fun {α} (m : Action π α) => Unseen (strays (recipients plugins writers)) m) :=
    { unseen_callSteps (h.registering plugins writers) with
      deliver := fun n _ l mem => unseen_deliver (if_pos (by rwa [of_registering h] at mem))
      request := fun l mem b i => unseen_emit (if_pos (by
        rw [← of_registering h]
        exact mem)) }
  have unseen := steps.runBenchmarks (steps.executeOperation fun b m value l mem =>
    unseen_deliver (if_pos (by
      rw [← of_registering h]
      exact mem))) fuel benchmarks w _ told
  by_contra other
  simp [strays, watching, other] at unseen

/-! ## The dispatcher wraps -/

/-- Of two plugins that implement both interfaces of a pair the one registered first hears the opening
event first and the closing event last. -/
def ListenerPair.Wraps (pair : ListenerPair) (plugins : List Plugin) (writers : List Nat) : Prop :=
  ∀ P Q, [P, Q].Sublist plugins → pair.implementedBy P → pair.implementedBy Q → ∀ n scope,
    (pair.boundary? n = some (.opens scope) →
      [.plugin P, .plugin Q].Sublist (recipients plugins writers n)) ∧
    (pair.boundary? n = some (.closes scope) →
      [.plugin Q, .plugin P].Sublist (recipients plugins writers n))

theorem wraps (pair : ListenerPair) (plugins : List Plugin) (writers : List Nat) :
    pair.Wraps plugins writers := by
  intro P Q order implementsP implementsQ n scope
  have halvesP : P.interfaces.contains pair.opening = true ∧ P.interfaces.contains pair.closing = true := by
    simpa [ListenerPair.implementedBy] using implementsP
  have halvesQ : Q.interfaces.contains pair.opening = true ∧ Q.interfaces.contains pair.closing = true := by
    simpa [ListenerPair.implementedBy] using implementsQ
  constructor
  · intro opens
    have kept := (order.filter (·.interfaces.contains pair.opening)).map Listener.plugin
    simp only [List.filter_cons, halvesP, halvesQ, if_true, List.filter_nil] at kept
    rw [ListenerPair.recipients_of_opens opens]
    exact kept
  · intro closes
    have kept := (order.filter (·.interfaces.contains pair.closing)).reverse.map Listener.plugin
    simp only [List.filter_cons, halvesP, halvesQ, if_true, List.filter_nil] at kept
    rw [ListenerPair.recipients_of_closes closes]
    exact kept.trans (List.sublist_append_left _ _)

/-- The dispatcher built from plugins and result writers sends every notification to exactly those
that implement its interface, in the order in which plugins wrap each other, until one of them
throws. -/
theorem createEventDispatcher_wraps (h : Harness π) (plugins : List Plugin) (writers : List Nat) :
    (∀ n w, Reaches n (recipients plugins writers n)
      ((h.registering plugins writers).send n w)) ∧
    (∀ b m value w, Reaches (.onMeasurementResult b m value)
      (recipients plugins writers (.onMeasurementResult b m value))
      ((h.registering plugins writers).dispatch b m value w)) ∧
    (∀ pair : ListenerPair, pair.Wraps plugins writers) ∧
    ∀ fuel benchmarks w,
      let t := ((h.registering plugins writers).runBenchmarks fuel benchmarks w).trace
      (∀ pair : ListenerPair, pair.ProperlyNested plugins t) ∧
      ∀ l n, .call (.deliver l n) ∈ t → l ∈ recipients plugins writers n := by
  refine ⟨reaches_send h plugins writers, reaches_dispatch h plugins writers,
    fun pair => wraps pair plugins writers, fun fuel benchmarks w => ⟨fun pair => ?_, ?_⟩⟩
  · exact ListenerPair.properlyNested_runBenchmarks h pair fuel benchmarks w
  · exact no_strays h plugins writers fuel benchmarks w

/-- Two plugins that listen to the start of the harness. -/
def initListeners : List Plugin :=
  ["First", "Second"].map fun className =>
    .external { specifier := ⟨[className], none⟩, className, interfaces := [.afterHarnessInitListener] }

/-- The plugin "First" throws when it is told that the harness starts. -/
def throwingInit : Env Unit :=
  { Env.calm 0 with
    listener := fun p _ s =>
      (if p.className = "First" then
          .error { simpleName := "RuntimeException", message := "", isValidation := false }
        else .ok (), s) }

/-- A plugin that throws keeps the plugins after it from being told. -/
theorem notification_cut_short :
    let h : Harness Unit := { env := throwingInit, dispatcher := {}, policy := .builtin, vmStartNanos := 0 }
    let run := (h.registering initListeners []).send .afterHarnessInit
      { env := (), policy := .fixedOpCount { countLimitProvider := fun _ => 0 } }
    recipients initListeners [] .afterHarnessInit = initListeners.map .plugin ∧
      reached .afterHarnessInit run.trace ≠ recipients initListeners [] .afterHarnessInit := by
  refine ⟨rfl, ?_⟩
  decide

end Renaissance
