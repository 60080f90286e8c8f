import Renaissance.Harness.World

/-!
# Sending notifications

The `notify` methods of `EventDispatcher` walk over one list of listeners and call each of them, until
one throws. What a listener does depends on what it is: a result writer, a built-in plugin or an
external one.
-/

namespace Renaissance

open Traced

/-- The policy that the driver asks: the built-in instance or an external plugin. -/
inductive ExecutionPolicy where
  | builtin
  | external (p : ExternalPlugin)
deriving DecidableEq, Repr

/-- What stays fixed during a harness run. -/
structure Harness (π : Type) where
  env : Env π
  dispatcher : EventDispatcher Listener
  policy : ExecutionPolicy
  vmStartNanos : Int

variable {π : Type}

/-! ## Listeners -/

/-- `storeResults` of the writer at position `index`. -/
def storeResults (env : Env π) (index : Nat) (normalTermination : Bool) : Action π Unit := do
  if normalTermination then
    modifyWriter index fun writer => { writer with storeHook := false }
  match ← getWriter index with
  | none => pure ()
  | some writer =>
      match writer.storeDecision normalTermination with
      | .exit message =>
          emit (.stderr message)
          stop (.exit 1)
      | .store normalTermination =>
          invoke (.store index normalTermination) do
            let content ← fromExcept (writer.store env.jvm normalTermination)
            emit (.written index content)

def writerHandle (env : Env π) (index : Nat) : Notification → Action π Unit
  | .onMeasurementResult benchmark metric value =>
      modifyWriter index fun writer => writer.onMeasurementResult benchmark metric value
  | .onBenchmarkFailure benchmark =>
      modifyWriter index fun writer => writer.onBenchmarkFailure benchmark
  | .beforeHarnessShutdown => storeResults env index true
  | _ => pure ()

/-- The listener methods of the built-in policies. -/
def policyHandle (env : Env π) (notification : Notification) : Action π Unit := do
  match ← getPolicy, notification with
  | .fixedOpCount policy, .afterBenchmarkSetUp benchName =>
      setPolicy (.fixedOpCount (policy.afterBenchmarkSetUp benchName))
  | .fixedTime policy, .afterBenchmarkSetUp benchName =>
      let now ← nanoTime env
      emit (.timeStart benchName now)
      setPolicy (.fixedTime (policy.afterBenchmarkSetUp now))
  | .fixedTime policy, .beforeOperationTearDown benchmark _ _ =>
      let now ← nanoTime env
      emit (.timeCheck benchmark now (policy.elapsed now))
      setPolicy (.fixedTime (policy.beforeOperationTearDown now))
  | .fixedOpTime policy, .afterBenchmarkSetUp _ =>
      setPolicy (.fixedOpTime policy.afterBenchmarkSetUp)
  | .fixedOpTime policy, .beforeOperationTearDown benchmark _ durationNanos =>
      emit (.timeCheck benchmark durationNanos (policy.elapsed durationNanos))
      setPolicy (.fixedOpTime (policy.beforeOperationTearDown durationNanos))
  | _, _ => pure ()

/-- `ForceGcPlugin.collectGarbage` reads the clock around the collection; the line it prints is not
recorded. -/
def collectGarbage (env : Env π) : Action π Unit := do
  let _ ← nanoTime env
  let _ ← nanoTime env
  pure ()

def forceGcHandle (env : Env π) : Notification → Action π Unit
  | .afterOperationSetUp .. => collectGarbage env
  | _ => pure ()

/-- The method of the listener that the notification calls. -/
def handle (env : Env π) : Listener → Notification → Action π Unit
  | .writer index, notification => writerHandle env index notification
  | .plugin .forceGc, notification => forceGcHandle env notification
  | .plugin (.builtinPolicy _), notification => policyHandle env notification
  | .plugin (.external p), notification => external (env.listener p notification)

def deliver (env : Env π) (notification : Notification) (listener : Listener) : Action π Unit :=
  invoke (.deliver listener notification) (handle env listener notification)

/-! ## The dispatcher -/

namespace Harness

variable (h : Harness π)

/-- Every `notify` method but the one that asks for results. -/
def notify (notification : Notification) : Action π Unit :=
  invoke (.notify notification)
    (forEach (h.dispatcher.of notification.interface) (deliver h.env notification))

def notifyAfterHarnessInit : Action π Unit :=
  h.notify .afterHarnessInit

def notifyBeforeHarnessShutdown : Action π Unit :=
  h.notify .beforeHarnessShutdown

def notifyBeforeBenchmarkSetUp (benchName : String) : Action π Unit :=
  h.notify (.beforeBenchmarkSetUp benchName)

def notifyAfterBenchmarkTearDown (benchName : String) : Action π Unit :=
  h.notify (.afterBenchmarkTearDown benchName)

def notifyAfterBenchmarkSetUp (benchName : String) : Action π Unit :=
  h.notify (.afterBenchmarkSetUp benchName)

def notifyBeforeBenchmarkTearDown (benchName : String) : Action π Unit :=
  h.notify (.beforeBenchmarkTearDown benchName)

def notifyAfterOperationSetUp (benchName : String) (opIndex : Int) (isLastOp : Bool) :
    Action π Unit :=
  h.notify (.afterOperationSetUp benchName opIndex isLastOp)

def notifyBeforeOperationTearDown (benchName : String) (opIndex durationNanos : Int) :
    Action π Unit :=
  h.notify (.beforeOperationTearDown benchName opIndex durationNanos)

def notifyOnMeasurementResult (benchName metric : String) (value : Int) : Action π Unit :=
  h.notify (.onMeasurementResult benchName metric value)

def notifyOnBenchmarkFailure (benchName : String) : Action π Unit :=
  h.notify (.onBenchmarkFailure benchName)

/-- The callback `eventDispatcher::notifyOnMeasurementResult` in the hands of a publisher. -/
def dispatch (benchName metric : String) (value : Int) : Action π Unit :=
  invoke (.dispatch benchName metric value)
    (forEach h.dispatcher.measurementResultListeners
      (deliver h.env (.onMeasurementResult benchName metric value)))

def runPublication : Publication → Action π Unit
  | .finish result => fromExcept result
  | .publish benchmark metric value next => do
      let result ← attempt (h.dispatch benchmark metric value)
      runPublication (next result)

/-- `onMeasurementResultsRequested` of a registered publisher. -/
def publish (benchName : String) (opIndex : Int) : Listener → Action π Unit
  | .plugin (.external p) => do
      let publication ← step fun w =>
        ((h.env.publisher p benchName opIndex w.env).1,
          { w with env := (h.env.publisher p benchName opIndex w.env).2 })
      h.runPublication publication
  | _ => pure ()

def notifyOnMeasurementResultsRequested (benchName : String) (opIndex : Int) : Action π Unit :=
  let notification := Notification.onMeasurementResultsRequested benchName opIndex
  invoke (.notify notification)
    (forEach (h.dispatcher.of notification.interface) fun listener =>
      invoke (.deliver listener notification) (h.publish benchName opIndex listener))

end Harness

/-! ## Registration -/

/-- The listeners of a notification in the order in which they hear it: the plugins that implement
its interface, in the order of registration for an opening event and in its reverse for a closing
event, and after them the result writers. -/
def recipients (plugins : List Plugin) (writers : List Nat) (n : Notification) : List Listener :=
  let implementers := (plugins.filter (·.interfaces.contains n.interface)).map Listener.plugin
  match n with
  | .afterHarnessInit | .beforeBenchmarkSetUp _ | .afterBenchmarkSetUp _ | .afterOperationSetUp ..
  | .onMeasurementResultsRequested .. => implementers
  | .afterBenchmarkTearDown _ | .beforeBenchmarkTearDown _ | .beforeOperationTearDown .. =>
      implementers.reverse
  | .beforeHarnessShutdown => implementers.reverse ++ writers.map .writer
  | .onMeasurementResult .. | .onBenchmarkFailure _ => implementers ++ writers.map .writer

/-- The harness with the dispatcher that is built from the plugins and the result writers. -/
def Harness.registering (h : Harness π) (plugins : List Plugin) (writers : List Nat) : Harness π :=
  { h with
    dispatcher := createEventDispatcher Listener.isInstance (plugins.map .plugin)
      (writers.map .writer) }

theorem of_registering (h : Harness π) (plugins : List Plugin) (writers : List Nat)
    (n : Notification) :
    (h.registering plugins writers).dispatcher.of n.interface = recipients plugins writers n := by
  have listening : n.interface ≠ .executionPolicy := by cases n <;> simp [Notification.interface]
  have implementers : (plugins.map Listener.plugin).filter (Listener.isInstance · n.interface) =
      (plugins.filter (·.interfaces.contains n.interface)).map Listener.plugin := by
    rw [List.filter_map]
    rfl
  rw [Harness.registering, listeners_createEventDispatcher listening, pluginsFor, implementers]
  cases n <;>
    simp [recipients, Notification.interface, Interface.closing, Interface.forWriters]

end Renaissance
