import Mathlib.Data.List.Basic

/-!
# Plugins and their notifications

The listener interfaces of `Plugin`, the notifications that the harness sends through them, and the
objects that receive them: external plugins, the built-in plugins and the result writers.
-/

namespace Renaissance

/-- What the harness reads of an exception: its class name, its message, and whether it is a
`ValidationException`. -/
structure Throwable where
  simpleName : String
  message : String
  isValidation : Bool
deriving DecidableEq, Repr

/-- The interfaces nested in `Plugin`. -/
inductive Interface where
  | afterHarnessInitListener | beforeHarnessShutdownListener
  | beforeBenchmarkSetUpListener | afterBenchmarkTearDownListener
  | afterBenchmarkSetUpListener | beforeBenchmarkTearDownListener
  | afterOperationSetUpListener | beforeOperationTearDownListener
  | measurementResultListener | measurementResultPublisher
  | benchmarkFailureListener
  | executionPolicy
deriving DecidableEq, Repr

/-- A call of the one method of a listener interface, with its arguments. The callback argument of
`onMeasurementResultsRequested` is the dispatcher itself and is not repeated here. -/
inductive Notification where
  | afterHarnessInit
  | beforeHarnessShutdown
  | beforeBenchmarkSetUp (benchmark : String)
  | afterBenchmarkTearDown (benchmark : String)
  | afterBenchmarkSetUp (benchmark : String)
  | beforeBenchmarkTearDown (benchmark : String)
  | afterOperationSetUp (benchmark : String) (opIndex : Int) (isLastOp : Bool)
  | beforeOperationTearDown (benchmark : String) (opIndex durationNanos : Int)
  | onMeasurementResult (benchmark metric : String) (value : Int)
  | onMeasurementResultsRequested (benchmark : String) (opIndex : Int)
  | onBenchmarkFailure (benchmark : String)
deriving DecidableEq, Repr

/-- The interface that declares the method. -/
def Notification.interface : Notification → Interface
  | .afterHarnessInit => .afterHarnessInitListener
  | .beforeHarnessShutdown => .beforeHarnessShutdownListener
  | .beforeBenchmarkSetUp _ => .beforeBenchmarkSetUpListener
  | .afterBenchmarkTearDown _ => .afterBenchmarkTearDownListener
  | .afterBenchmarkSetUp _ => .afterBenchmarkSetUpListener
  | .beforeBenchmarkTearDown _ => .beforeBenchmarkTearDownListener
  | .afterOperationSetUp .. => .afterOperationSetUpListener
  | .beforeOperationTearDown .. => .beforeOperationTearDownListener
  | .onMeasurementResult .. => .measurementResultListener
  | .onMeasurementResultsRequested .. => .measurementResultPublisher
  | .onBenchmarkFailure _ => .benchmarkFailureListener

/-- Where to find a plugin's code and, optionally, which class to instantiate. -/
structure PluginSpecifier where
  paths : List String
  className : Option String
deriving DecidableEq, Repr

/-- An instance of a plugin class. The specifier it was loaded through tells instances apart. -/
structure ExternalPlugin where
  specifier : PluginSpecifier
  className : String
  interfaces : List Interface
deriving DecidableEq, Repr

/-- The classes of `ExecutionPolicies`. -/
inductive PolicyClass where
  | fixedOpCount | fixedTime | fixedOpTime
deriving DecidableEq, Repr

inductive Plugin where
  | forceGc
  | builtinPolicy (cls : PolicyClass)
  | external (p : ExternalPlugin)
deriving DecidableEq, Repr

/-- The interfaces that a plugin's class implements. -/
def Plugin.interfaces : Plugin → List Interface
  | .forceGc => [.afterOperationSetUpListener]
  | .builtinPolicy .fixedOpCount => [.executionPolicy, .afterBenchmarkSetUpListener]
  | .builtinPolicy .fixedTime | .builtinPolicy .fixedOpTime =>
      [.executionPolicy, .afterBenchmarkSetUpListener, .beforeOperationTearDownListener]
  | .external p => p.interfaces

/-- An object registered with the dispatcher. Result writers are told apart by their position in the
sequence of writers. -/
inductive Listener where
  | plugin (p : Plugin)
  | writer (index : Nat)
deriving DecidableEq, Repr

/-- `interface.isInstance(listener)`. -/
def Listener.isInstance : Listener → Interface → Bool
  | .plugin p, interface => p.interfaces.contains interface
  | .writer _, interface =>
      [Interface.beforeHarnessShutdownListener, .measurementResultListener,
        .benchmarkFailureListener].contains interface

end Renaissance
