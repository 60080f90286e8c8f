import Renaissance.Harness.Plugin

/-!
# The event dispatcher

`EventDispatcher` holds one list of listeners for each interface, and `EventDispatcher.Builder`
fills them. The listener type `α` is a parameter, and so is the test `isInstance`.

Result: `listeners_createEventDispatcher` says what each list holds once plugins and writers are
registered. The lists of closing events are in the opposite order of the lists of opening events.
-/

namespace Renaissance

/-- One list for each listener interface, under the names of the source. -/
structure ListenerLists (α : Type) where
  afterHarnessInitListeners : List α := []
  beforeHarnessShutdownListeners : List α := []
  beforeBenchmarkSetUpListeners : List α := []
  afterBenchmarkTearDownListeners : List α := []
  afterBenchmarkSetUpListeners : List α := []
  beforeBenchmarkTearDownListeners : List α := []
  afterOperationSetUpListeners : List α := []
  beforeOperationTearDownListeners : List α := []
  measurementResultListeners : List α := []
  measurementResultPublishers : List α := []
  benchmarkFailureListeners : List α := []

/-- The dispatcher copies the lists of its builder into arrays. -/
abbrev EventDispatcher (α : Type) := ListenerLists α

abbrev EventDispatcher.Builder (α : Type) := ListenerLists α

/-- The list that a notification of the interface goes through. -/
def ListenerLists.of {α : Type} (lists : ListenerLists α) : Interface → List α
  | .afterHarnessInitListener => lists.afterHarnessInitListeners
  | .beforeHarnessShutdownListener => lists.beforeHarnessShutdownListeners
  | .beforeBenchmarkSetUpListener => lists.beforeBenchmarkSetUpListeners
  | .afterBenchmarkTearDownListener => lists.afterBenchmarkTearDownListeners
  | .afterBenchmarkSetUpListener => lists.afterBenchmarkSetUpListeners
  | .beforeBenchmarkTearDownListener => lists.beforeBenchmarkTearDownListeners
  | .afterOperationSetUpListener => lists.afterOperationSetUpListeners
  | .beforeOperationTearDownListener => lists.beforeOperationTearDownListeners
  | .measurementResultListener => lists.measurementResultListeners
  | .measurementResultPublisher => lists.measurementResultPublishers
  | .benchmarkFailureListener => lists.benchmarkFailureListeners
  | .executionPolicy => []

namespace EventDispatcher.Builder

variable {α : Type} (isInstance : α → Interface → Bool)

def prependInstanceOf (plugin : α) (interface : Interface) (listeners : List α) : List α :=
  if isInstance plugin interface then plugin :: listeners else listeners

def appendInstanceOf (plugin : α) (interface : Interface) (listeners : List α) : List α :=
  if isInstance plugin interface then listeners ++ [plugin] else listeners

/-- Pair events are added to opposite ends of the lists. -/
def withPlugin (builder : Builder α) (plugin : α) : Builder α where
  afterHarnessInitListeners :=
    appendInstanceOf isInstance plugin .afterHarnessInitListener builder.afterHarnessInitListeners
  beforeHarnessShutdownListeners :=
    prependInstanceOf isInstance plugin .beforeHarnessShutdownListener
      builder.beforeHarnessShutdownListeners
  beforeBenchmarkSetUpListeners :=
    appendInstanceOf isInstance plugin .beforeBenchmarkSetUpListener
      builder.beforeBenchmarkSetUpListeners
  afterBenchmarkTearDownListeners :=
    prependInstanceOf isInstance plugin .afterBenchmarkTearDownListener
      builder.afterBenchmarkTearDownListeners
  afterBenchmarkSetUpListeners :=
    appendInstanceOf isInstance plugin .afterBenchmarkSetUpListener
      builder.afterBenchmarkSetUpListeners
  beforeBenchmarkTearDownListeners :=
    prependInstanceOf isInstance plugin .beforeBenchmarkTearDownListener
      builder.beforeBenchmarkTearDownListeners
  afterOperationSetUpListeners :=
    appendInstanceOf isInstance plugin .afterOperationSetUpListener
      builder.afterOperationSetUpListeners
  beforeOperationTearDownListeners :=
    prependInstanceOf isInstance plugin .beforeOperationTearDownListener
      builder.beforeOperationTearDownListeners
  measurementResultListeners :=
    appendInstanceOf isInstance plugin .measurementResultListener builder.measurementResultListeners
  measurementResultPublishers :=
    appendInstanceOf isInstance plugin .measurementResultPublisher
      builder.measurementResultPublishers
  benchmarkFailureListeners :=
    appendInstanceOf isInstance plugin .benchmarkFailureListener builder.benchmarkFailureListeners

def withResultWriter (builder : Builder α) (writer : α) : Builder α :=
  { builder with
    beforeHarnessShutdownListeners := builder.beforeHarnessShutdownListeners ++ [writer]
    measurementResultListeners := builder.measurementResultListeners ++ [writer]
    benchmarkFailureListeners := builder.benchmarkFailureListeners ++ [writer] }

def build (builder : Builder α) : EventDispatcher α :=
  builder

end EventDispatcher.Builder

open EventDispatcher EventDispatcher.Builder

section Registration

variable {α : Type} (isInstance : α → Interface → Bool)

/-- Plugins first, result writers after them. -/
def createEventDispatcher (plugins writers : List α) : EventDispatcher α :=
  (writers.foldl withResultWriter (plugins.foldl (withPlugin isInstance) {})).build

/-- The end of the list at which `withPlugin` puts a plugin. -/
def Interface.closing : Interface → Bool
  | .beforeHarnessShutdownListener | .afterBenchmarkTearDownListener
  | .beforeBenchmarkTearDownListener | .beforeOperationTearDownListener => true
  | _ => false

/-- The interfaces that `withResultWriter` registers a writer for. -/
def Interface.forWriters : Interface → Bool
  | .beforeHarnessShutdownListener | .measurementResultListener | .benchmarkFailureListener => true
  | _ => false

/-- The plugins that a notification of the interface reaches, in the order of delivery. -/
def pluginsFor (plugins : List α) (interface : Interface) : List α :=
  let implementers := plugins.filter (isInstance · interface)
  if interface.closing then implementers.reverse else implementers

variable {isInstance}

theorem of_withPlugin {builder : Builder α} {plugin : α} {interface : Interface}
    (listening : interface ≠ .executionPolicy) :
    (withPlugin isInstance builder plugin).of interface =
      if isInstance plugin interface then
        if interface.closing then plugin :: builder.of interface
        else builder.of interface ++ [plugin]
      else builder.of interface := by
  cases interface with
  | executionPolicy => exact absurd rfl listening
  | _ => rfl

theorem of_withPlugins {plugins : List α} {builder : Builder α} {interface : Interface}
    (listening : interface ≠ .executionPolicy) :
    (plugins.foldl (withPlugin isInstance) builder).of interface =
      if interface.closing then pluginsFor isInstance plugins interface ++ builder.of interface
      else builder.of interface ++ pluginsFor isInstance plugins interface := by
  induction plugins generalizing builder with
  | nil => simp [pluginsFor]
  | cons plugin plugins ih =>
      rw [List.foldl_cons, ih, of_withPlugin listening]
      by_cases implemented : isInstance plugin interface <;>
        by_cases closing : interface.closing <;>
          simp [pluginsFor, implemented, closing]

theorem of_withResultWriters {writers : List α} {builder : Builder α} {interface : Interface} :
    (writers.foldl withResultWriter builder).of interface =
      builder.of interface ++ if interface.forWriters then writers else [] := by
  induction writers generalizing builder with
  | nil => simp
  | cons writer writers ih =>
      rw [List.foldl_cons, ih]
      cases interface <;> simp [Interface.forWriters, ListenerLists.of, withResultWriter]

/-- The listeners of a notification: the plugins that implement its interface, in registration order
or in its reverse, and after them the writers. -/
theorem listeners_createEventDispatcher {plugins writers : List α} {interface : Interface}
    (listening : interface ≠ .executionPolicy) :
    (createEventDispatcher isInstance plugins writers).of interface =
      pluginsFor isInstance plugins interface ++ if interface.forWriters then writers else [] := by
  rw [createEventDispatcher, build, of_withResultWriters, of_withPlugins listening]
  cases interface <;> simp [ListenerLists.of]

end Registration

end Renaissance
