import Renaissance.Lib.Exec
import Renaissance.Harness.EventDispatcher
import Renaissance.Harness.ExecutionPolicies
import Renaissance.Harness.ResultWriter

/-!
# The world of a harness run

The calls that the harness makes, the events that a run leaves behind, and the code outside the
harness: benchmarks, external plugins and the clock. External code is an arbitrary function of its
own state `π`, so a statement about every `Env π` is a statement about every benchmark, plugin and
policy, and about every choice of the calls that throw.
-/

namespace Renaissance

open Traced

/-- The methods of a benchmark that the harness calls by name. -/
inductive BenchmarkMethod where
  | setUpBeforeAll | setUpBeforeEach | run | tearDownAfterEach | tearDownAfterAll
deriving DecidableEq, Repr

/-- One execution of the measured operation: the local variables of `executeOperation` from which
the results are reported. -/
structure Operation where
  benchmark : String
  index : Int
  startNanos : Int
  durationNanos : Int
deriving DecidableEq, Repr

/-- The calls that a run records. `notify` is a notification that the driver or the harness asks the
dispatcher for, `dispatch` is one that a publisher asks for through its callback, and `deliver` is
the call of one listener's method. -/
inductive Call where
  | create (benchmark : String)
  | executeBenchmark (benchmark : String)
  | benchmark (method : BenchmarkMethod) (benchmark : String)
  | validate (operation : Operation)
  | canExecute (benchmark : String) (opIndex : Int)
  | isLast (benchmark : String) (opIndex : Int)
  | notify (notification : Notification)
  | dispatch (benchmark metric : String) (value : Int)
  | deliver (listener : Listener) (notification : Notification)
  | store (writer : Nat) (normalTermination : Bool)
deriving DecidableEq, Repr

/-- The lines that the driver prints. -/
inductive Line where
  | started (benchmark : String) (opIndex : Int)
  | completed (benchmark : String) (opIndex durationNanos : Int)
  | failed (benchmark : String) (opIndex : Int) (cause : String)
deriving DecidableEq, Repr

/-- What a run leaves behind, in order. A call is followed by `returned`, by `answered` when it
yields a truth value, or by `threw`; a call during which the run stops has no such mark. `printed` is a
line of the driver, `unprinted` one for which `printf` threw, and `stderr` are those of the harness.
`timeStart` is the reading from which a policy counts the time, and `timeCheck` what a time-based policy
looks at when an operation ends, a reading or the duration of the operation, with the outcome of its
comparison. -/
inductive Event where
  | call (call : Call)
  | returned (call : Call)
  | answered (call : Call) (answer : Bool)
  | threw (call : Call)
  | printed (line : Line)
  | unprinted (line : Line)
  | timeStart (benchmark : String) (now : Int)
  | timeCheck (benchmark : String) (measured : Int) (elapsed : Bool)
  | stderr (line : String)
  | stackTrace (cause : Throwable)
  | written (writer : Nat) (content : Content)

/-- What a publisher does when it is asked for results: it publishes some through the callback, one
after the other, and then returns or throws. What it does next may depend on whether the callback
threw. -/
inductive Publication where
  | finish (result : Except Throwable Unit)
  | publish (benchmark metric : String) (value : Int)
      (next : Except Throwable Unit → Publication)

/-- The code outside the harness, with its state `π`. `nanoTime i` is the `i`-th reading of the
clock; the readings that external code takes are not counted. The names are those of the suite, and
`illegalFormat` is what `printf` throws for a format string. -/
structure Env (π : Type) where
  create : String → π → Except Throwable Unit × π
  benchmark : BenchmarkMethod → String → π → Except Throwable Unit × π
  validate : Operation → π → Except Throwable Unit × π
  listener : ExternalPlugin → Notification → π → Except Throwable Unit × π
  publisher : ExternalPlugin → String → Int → π → Publication × π
  canExecute : ExternalPlugin → String → Int → π → Except Throwable Bool × π
  isLast : ExternalPlugin → String → Int → π → Except Throwable Bool × π
  nanoTime : Nat → Int
  primaryGroup : String → String
  configurationName : String
  illegalFormat : String → Throwable
  jvm : Jvm

/-- Code outside the harness that returns from every call. The policy, if it is an external plugin,
asks for one operation more until `limit` is reached. -/
def Env.calm (limit : Int) : Env Unit where
  create _ s := (.ok (), s)
  benchmark _ _ s := (.ok (), s)
  validate _ s := (.ok (), s)
  listener _ _ s := (.ok (), s)
  publisher _ _ _ s := (.finish (.ok ()), s)
  canExecute _ _ i s := (.ok (i < limit), s)
  isLast _ _ _ s := (.ok false, s)
  nanoTime i := i
  primaryGroup _ := "group"
  configurationName := "default"
  illegalFormat text := ⟨"IllegalFormatException", text, false⟩
  jvm := .plain

/-- The state of a run: that of the external code, the number of clock readings taken, the built-in
policy and the result writers. -/
structure World (π : Type) where
  env : π
  clock : Nat := 0
  policy : BuiltinPolicy
  writers : List ResultWriter := []

abbrev Action (π α : Type) := Exec (World π) Event Throwable α

section Primitives

variable {π α : Type}

/-- Make a call and record how it ended. -/
def invoke (call : Call) (body : Action π α) : Action π α := do
  emit (.call call)
  match ← attempt body with
  | .ok a =>
      emit (.returned call)
      pure a
  | .error e =>
      emit (.threw call)
      throw e

/-- Make a call that yields a truth value. -/
def query (call : Call) (body : Action π Bool) : Action π Bool := do
  emit (.call call)
  match ← attempt body with
  | .ok answer =>
      emit (.answered call answer)
      pure answer
  | .error e =>
      emit (.threw call)
      throw e

def fromExcept : Except Throwable α → Action π α
  | .ok a => pure a
  | .error e => throw e

/-- Run external code. -/
def external (f : π → Except Throwable α × π) : Action π α := do
  let result ← step fun w => ((f w.env).1, { w with env := (f w.env).2 })
  fromExcept result

/-- `System.nanoTime()`. -/
def nanoTime (env : Env π) : Action π Int :=
  step fun w => (env.nanoTime w.clock, { w with clock := w.clock + 1 })

def getPolicy : Action π BuiltinPolicy :=
  step fun w => (w.policy, w)

def setPolicy (policy : BuiltinPolicy) : Action π Unit :=
  step fun w => ((), { w with policy := policy })

def getWriter (index : Nat) : Action π (Option ResultWriter) :=
  step fun w => (w.writers[index]?, w)

def modifyWriter (index : Nat) (f : ResultWriter → ResultWriter) : Action π Unit :=
  step fun w => ((), { w with writers := w.writers.modify index f })

/-- A step that leaves the result writers alone. -/
def KeepsWriters (f : World π → α × World π) : Prop :=
  ∀ w, (f w).2.writers = w.writers

/-- A step that no listener takes: it leaves the result writers and the policy alone, and readings of
the clock are not taken back. -/
structure Outside (f : World π → α × World π) : Prop where
  writers : KeepsWriters f
  policy : ∀ w, (f w).2.policy = w.policy
  clock : ∀ w, w.clock ≤ (f w).2.clock

/-- A step of the external code. -/
theorem outside_env (f : π → α × π) :
    Outside fun w : World π => ((f w.env).1, { w with env := (f w.env).2 }) where
  writers _ := rfl
  policy _ := rfl
  clock _ := Nat.le_refl _

/-- A look at the world. -/
theorem outside_look (f : World π → α) : Outside fun w => (f w, w) where
  writers _ := rfl
  policy _ := rfl
  clock _ := Nat.le_refl _

theorem outside_nanoTime (env : Env π) :
    Outside fun w : World π => (env.nanoTime w.clock, { w with clock := w.clock + 1 }) where
  writers _ := rfl
  policy _ := rfl
  clock _ := Nat.le_succ _

end Primitives

end Renaissance
