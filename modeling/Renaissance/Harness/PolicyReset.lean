import Renaissance.Harness.Repetition

/-!
# One policy for several benchmarks

The harness creates one policy and runs every benchmark with it. A benchmark starts by resetting the
policy, so it runs as it would with a new instance.

Result: `builtin_policy_repeats`, for the policy that the command line asks for and a benchmark that
runs after any others.
-/

namespace Renaissance

open Traced JavaInt

variable {π : Type}

/-- The policy as it was created. -/
def BuiltinPolicy.fresh : BuiltinPolicy → BuiltinPolicy
  | .fixedOpCount policy => .fixedOpCount { countLimitProvider := policy.countLimitProvider }
  | .fixedTime policy => .fixedTime { runTimeNanos := policy.runTimeNanos }
  | .fixedOpTime policy => .fixedOpTime { operationRunTimeNanos := policy.operationRunTimeNanos }

/-- Setting up a benchmark forgets what the policy was used for. -/
theorem afterBenchmarkSetUp_fresh (policy : BuiltinPolicy) (b : String) (now : Int) :
    policy.afterBenchmarkSetUp b now = policy.fresh.afterBenchmarkSetUp b now := by
  cases policy <;> rfl

/-! ## The instance stays the same -/

/-- Every run leaves an instance with the same parameters. -/
def KeepsInstance {α : Type} (m : Action π α) : Prop :=
  ∀ w, (m w).state.policy.fresh = w.policy.fresh

theorem closed_keepsInstance : Closed (fun {α} (m : Action π α) => KeepsInstance m) :=
  closed_of_composes (Q := fun (w : World π) (_ : List Event) w' => w'.policy.fresh = w.policy.fresh)
    (fun _ => rfl) fun first second => second.trans first

theorem Rests.keepsInstance {α : Type} {m : Action π α} (rests : Rests m) : KeepsInstance m :=
  fun w => by rw [(rests w).1.1]

theorem keepsInstance_policyHandle (env : Env π) (n : Notification) :
    KeepsInstance (policyHandle env n) := by
  intro w
  unfold policyHandle
  rw [getPolicy, step_bind_apply]
  cases policy : w.policy <;> cases n <;> first | rfl | exact congrArg _ policy

theorem keepsInstance_deliver (env : Env π) (n : Notification) (l : Listener) :
    KeepsInstance (deliver env n l) := by
  cases isPolicy : l.isPolicy with
  | false => exact (rests_deliver env (.inr isPolicy)).keepsInstance
  | true =>
      have emits : ∀ e : Event, KeepsInstance (emit e : Action π Unit) := fun e w => rfl
      refine closed_invoke closed_keepsInstance (emits _) (emits _) (emits _) ?_
      cases l with
      | writer index => cases isPolicy
      | plugin p =>
          cases p with
          | builtinPolicy cls => exact keepsInstance_policyHandle env n
          | _ => cases isPolicy

theorem keepsInstance_runSteps (h : Harness π) :
    RunSteps h (fun {α} (m : Action π α) => KeepsInstance m) where
  closed := closed_keepsInstance
  step _ outside w := congrArg _ (outside.policy w)
  emit _ _ _ := rfl
  outOfFuel _ := rfl
  deliver n _ l _ := keepsInstance_deliver h.env n l
  request _ _ _ _ _ := rfl

theorem keepsInstance_runEach (h : Harness π) (fuel : Nat) (failed : List BenchmarkDescriptor)
    (benchmarks : List BenchmarkDescriptor) : KeepsInstance (h.runEach fuel failed benchmarks) := by
  have steps := keepsInstance_runSteps h
  have operation := steps.executeOperation fun b m value l _ =>
    keepsInstance_deliver h.env (.onMeasurementResult b m value) l
  have benchmark : ∀ fuel b, KeepsInstance (h.executeBenchmark fuel b) := fun fuel b =>
    (steps.benchmarkSteps (steps.notifyEvent rfl) (steps.notifyEvent rfl) (operation b)
      (steps.notifyEvent rfl) (steps.notifyEvent rfl)).executeBenchmark fuel
  exact (steps.suiteSteps benchmark fun _ => steps.notifyEvent rfl).runEach fuel failed benchmarks

/-! ## Two instances -/

/-- Two worlds that differ only in what the policy was used for. -/
def Alike (w w' : World π) : Prop :=
  ∃ policy : BuiltinPolicy, policy.fresh = w.policy.fresh ∧ w' = { w with policy := policy }

/-- A step that does not look at the policy. -/
theorem respects_step {β : Type} {f : World π → β × World π}
    (blind : ∀ w policy, f { w with policy := policy } =
      ((f w).1, { (f w).2 with policy := policy }))
    (outside : Outside f) : Respects Alike (step f : Action π β) := by
  rintro w w' ⟨policy, same, rfl⟩
  rw [step_apply, step_apply, blind]
  exact ⟨rfl, rfl, policy, same.trans (congrArg _ (outside.policy w).symm), rfl⟩

theorem respects_emit (e : Event) : Respects Alike (emit e : Action π Unit) :=
  fun _ _ related => ⟨rfl, rfl, related⟩

theorem respects_external {α : Type} (f : π → Except Throwable α × π) :
    Respects Alike (external f) :=
  closed_external (closed_respects Alike) (respects_step (fun _ _ => rfl) (outside_env f))

theorem respects_invoke {α : Type} {call : Call} {body : Action π α} (inner : Respects Alike body) :
    Respects Alike (invoke call body) :=
  closed_invoke (closed_respects Alike) (respects_emit _) (respects_emit _) (respects_emit _) inner

/-- The notifications about a benchmark that neither the policy nor a writer acts upon. -/
def Notification.ofBenchmark : Notification → Bool
  | .beforeBenchmarkSetUp _ | .beforeBenchmarkTearDown _ | .afterBenchmarkTearDown _ => true
  | _ => false

theorem respects_deliver (env : Env π) {n : Notification} (about : n.ofBenchmark = true)
    (l : Listener) : Respects Alike (deliver env n l) := by
  have nothing : Respects Alike (pure () : Action π Unit) := (closed_respects Alike).pure ()
  have ignored : Respects Alike (policyHandle env n) := by
    have skipped : policyHandle env n = pure () := by
      funext w
      unfold policyHandle
      rw [getPolicy, step_bind_apply]
      dsimp only
      cases w.policy <;> cases n <;> first | rfl | cases about
    rw [skipped]
    exact nothing
  refine respects_invoke ?_
  cases l with
  | writer index => cases n <;> first | exact nothing | cases about
  | plugin p =>
      cases p with
      | external p => exact respects_external _
      | builtinPolicy cls => exact ignored
      | forceGc => cases n <;> first | exact nothing | cases about

theorem respects_notify (h : Harness π) {n : Notification} (about : n.ofBenchmark = true) :
    Respects Alike (h.notify n) :=
  respects_invoke ((closed_respects Alike).forEach fun l _ => respects_deliver h.env about l)

/-- The runs from worlds that are alike are the same in every respect. -/
def Merges {α : Type} (m : Action π α) : Prop :=
  ∀ w w', Alike w w' → m w' = m w

theorem Merges.respects {α : Type} {m : Action π α} (merges : Merges m) : Respects Alike m := by
  intro w w' related
  rw [merges w w' related]
  exact ⟨rfl, rfl, _, rfl, rfl⟩

theorem Merges.bind {α β : Type} {m : Action π α} {f : α → Action π β} (merges : Merges m) :
    Merges (m >>= f) := by
  intro w w' related
  rw [bind_apply, bind_apply, merges w w' related]

theorem Merges.invoke {α : Type} {call : Call} {body : Action π α} (merges : Merges body) :
    Merges (invoke call body) := by
  intro w w' related
  rw [invoke_run, invoke_run, merges w w' related]

/-- The clock readings taken to set up a benchmark. -/
def BuiltinPolicy.setUpReadings : BuiltinPolicy → Nat
  | .fixedTime _ => 1
  | .fixedOpCount _ | .fixedOpTime _ => 0

/-- The event that goes with them. -/
def BuiltinPolicy.setUpEvents (b : String) (now : Int) : BuiltinPolicy → List Event
  | .fixedTime _ => [.timeStart b now]
  | .fixedOpCount _ | .fixedOpTime _ => []

theorem policyHandle_setUp (env : Env π) (b : String) (w : World π) :
    policyHandle env (.afterBenchmarkSetUp b) w =
      ⟨.ret (), w.policy.setUpEvents b (env.nanoTime w.clock), { w with
        clock := w.clock + w.policy.setUpReadings
        policy := w.policy.afterBenchmarkSetUp b (env.nanoTime w.clock) }⟩ := by
  unfold policyHandle
  rw [getPolicy, step_bind_apply]
  dsimp only
  cases policy : w.policy <;> rfl

/-- The policy is reset before any other listener hears of the benchmark. -/
theorem merges_setUp {h : Harness π} {cls : PolicyClass} (drives : Drives h cls) (b : String) :
    Merges (h.notifyAfterBenchmarkSetUp b) := by
  obtain ⟨after, list, -⟩ := drives.setUp
  refine Merges.invoke ?_
  rw [Notification.interface, list, forEach]
  refine Merges.bind (Merges.invoke ?_)
  rintro w w' ⟨policy, same, rfl⟩
  have readings : policy.setUpReadings = w.policy.setUpReadings := by
    have := congrArg BuiltinPolicy.setUpReadings same
    cases policy <;> cases before : w.policy <;> rw [before] at this <;> exact this
  have events : ∀ now, policy.setUpEvents b now = w.policy.setUpEvents b now := by
    intro now
    have := congrArg (BuiltinPolicy.setUpEvents b now) same
    cases policy <;> cases before : w.policy <;> rw [before] at this <;> exact this
  show policyHandle h.env (.afterBenchmarkSetUp b) _ = policyHandle h.env (.afterBenchmarkSetUp b) w
  rw [policyHandle_setUp, policyHandle_setUp, readings, events, afterBenchmarkSetUp_fresh policy, same,
    ← afterBenchmarkSetUp_fresh]

/-- A benchmark runs as it would with a new instance of the policy. -/
theorem respects_executeBenchmark {h : Harness π} {cls : PolicyClass} (drives : Drives h cls)
    (fuel : Nat) (b : String) : Respects Alike (h.executeBenchmark fuel b) := by
  have closed : Closed (fun {α} (m : Action π α) => Respects Alike m) := closed_respects Alike
  have call : ∀ method, Respects Alike (h.callBenchmark method b) :=
    fun method => respects_invoke (respects_external _)
  have inner := (merges_setUp drives b).bind (f := fun _ =>
    tryFinally (h.executeOperations fuel b) (h.notifyBeforeBenchmarkTearDown b))
  refine closed.bind (respects_notify h rfl) fun _ => ?_
  refine closed.tryFinally (closed.bind (call .setUpBeforeAll) fun _ => ?_) (respects_notify h rfl)
  exact closed.tryFinally inner.respects (call .tearDownAfterAll)

/-! ## The harness that the command line asks for -/

theorem isPolicy_external (externals : List ExternalPlugin) (interface : Interface) :
    ∀ l ∈ ((externals.map Plugin.external).filter (·.interfaces.contains interface)).map
      Listener.plugin, l.isPolicy = false := by
  intro l mem
  obtain ⟨p, memP, rfl⟩ := List.mem_map.mp mem
  obtain ⟨external, -, rfl⟩ := List.mem_map.mp (List.mem_of_mem_filter memP)
  rfl

/-- The built-in policy is registered before every plugin that could stand between it and the
driver. -/
theorem drives_registering (h : Harness π) (asked : h.policy = .builtin) (gc : Bool)
    (cls : PolicyClass) (externals : List ExternalPlugin) (writers : List Nat) :
    Drives (h.registering ((if gc then [Plugin.forceGc] else []) ++
      .builtinPolicy cls :: externals.map Plugin.external) writers) cls where
  asked := asked
  setUp := by
    refine ⟨_, ?_, isPolicy_external externals .afterBenchmarkSetUpListener⟩
    rw [show Interface.afterBenchmarkSetUpListener =
      (Notification.afterBenchmarkSetUp "").interface from rfl, of_registering]
    cases gc <;> cases cls <;> simp [recipients, Notification.interface, Plugin.interfaces]
  tearDown := by
    refine ⟨((((externals.map Plugin.external).filter
      (·.interfaces.contains .beforeOperationTearDownListener)).map Listener.plugin).reverse), ?_,
      fun l mem => isPolicy_external externals .beforeOperationTearDownListener l
        (List.mem_reverse.mp mem)⟩
    rw [show Interface.beforeOperationTearDownListener =
      (Notification.beforeOperationTearDown "" 0 0).interface from rfl, of_registering]
    cases gc <;> cases cls <;> simp [recipients, Notification.interface, Plugin.interfaces]

/-- What is seen of a benchmark: what the policy promises, or a part of it from its start if the
benchmark does not return. What is compared with a time limit comes from the clock. A run that is still
going on has made all the passes that it was given. -/
structure Repeats (nanoTime : Nat → Int) (policy : BuiltinPolicy) (b : String) (fuel : Nat)
    (run : Run (World π) Event Throwable Unit) : Prop where
  promised : ∃ signs, policy.Promises b signs ∧ run.trace.filterMap Event.sign? <+: signs ∧
    (run.outcome = .ret () → run.trace.filterMap Event.sign? = signs)
  measured : AllMeasured nanoTime policy.cls (run.trace.filterMap Event.sign?)
  atLeastTwo : policy.cls ≠ .fixedOpCount → run.outcome = .ret () →
    2 ≤ operations (run.trace.filterMap Event.sign?)
  goesOn : run.outcome = .stopped .outOfFuel → operations (run.trace.filterMap Event.sign?) = fuel
  ends : ∀ p, policy = .fixedOpCount p → p.countLimitProvider b < fuel →
    run.outcome ≠ .stopped .outOfFuel

/-- With a time limit, a benchmark executes at least two operations. -/
theorem BuiltinPolicy.Promises.two_le {policy : BuiltinPolicy} {b : String} {signs : List Sign}
    (promised : policy.Promises b signs) (timed : policy.cls ≠ .fixedOpCount) : 2 ≤ operations signs := by
  cases policy with
  | fixedOpCount policy => exact absurd rfl timed
  | fixedTime policy =>
      obtain ⟨begun, rest, rfl, operations'⟩ := promised
      have two : 2 ≤ operations rest := operations'.operations_le
      exact two.trans ((List.sublist_cons_self _ rest).count_le Sign.ran)
  | fixedOpTime policy => exact TimedOperations.operations_le promised

theorem executeBenchmark_repeats {h : Harness π} {w : World π} (drives : Drives h w.policy.cls)
    (steady : SteadyClock h.env.nanoTime) {b : String} (valid : w.policy.Valid b) (fuel : Nat) :
    Repeats h.env.nanoTime w.policy b fuel (h.executeBenchmark fuel b w) := by
  have seen := ensures_executeBenchmark drives rfl steady valid fuel
  have goesOn : (h.executeBenchmark fuel b w).outcome = .stopped .outOfFuel →
      operations ((h.executeBenchmark fuel b w).trace.filterMap Event.sign?) = fuel :=
    fun stopped => (seen.stopped stopped).1 rfl
  have begun : AllMeasured h.env.nanoTime w.policy.cls
        ((h.executeBenchmark fuel b w).trace.filterMap Event.sign?) ∧
      ∃ signs, w.policy.Promises b signs ∧
      (h.executeBenchmark fuel b w).trace.filterMap Event.sign? <+: signs ∧
      ((h.executeBenchmark fuel b w).outcome = .ret () →
        (h.executeBenchmark fuel b w).trace.filterMap Event.sign? = signs) := by
    unfold Ensures at seen
    cases outcome : (h.executeBenchmark fuel b w).outcome with
    | ret u =>
        simp only [outcome] at seen
        exact ⟨seen.1, _, seen.2, List.prefix_refl _, fun _ => rfl⟩
    | thrown e =>
        simp only [outcome] at seen
        obtain ⟨-, measured, signs, promised, start⟩ := seen
        exact ⟨measured, signs, promised, start, nofun⟩
    | stopped reason =>
        simp only [outcome] at seen
        obtain ⟨-, measured, signs, promised, start⟩ := seen
        exact ⟨measured, signs, promised, start, nofun⟩
  obtain ⟨measured, signs, promised, start, whole⟩ := begun
  refine ⟨⟨signs, promised, start, whole⟩, measured, fun timed returned => ?_, goesOn,
    fun p counted enough stopped => ?_⟩
  · rw [whole returned]
    exact promised.two_le timed
  · rw [counted] at promised valid
    obtain rfl : signs = countedOperations (p.countLimitProvider b).toNat := promised
    have few := start.sublist.count_le Sign.ran
    have all := operations_countedOperations (p.countLimitProvider b).toNat
    have fuelUsed := goesOn stopped
    rw [operations] at all fuelUsed
    have positive : 0 ≤ p.countLimitProvider b := valid.1
    omega

/-- The built-in policy of a command line, for a benchmark that runs after any others in one harness:
the benchmark is repeated as the policy promises, and exactly as with a policy that was not used
before. -/
theorem builtin_policy_repeats {host : Host} {options : List CommandOption}
    {benchmarks : List BenchmarkDescriptor} {registration : Registration}
    (registered : host.register options benchmarks = .ok registration) {policy : BuiltinPolicy}
    (builtin : registration.policy = .builtin policy) (env : Env π)
    (steady : SteadyClock env.nanoTime) (vmStartNanos : Int) (s : π)
    (earlier : List BenchmarkDescriptor) (fuelBefore fuel : Nat) (b : String)
    (limit : ∀ p, policy = .fixedOpCount p →
      0 ≤ p.countLimitProvider b ∧ p.countLimitProvider b < 2 ^ 31) :
    let h := registration.harness env vmStartNanos
    let start := (h.notifyAfterHarnessInit (registration.world s)).state
    let w := (h.runEach fuelBefore [] earlier start).state
    let run := h.executeBenchmark fuel b w
    let unused := h.executeBenchmark fuel b { w with policy := policy }
    Repeats env.nanoTime policy b fuel run ∧ run.outcome = unused.outcome ∧ run.trace = unused.trace := by
  intro h start w run unused
  obtain ⟨⟨gc, externals, plugins⟩, runTime⟩ := Host.register_builtin registered builtin
  have drives : Drives h policy.cls := by
    have asked : h.policy = .builtin := by
      simp only [h, Registration.harness, builtin]
    have dispatcher := drives_registering h asked gc policy.cls externals
      (List.range registration.writers.length)
    rw [← plugins] at dispatcher
    exact dispatcher
  have valid : policy.Valid b := by
    cases policy with
    | fixedOpCount p => exact limit p rfl
    | fixedTime p => exact runTime _ rfl
    | fixedOpTime p => exact runTime _ rfl
  have sameInstance : w.policy.fresh = policy.fresh := by
    have initial : (registration.world s).policy = policy := by
      simp only [Registration.world, builtin]
    have init : KeepsInstance h.notifyAfterHarnessInit :=
      (rests_notify h rfl rfl).keepsInstance
    rw [keepsInstance_runEach h fuelBefore [] earlier start, init, initial]
  have related : Alike { w with policy := policy } w := ⟨w.policy, sameInstance, rfl⟩
  obtain ⟨outcome, trace, -⟩ := respects_executeBenchmark drives fuel b _ _ related
  refine ⟨?_, outcome, trace⟩
  have repeats : Repeats env.nanoTime policy b fuel unused :=
    executeBenchmark_repeats (w := { w with policy := policy }) drives steady valid fuel
  exact { promised := by rw [trace, outcome]; exact repeats.promised
          measured := by rw [trace]; exact repeats.measured
          atLeastTwo := by rw [trace, outcome]; exact repeats.atLeastTwo
          goesOn := by rw [trace, outcome]; exact repeats.goesOn
          ends := by rw [outcome]; exact repeats.ends }

/-- What an option for a built-in policy leads to. -/
def registrationOf (policy : BuiltinPolicy) : Registration where
  plugins := [.forceGc, .builtinPolicy policy.cls]
  writers := []
  policy := .builtin policy

/-- A calm environment whose clock goes on by a tenth of a second with each reading, and comes to a halt. -/
def haltingClock : Env Unit :=
  { Env.calm 0 with nanoTime := fun i => min (100000000 * i) 4611686018427387904 }

theorem haltingClock_steady : SteadyClock haltingClock.nanoTime where
  monotone i j le := by
    show min (100000000 * (i : Int)) _ ≤ min (100000000 * (j : Int)) _
    omega
  long i := by
    show -2 ^ 63 ≤ min (100000000 * (i : Int)) _ ∧ min (100000000 * (i : Int)) _ < 2 ^ 63
    omega
  fits i j := by
    show min (100000000 * (j : Int)) _ - min (100000000 * (i : Int)) _ < 2 ^ 63
    omega

/-- A benchmark that runs after another one. -/
def secondRun (policy : BuiltinPolicy) : Run (World Unit) Event Throwable Unit :=
  let h := (registrationOf policy).harness haltingClock 0
  let start := (h.notifyAfterHarnessInit ((registrationOf policy).world ())).state
  h.executeBenchmark 12 "second" (h.runEach 12 [] [⟨"first", 1⟩] start).state

def secondOperations (policy : BuiltinPolicy) : Nat :=
  operations ((secondRun policy).trace.filterMap Event.sign?)

/-- `--repetitions 3`, `--run-seconds 1` and `--operation-run-seconds 1`. -/
theorem builtin_policy_repeats_each :
    let repetitions := BuiltinPolicy.fixedOpCount
      { countLimitProvider := Host.countProvider { repetitions := some 3 } [] }
    let runSeconds := BuiltinPolicy.fixedTime { runTimeNanos := 1000000000 }
    let operationRunSeconds := BuiltinPolicy.fixedOpTime { operationRunTimeNanos := 1000000000 }
    (Repeats haltingClock.nanoTime repetitions "second" 12 (secondRun repetitions) ∧
        secondOperations repetitions = 3) ∧
      (Repeats haltingClock.nanoTime runSeconds "second" 12 (secondRun runSeconds) ∧
        secondOperations runSeconds = 3) ∧
      (Repeats haltingClock.nanoTime operationRunSeconds "second" 12 (secondRun operationRunSeconds) ∧
        secondOperations operationRunSeconds = 11) := by
  intro repetitions runSeconds operationRunSeconds
  refine ⟨⟨?_, by decide +kernel⟩, ⟨?_, by decide +kernel⟩, ⟨?_, by decide +kernel⟩⟩
  · refine (@builtin_policy_repeats Unit Host.reversing [.repetitions 3] [] (registrationOf repetitions) rfl
      _ rfl haltingClock haltingClock_steady 0 () [⟨"first", 1⟩] 12 12 "second" fun p same => ?_).1
    obtain rfl := BuiltinPolicy.fixedOpCount.inj same
    exact ⟨by decide, by decide⟩
  · exact (@builtin_policy_repeats Unit Host.reversing [.runSeconds 1] [] (registrationOf runSeconds) rfl
      _ rfl haltingClock haltingClock_steady 0 () [⟨"first", 1⟩] 12 12 "second" nofun).1
  · exact (@builtin_policy_repeats Unit Host.reversing [.operationRunSeconds 1] []
      (registrationOf operationRunSeconds) rfl _ rfl haltingClock haltingClock_steady 0 () [⟨"first", 1⟩]
      12 12 "second" nofun).1

end Renaissance
