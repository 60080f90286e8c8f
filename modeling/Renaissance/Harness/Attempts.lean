import Renaissance.Harness.DriverTrace
import Renaissance.Harness.Wrapping

/-!
# The attempts of a run

The account of a run whose listeners return from every call: which benchmarks it attempted, which of
their operations passed validation, and what the listeners were told about them.

Results:
1. `ensures_executeOperation_marks`: an operation is reported if it passed validation, and otherwise
   leaves nothing in the account.
2. `ensures_runBenchmark`, `ensures_runEach`: one attempt after the other, each reported as failed
   exactly if its execution threw.
-/

namespace Renaissance

open Traced JavaInt

variable {π : Type}

/-! ## The account -/

/-- What the account of a run keeps of its trace. -/
inductive Mark where
  | attempted (benchmark : String)
  | loaded (benchmark : String)
  | notLoaded (benchmark : String)
  | completed (benchmark : String)
  | broken (benchmark : String)
  | validated (operation : Operation)
  | told (listener : Listener) (n : Notification)
deriving DecidableEq

/-- The notifications that the account keeps. -/
def Notification.accounted : Notification → Bool
  | .afterHarnessInit | .beforeHarnessShutdown | .onMeasurementResult .. | .onBenchmarkFailure _ => true
  | _ => false

def Event.mark? : Event → Option Mark
  | .call (.create b) => some (.attempted b)
  | .returned (.create b) => some (.loaded b)
  | .threw (.create b) => some (.notLoaded b)
  | .returned (.executeBenchmark b) => some (.completed b)
  | .threw (.executeBenchmark b) => some (.broken b)
  | .returned (.validate operation) => some (.validated operation)
  | .call (.deliver l n) => if n.accounted then some (.told l n) else none
  | _ => none

/-- An operation that passed validation, and the results that publishers reported after it. -/
structure Measured where
  operation : Operation
  published : List (String × String × Int)

/-- What the listeners to results are told about the operation. -/
def Measured.reports (vmStartNanos : Int) (measured : Measured) : List Notification :=
  let op := measured.operation
  .onMeasurementResult op.benchmark "uptime_ns" (long (op.startNanos - vmStartNanos)) ::
    .onMeasurementResult op.benchmark "duration_ns" op.durationNanos ::
      measured.published.map fun (benchmark, metric, value) =>
        .onMeasurementResult benchmark metric value

/-- The operations of the benchmark with consecutive indices, the first one `k`. -/
structure Measures (b : String) (k : Nat) (measured : List Measured) : Prop where
  benchmark : ∀ m ∈ measured, m.operation.benchmark = b
  indices : measured.map (·.operation.index) =
    (List.range' k measured.length).map fun i : Nat => int i

theorem measures_nil (b : String) (k : Nat) : Measures b k [] where
  benchmark := by simp
  indices := rfl

theorem Measures.cons {b : String} {k : Nat} {first : Measured} {measured : List Measured}
    (benchmark : first.operation.benchmark = b) (index : first.operation.index = int k)
    (more : Measures b (k + 1) measured) : Measures b k (first :: measured) where
  benchmark := List.forall_mem_cons.mpr ⟨benchmark, more.benchmark⟩
  indices := by
    rw [List.map_cons, List.length_cons, List.range'_succ, List.map_cons, index, more.indices]

/-- What came of a selected benchmark: it could not be loaded, its execution came to an end, or it is
still going on. -/
inductive Attempt where
  | notLoaded (descriptor : BenchmarkDescriptor)
  | executed (descriptor : BenchmarkDescriptor) (measured : List Measured) (threw : Bool)
  | running (descriptor : BenchmarkDescriptor) (measured : List Measured)

namespace Attempt

def descriptor : Attempt → BenchmarkDescriptor
  | .notLoaded d | .executed d _ _ | .running d _ => d

def measured : Attempt → List Measured
  | .notLoaded _ => []
  | .executed _ measured _ | .running _ measured => measured

/-- The benchmark was loaded and its execution threw. -/
def broken : Attempt → Bool
  | .executed _ _ threw => threw
  | _ => false

/-- The benchmark belongs to the failed ones. -/
def failed : Attempt → Bool
  | .notLoaded _ => true
  | .executed _ _ threw => threw
  | .running _ _ => false

def ended : Attempt → Bool
  | .running _ _ => false
  | _ => true

def Consistent (attempt : Attempt) : Prop :=
  Measures attempt.descriptor.name 0 attempt.measured

end Attempt

namespace Harness

variable (h : Harness π)

/-- A notification is delivered to its listeners, to one after the other. -/
def told (n : Notification) : List Mark :=
  (h.dispatcher.of n.interface).map (.told · n)

/-- An operation that passed validation is reported, and nothing is reported about others. -/
def measuredMarks (measured : List Measured) : List Mark :=
  measured.flatMap fun m => .validated m.operation :: (m.reports h.vmStartNanos).flatMap h.told

/-- Only listeners to failures of a loaded benchmark are told that the attempt failed. -/
def attemptMarks : Attempt → List Mark
  | .notLoaded d => [.attempted d.name, .notLoaded d.name]
  | .executed d measured true =>
      .attempted d.name :: .loaded d.name ::
        (h.measuredMarks measured ++ (.broken d.name :: h.told (.onBenchmarkFailure d.name)))
  | .executed d measured false =>
      .attempted d.name :: .loaded d.name :: (h.measuredMarks measured ++ [.completed d.name])
  | .running d measured => .attempted d.name :: .loaded d.name :: h.measuredMarks measured

end Harness

/-! ## Listeners that return -/

/-- A publisher that returns, if its callback does. -/
def Publication.Returns : Publication → Prop
  | .finish result => result = .ok ()
  | .publish _ _ _ next => (next (.ok ())).Returns

/-- The methods of external plugins return, except for those that a policy is asked. -/
structure Env.ListenersReturn (env : Env π) : Prop where
  listener : ∀ p n s, (env.listener p n s).1 = .ok ()
  publisher : ∀ p b i s, (env.publisher p b i s).1.Returns

theorem returns_external {f : π → Except Throwable Unit × π} (returns : ∀ s, (f s).1 = .ok ()) :
    Returns (external f) := by
  intro w
  rw [external, step_bind_apply]
  rw [returns]
  exact ⟨(), rfl⟩

theorem returns_policyHandle (env : Env π) (n : Notification) : Returns (policyHandle env n) := by
  refine returns_bind (returns_step _) fun policy => ?_
  split
  · exact returns_step _
  · exact returns_bind (returns_step _) fun now => returns_bind (returns_emit _) fun _ => returns_step _
  · exact returns_bind (returns_step _) fun now => returns_bind (returns_emit _) fun _ => returns_step _
  · exact returns_step _
  · exact returns_bind (returns_emit _) fun _ => returns_step _
  · exact returns_pure ()

section Calm

variable {h : Harness π} (calm : h.env.ListenersReturn)
include calm

/-- Only a result writer that is told to store may keep a delivery from returning. -/
theorem returns_deliver {n : Notification} (running : n ≠ .beforeHarnessShutdown) (l : Listener) :
    Returns (deliver h.env n l) := by
  refine returns_invoke ?_
  cases l with
  | writer index =>
      cases n with
      | onMeasurementResult b m value => exact returns_step _
      | onBenchmarkFailure b => exact returns_step _
      | beforeHarnessShutdown => exact absurd rfl running
      | _ => exact returns_pure ()
  | plugin p =>
      cases p with
      | external p => exact returns_external (calm.listener p n)
      | builtinPolicy cls => exact returns_policyHandle h.env n
      | forceGc =>
          cases n with
          | afterOperationSetUp _ _ _ =>
              exact returns_bind (returns_step _) fun _ =>
                returns_bind (returns_step _) fun _ => returns_pure ()
          | _ => exact returns_pure ()

end Calm

/-! ## Calls that the account does not keep -/

theorem mark_blind (e : Event) (own : e.ofListener = true) : e.mark? = none := by
  cases e with
  | call c | returned c | threw c => cases c <;> first | rfl | cases own
  | _ => rfl

/-- The call comes to an end and leaves nothing in the account. -/
structure Hidden {α : Type} (m : Action π α) : Prop where
  unseen : Unseen Event.mark? m
  finishes : Finishes m

theorem ensures_hidden {α : Type} {m : Action π α} {cut : Option Stop → List Mark → Prop}
    {post : α → World π → List Mark → Prop} {w : World π} (hidden : Hidden m) (threw : cut none [])
    (next : ∀ a w', post a w' []) : Ensures Event.mark? m cut post w := by
  have idle : Idle Event.mark? (fun _ _ : World π => True) m :=
    fun s => ⟨trivial, hidden.unseen.nothing s⟩
  have whole : Ensures Event.mark? m (fun _ seen => seen = []) post w :=
    ensures_idle idle (fun _ => rfl) fun a w' _ => next a w'
  refine (whole.finishes hidden.finishes).mono ?_ fun _ _ _ holds => holds
  rintro reason seen ⟨rfl, rfl⟩
  exact threw

theorem unseen_external {α : Type} (f : π → Except Throwable α × π) :
    Unseen Event.mark? (external f) :=
  closed_external closed_unseen (unseen_step _)

section Hidden

variable (h : Harness π)

theorem hidden_callBenchmark (method : BenchmarkMethod) (b : String) :
    Hidden (h.callBenchmark method b) where
  unseen := closed_invoke closed_unseen (unseen_emit rfl) (unseen_emit rfl) (unseen_emit rfl)
    (unseen_external _)
  finishes := (driverCall_callBenchmark h method b).finishes

theorem hidden_canExecute (b : String) (i : Int) : Hidden (h.canExecute b i) where
  unseen := by
    refine closed_query closed_unseen (unseen_emit rfl) (fun _ => unseen_emit rfl) (unseen_emit rfl) ?_
    exact of_policy h.policy (unseen_step _) fun _ => unseen_external _
  finishes := (driverCall_canExecute h b i).finishes

theorem hidden_isLast (b : String) (i : Int) : Hidden (h.isLast b i) where
  unseen := by
    refine closed_query closed_unseen (unseen_emit rfl) (fun _ => unseen_emit rfl) (unseen_emit rfl) ?_
    exact of_policy h.policy (unseen_step _) fun _ => unseen_external _
  finishes := (driverCall_isLast h b i).finishes

theorem hidden_notify {n : Notification} (other : n.accounted = false) : Hidden (h.notify n) where
  unseen := by
    refine closed_invoke closed_unseen (unseen_emit rfl) (unseen_emit rfl) (unseen_emit rfl) ?_
    refine closed_unseen.forEach fun l _ => ?_
    refine closed_invoke closed_unseen (unseen_emit ?_) (unseen_emit rfl) (unseen_emit rfl)
      (unseen_handle mark_blind h.env l n)
    simp [Event.mark?, other]
  finishes := by
    refine (driverCall_notify h ?_).finishes
    rintro rfl
    cases other

end Hidden

/-! ## Notifications -/

section Told

variable {h : Harness π} (calm : h.env.ListenersReturn)
include calm

/-- A notification that the account keeps is told to all its listeners. -/
theorem ensures_forEach_deliver {n : Notification} (kept : n.accounted = true)
    (running : n ≠ .beforeHarnessShutdown) (ls : List Listener) {cut : Option Stop → List Mark → Prop}
    {post : Unit → World π → List Mark → Prop} {w : World π}
    (next : ∀ w', post () w' (ls.map (.told · n))) :
    Ensures Event.mark? (forEach ls (deliver h.env n)) cut post w := by
  have delivered : Script Event.mark? (ls.flatMap fun l => [.told l n])
      (forEach ls (deliver h.env n)) := by
    refine script_forEach fun l _ => ?_
    have each : Script Event.mark? ((Event.call (.deliver l n)).mark?.toList ++ [])
        (deliver h.env n l) :=
      script_invoke rfl rfl (unseen_handle mark_blind h.env l n).script
    simpa [Event.mark?, kept] using each
  refine delivered.ensures (returns_forEach fun l _ => returns_deliver calm running l) ?_
  intro _ w'
  rw [← List.map_eq_flatMap]
  exact next w'

theorem ensures_notify {n : Notification} (kept : n.accounted = true)
    (running : n ≠ .beforeHarnessShutdown) {cut : Option Stop → List Mark → Prop}
    {post : Unit → World π → List Mark → Prop} {w : World π} (next : ∀ w', post () w' (h.told n)) :
    Ensures Event.mark? (h.notify n) cut post w := by
  refine ensures_invoke (ensures_forEach_deliver calm kept running _ fun w' => ?_)
  simpa [Event.mark?, Harness.told] using next w'

/-- What publishers report is told like any result. -/
def Reported (h : Harness π) (seen : List Mark) : Prop :=
  ∃ published : List (String × String × Int), seen = published.flatMap fun result =>
    h.told (.onMeasurementResult result.1 result.2.1 result.2.2)

omit calm in
theorem reported_nil : Reported h [] := ⟨[], rfl⟩

omit calm in
theorem reported_append (first second : List Mark) (reported : Reported h first)
    (more : Reported h second) : Reported h (first ++ second) := by
  obtain ⟨published, rfl⟩ := reported
  obtain ⟨published', rfl⟩ := more
  exact ⟨published ++ published', List.flatMap_append.symm⟩

theorem ensures_runPublication {publication : Publication} (returns : publication.Returns)
    (w : World π) :
    Ensures Event.mark? (h.runPublication publication) (fun _ _ => False)
      (fun _ _ seen => Reported h seen) w := by
  induction publication generalizing w with
  | finish result =>
      obtain rfl : result = .ok () := returns
      exact ensures_pure reported_nil
  | publish benchmark metric value next ih =>
      refine ensures_bind_iff.mpr (ensures_attempt (ensures_invoke ?_))
      refine ensures_forEach_deliver calm rfl (by simp) _ fun w' => ?_
      refine (ih _ returns w').mono (fun _ _ never => never) fun _ _ more reported => ?_
      have one : Reported h (h.told (.onMeasurementResult benchmark metric value)) :=
        ⟨[(benchmark, metric, value)], by simp⟩
      simp only [Event.mark?, Option.toList_none, List.nil_append, List.append_nil]
      exact reported_append _ _ one reported

theorem ensures_request (b : String) (i : Int) (w : World π) :
    Ensures Event.mark? (h.notifyOnMeasurementResultsRequested b i) (fun _ _ => False)
      (fun _ _ seen => Reported h seen) w := by
  refine ensures_invoke ?_
  refine (ensures_forEach (P := Reported h) reported_nil reported_append fun l _ s => ?_).mono
    (fun _ _ never => never) fun _ _ seen reported => by simpa [Event.mark?] using reported
  refine ensures_invoke ?_
  have published : Ensures Event.mark? (h.publish b i l) (fun _ _ => False)
      (fun _ _ seen => Reported h seen) s := by
    cases l with
    | writer _ => exact ensures_pure reported_nil
    | plugin p =>
        cases p with
        | external p =>
            refine ensures_bind_iff.mpr (ensures_step ?_)
            exact ensures_runPublication calm (calm.publisher p b i _) _
        | _ => exact ensures_pure reported_nil
  refine published.mono (fun _ _ never => never) fun _ _ seen reported => ?_
  simpa [Event.mark?, Notification.accounted] using reported

end Told

/-! ## Operations -/

section Operations

variable {h : Harness π} (calm : h.env.ListenersReturn)
include calm

theorem ensures_executeOperation_marks (b : String) (i : Int) (w : World π) :
    Ensures Event.mark? (h.executeOperation b i) (fun reason seen => reason = none ∧ seen = [])
      (fun _ _ seen => ∃ m : Measured, m.operation.benchmark = b ∧ m.operation.index = i ∧
        seen = h.measuredMarks [m]) w := by
  refine ensures_bind_iff.mpr (ensures_hidden (hidden_callBenchmark h _ b) ⟨rfl, rfl⟩ fun _ w1 => ?_)
  refine ensures_bind_iff.mpr (ensures_hidden (hidden_isLast h b i) ⟨rfl, rfl⟩ fun isLastOp w2 => ?_)
  refine ensures_bind_iff.mpr (ensures_hidden (hidden_notify h rfl) ⟨rfl, rfl⟩ fun _ w3 => ?_)
  refine ensures_bind_iff.mpr (ensures_step (ensures_bind_iff.mpr ?_))
  refine ensures_hidden (hidden_callBenchmark h _ b) ⟨rfl, rfl⟩ fun _ w4 => ?_
  refine ensures_bind_iff.mpr (ensures_step (ensures_bind_iff.mpr ?_))
  refine ensures_hidden (hidden_notify h rfl) ⟨rfl, rfl⟩ fun _ w5 => ensures_bind_iff.mpr ?_
  refine ensures_hidden (hidden_callBenchmark h _ b) ⟨rfl, rfl⟩ fun _ w6 => ensures_bind_iff.mpr ?_
  -- From here on the operation is reported if its validation returns.
  refine ensures_invoke ?_
  have asked : Hidden (external (h.env.validate ⟨b, i, h.env.nanoTime w3.clock,
      long (h.env.nanoTime w4.clock - h.env.nanoTime w3.clock)⟩)) :=
    ⟨unseen_external _, finishes_external _⟩
  refine ensures_hidden asked ⟨rfl, rfl⟩ fun _ w7 => ensures_bind_iff.mpr ?_
  refine ensures_notify calm rfl (by simp) fun w8 => ensures_bind_iff.mpr ?_
  refine ensures_notify calm rfl (by simp) fun w9 => ensures_bind_iff.mpr ?_
  refine (ensures_request calm b i w9).mono (fun _ _ never => never.elim) ?_
  rintro _ w10 seen ⟨published, rfl⟩
  refine ensures_pure ⟨⟨⟨b, i, h.env.nanoTime w3.clock,
    long (h.env.nanoTime w4.clock - h.env.nanoTime w3.clock)⟩, published⟩, rfl, rfl, ?_⟩
  simp [Event.mark?, Harness.measuredMarks, Measured.reports, List.flatMap_map]

/-- An operation that was reported may still be the one whose line fails. -/
theorem ensures_loopBody_marks (b : String) (i : Int) (w : World π) :
    Ensures Event.mark? (h.loopBody b i)
      (fun reason seen => reason = none ∧ (seen = [] ∨ ∃ m : Measured, m.operation.benchmark = b ∧
        m.operation.index = i ∧ seen = h.measuredMarks [m]))
      (fun again _ seen => if again then ∃ m : Measured, m.operation.benchmark = b ∧
        m.operation.index = i ∧ seen = h.measuredMarks [m] else seen = []) w := by
  refine ensures_bind_iff.mpr
    (ensures_hidden (hidden_canExecute h b i) ⟨rfl, .inl rfl⟩ fun again w1 => ?_)
  cases again with
  | false => exact ensures_pure rfl
  | true =>
      refine ensures_bind_iff.mpr (ensures_printf rfl rfl ⟨rfl, .inl rfl⟩ (ensures_bind_iff.mpr ?_))
      refine (ensures_executeOperation_marks calm b i w1).mono ?_ ?_
      · rintro reason seen ⟨rfl, rfl⟩
        exact ⟨rfl, .inl rfl⟩
      · rintro nanos w2 seen ⟨m, benchmark, index, rfl⟩
        have reported : [] ++ ([] ++ (h.measuredMarks [m] ++ [])) = h.measuredMarks [m] := by simp
        refine ensures_bind_iff.mpr (ensures_printf rfl rfl ?_ (ensures_pure ?_))
        · exact ⟨rfl, .inr ⟨m, benchmark, index, reported⟩⟩
        · simp only [if_true, List.nil_append, List.append_nil]
          exact ⟨m, benchmark, index, rfl⟩

theorem ensures_operationLoop_marks (b : String) (fuel k : Nat) (w : World π) :
    Ensures Event.mark? (h.operationLoop b fuel (int k))
      (fun reason seen => reason = some .outOfFuel ∧
        ∃ measured, Measures b k measured ∧ measured.length = fuel ∧ seen = h.measuredMarks measured)
      (fun _ _ seen => ∃ measured, Measures b k measured ∧ seen = h.measuredMarks measured) w := by
  induction fuel generalizing k w with
  | zero => exact ⟨rfl, [], measures_nil b k, rfl, rfl⟩
  | succ fuel ih =>
      refine ensures_bind_iff.mpr (ensures_attempt ?_)
      refine (ensures_loopBody_marks calm b (int k) w).mono ?_ ?_
      · rintro reason seen ⟨rfl, rfl | ⟨m, benchmark, index, rfl⟩⟩ cause w'
        · exact ensures_pure ⟨[], measures_nil b k, rfl⟩
        · exact ensures_pure ⟨[m], .cons benchmark index (measures_nil b (k + 1)), List.append_nil _⟩
      · rintro (_ | _) w' seen round
        · obtain rfl : seen = [] := round
          exact ensures_pure ⟨[], measures_nil b k, rfl⟩
        · obtain ⟨m, benchmark, index, rfl⟩ := round
          dsimp only
          rw [int_succ]
          -- The marks of this operation come before those of the rest of the loop.
          refine (ih (k + 1) w').mono ?_ ?_
          · rintro reason more ⟨rfl, measured, rest, length, rfl⟩
            refine ⟨rfl, m :: measured, .cons benchmark index rest, by rw [List.length_cons, length], ?_⟩
            simp [Harness.measuredMarks]
          · rintro result w'' more ⟨measured, rest, rfl⟩
            exact ⟨m :: measured, .cons benchmark index rest, by simp [Harness.measuredMarks]⟩

/-- The operations of a benchmark, when its execution came to an end or used its fuel up. -/
def Measuring (h : Harness π) (b : String) (fuel : Nat) (reason : Option Stop) (seen : List Mark) :
    Prop :=
  ∃ measured, Measures b 0 measured ∧ seen = h.measuredMarks measured ∧
    (reason = none ∨ reason = some .outOfFuel ∧ measured.length = fuel)

omit calm in
theorem measuring_nothing (b : String) (fuel : Nat) : Measuring h b fuel none [] :=
  ⟨[], measures_nil b 0, rfl, .inl rfl⟩

theorem ensures_executeOperations_marks (b : String) (fuel : Nat) (w : World π) :
    Ensures Event.mark? (h.executeOperations fuel b) (Measuring h b fuel)
      (fun _ _ seen => Measuring h b fuel none seen) w := by
  refine ensures_bind_iff.mpr ((ensures_operationLoop_marks calm b fuel 0 w).mono ?_ ?_)
  · rintro reason seen ⟨rfl, measured, measures, length, rfl⟩
    exact ⟨measured, measures, rfl, .inr ⟨rfl, length⟩⟩
  · rintro ⟨index, result⟩ w' seen ⟨measured, measures, rfl⟩
    have whole : Measuring h b fuel none (h.measuredMarks measured ++ []) :=
      ⟨measured, measures, List.append_nil _, .inl rfl⟩
    cases result with
    | ok _ => exact ensures_pure whole
    | error cause =>
        refine ensures_bind_iff.mpr (ensures_printf rfl rfl whole (ensures_throw ?_))
        simpa using whole

theorem ensures_executeBenchmark_marks (b : String) (fuel : Nat) (w : World π) :
    Ensures Event.mark? (h.executeBenchmark fuel b) (Measuring h b fuel)
      (fun _ _ seen => Measuring h b fuel none seen) w := by
  have nothing := measuring_nothing (h := h) b fuel
  have hide {body : Action π Unit} {last : Action π Unit} (hidden : Hidden last) (w : World π)
      (inside : Ensures Event.mark? body (Measuring h b fuel)
        (fun _ _ seen => Measuring h b fuel none seen) w) :
      Ensures Event.mark? (tryFinally body last) (Measuring h b fuel)
        (fun _ _ seen => Measuring h b fuel none seen) w := by
    have both : Ensures Event.mark? body (Measuring h b fuel)
        (fun _ _ seen => Measuring h b fuel none seen ∧ True) w :=
      inside.mono (fun _ _ holds => holds) fun _ _ _ holds => ⟨holds, trivial⟩
    exact (ensures_tryFinally hidden.unseen hidden.finishes both).mono (fun _ _ holds => holds)
      fun _ _ _ holds => holds.1
  refine ensures_bind_iff.mpr (ensures_hidden (hidden_notify h rfl) nothing fun _ w1 => ?_)
  refine hide (hidden_notify h rfl) w1 ?_
  refine ensures_bind_iff.mpr (ensures_hidden (hidden_callBenchmark h _ b) nothing fun _ w2 => ?_)
  refine hide (hidden_callBenchmark h _ b) w2 ?_
  refine ensures_bind_iff.mpr (ensures_hidden (hidden_notify h rfl) nothing fun _ w3 => ?_)
  exact hide (hidden_notify h rfl) w3 (ensures_executeOperations_marks calm b fuel w3)

end Operations

/-! ## Benchmarks -/

/-- The benchmarks were attempted, each of them once, and no attempt is still going on. -/
structure Concluded (benchmarks : List BenchmarkDescriptor) (attempts : List Attempt) : Prop where
  descriptors : attempts.map (·.descriptor) = benchmarks
  ended : ∀ attempt ∈ attempts, attempt.ended = true
  consistent : ∀ attempt ∈ attempts, attempt.Consistent

/-- After some of the benchmarks one is still executing operations, and it has executed `fuel`. -/
structure GoingOn (benchmarks : List BenchmarkDescriptor) (fuel : Nat) (earlier : List Attempt)
    (descriptor : BenchmarkDescriptor) (measured : List Measured) : Prop where
  started : ∃ later, benchmarks = earlier.map (·.descriptor) ++ descriptor :: later
  concluded : Concluded (earlier.map (·.descriptor)) earlier
  measures : Measures descriptor.name 0 measured
  length : measured.length = fuel

def failedOf (attempts : List Attempt) : List BenchmarkDescriptor :=
  (attempts.filter (·.failed)).map (·.descriptor)

theorem concluded_nil : Concluded [] [] where
  descriptors := rfl
  ended := by simp
  consistent := by simp

theorem Concluded.cons {benchmarks : List BenchmarkDescriptor} {attempts : List Attempt}
    {attempt : Attempt} (ended : attempt.ended = true) (consistent : attempt.Consistent)
    (more : Concluded benchmarks attempts) :
    Concluded (attempt.descriptor :: benchmarks) (attempt :: attempts) where
  descriptors := by rw [List.map_cons, more.descriptors]
  ended := List.forall_mem_cons.mpr ⟨ended, more.ended⟩
  consistent := List.forall_mem_cons.mpr ⟨consistent, more.consistent⟩

theorem failedOf_cons (attempt : Attempt) (attempts : List Attempt) :
    failedOf (attempt :: attempts) =
      (if attempt.failed then [attempt.descriptor] else []) ++ failedOf attempts := by
  rw [failedOf, List.filter_cons]
  split <;> rfl

theorem unseen_reportFailure (b : String) (cause : Throwable) :
    Unseen Event.mark? (reportFailure b cause : Action π Unit) := by
  unfold reportFailure
  split
  · exact unseen_emit rfl
  · exact closed_unseen.bind (unseen_emit rfl) fun _ => unseen_emit rfl

theorem returns_reportFailure (b : String) (cause : Throwable) :
    Returns (reportFailure b cause : Action π Unit) := by
  unfold reportFailure
  split
  · exact returns_emit _
  · exact returns_bind (returns_emit _) fun _ => returns_emit _

section Benchmarks

variable {h : Harness π} (calm : h.env.ListenersReturn)
include calm

theorem ensures_executeLoaded (fuel : Nat) (failed : List BenchmarkDescriptor)
    (d : BenchmarkDescriptor) (w : World π) :
    Ensures Event.mark? (h.executeLoaded fuel failed d)
      (fun reason seen => reason = some .outOfFuel ∧
        ∃ measured, Measures d.name 0 measured ∧ measured.length = fuel ∧
          seen = h.measuredMarks measured)
      (fun failed' _ seen => ∃ measured threw, Measures d.name 0 measured ∧
        .attempted d.name :: .loaded d.name :: seen = h.attemptMarks (.executed d measured threw) ∧
        failed' = failed ++ if threw then [d] else []) w := by
  refine ensures_bind_iff.mpr (ensures_attempt (ensures_invoke ?_))
  refine (ensures_executeBenchmark_marks calm d.name fuel w).mono ?_ ?_
  · rintro reason seen ⟨measured, measures, rfl, rfl | ⟨rfl, length⟩⟩
    · intro cause w1
      refine ensures_bind_iff.mpr (ensures_notify calm rfl (by simp) fun w2 => ?_)
      refine ensures_bind_iff.mpr ((unseen_reportFailure _ _).script.ensures
        (returns_reportFailure _ _) fun _ w3 => ?_)
      exact ensures_pure ⟨measured, true, measures, by simp [Event.mark?, Harness.attemptMarks], rfl⟩
    · exact ⟨rfl, measured, measures, length, by simp [Event.mark?]⟩
  · rintro _ w1 seen ⟨measured, measures, rfl, -⟩
    refine ensures_pure ⟨measured, false, measures, ?_, (List.append_nil _).symm⟩
    simp [Event.mark?, Harness.attemptMarks]

theorem ensures_runBenchmark (fuel : Nat) (failed : List BenchmarkDescriptor)
    (d : BenchmarkDescriptor) (w : World π) :
    Ensures Event.mark? (h.runBenchmark fuel failed d)
      (fun reason seen => reason = some .outOfFuel ∧
        ∃ measured, Measures d.name 0 measured ∧ measured.length = fuel ∧
          seen = h.attemptMarks (.running d measured))
      (fun failed' _ seen => ∃ attempt : Attempt, attempt.descriptor = d ∧ attempt.ended = true ∧
        attempt.Consistent ∧ seen = h.attemptMarks attempt ∧
        failed' = failed ++ if attempt.failed then [d] else []) w := by
  refine ensures_bind_iff.mpr (ensures_attempt (ensures_bind_iff.mpr (ensures_invoke ?_)))
  have loads : Hidden (external (h.env.create d.name)) := ⟨unseen_external _, finishes_external _⟩
  refine ensures_hidden loads ?_ fun _ w1 => ?_
  · -- The benchmark could not be loaded.
    intro cause w1
    refine ensures_bind_iff.mpr (ensures_emit (ensures_pure ?_))
    exact ⟨.notLoaded d, rfl, rfl, measures_nil d.name 0, rfl, rfl⟩
  · refine (ensures_executeLoaded calm fuel failed d w1).mono ?_ ?_
    · rintro reason seen ⟨rfl, measured, measures, length, rfl⟩
      exact ⟨rfl, measured, measures, length, rfl⟩
    · rintro failed' w2 seen ⟨measured, threw, measures, marks, rfl⟩
      refine ensures_pure ⟨.executed d measured threw, rfl, rfl, measures, ?_, rfl⟩
      rw [← marks]
      simp [Event.mark?]

theorem ensures_runEach (fuel : Nat) (failed benchmarks : List BenchmarkDescriptor) (w : World π) :
    Ensures Event.mark? (h.runEach fuel failed benchmarks)
      (fun reason seen => reason = some .outOfFuel ∧
        ∃ earlier d measured, GoingOn benchmarks fuel earlier d measured ∧
          seen = (earlier ++ [Attempt.running d measured]).flatMap h.attemptMarks)
      (fun failed' _ seen => ∃ attempts, Concluded benchmarks attempts ∧
        seen = attempts.flatMap h.attemptMarks ∧ failed' = failed ++ failedOf attempts) w := by
  induction benchmarks generalizing failed w with
  | nil => exact ensures_pure ⟨[], concluded_nil, rfl, (List.append_nil _).symm⟩
  | cons d benchmarks ih =>
      refine ensures_bind_iff.mpr ((ensures_runBenchmark calm fuel failed d w).mono ?_ ?_)
      · rintro reason seen ⟨rfl, measured, measures, length, rfl⟩
        exact ⟨rfl, [], d, measured, ⟨⟨benchmarks, rfl⟩, concluded_nil, measures, length⟩, by simp⟩
      · rintro failed' w1 seen ⟨attempt, rfl, ended, consistent, rfl, rfl⟩
        refine (ih _ w1).mono ?_ ?_
        · rintro reason more ⟨rfl, earlier, d', measured, goingOn, rfl⟩
          obtain ⟨later, rfl⟩ := goingOn.started
          refine ⟨rfl, attempt :: earlier, d', measured, ⟨⟨later, rfl⟩, ?_, goingOn.measures,
            goingOn.length⟩, by simp⟩
          exact .cons ended consistent goingOn.concluded
        · rintro failed'' w2 more ⟨attempts, concluded, rfl, rfl⟩
          refine ⟨attempt :: attempts, .cons ended consistent concluded, by simp, ?_⟩
          rw [failedOf_cons, List.append_assoc]

end Benchmarks

end Renaissance
