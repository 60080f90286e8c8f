import Renaissance.Harness.Events

/-!
# The driver's trace of a benchmark

What the driver does in one operation, in the loop and in a whole benchmark, call by call and for
every point at which a call may throw.

Results:
1. `executeOperation_follows`: an operation goes through its ten calls in order, until one throws.
2. `operationLoop_driver`, `executeOperations_driver`: the loop is a sequence of complete rounds with
   consecutive indices, and at most one round that ended early.
3. `guarded_driver`: an opening call, the guarded body, and the closing call.
-/

namespace Renaissance

open Traced JavaInt

variable {π : Type}

/-! ## Calls in order -/

/-- A call of the driver and the mark it leaves when it comes to a normal end. -/
structure Phase where
  call : Call
  mark : Event

namespace Phase

def plain (call : Call) : Phase := ⟨call, .returned call⟩

def query (call : Call) (answer : Bool) : Phase := ⟨call, .answered call answer⟩

def passed (phase : Phase) : List Event := [.call phase.call, phase.mark]

def failed (phase : Phase) : List Event := [.call phase.call, .threw phase.call]

end Phase

/-- The calls were made in order, and the run ended with the first that threw. -/
def Progress {α : Type} (phases : List Phase) (a : α) (outcome : Outcome Throwable α)
    (t : List Event) : Prop :=
  (outcome = .ret a ∧ t = phases.flatMap Phase.passed) ∨
  ∃ done last rest cause, phases = done ++ last :: rest ∧ outcome = .thrown cause ∧
    t = done.flatMap Phase.passed ++ last.failed

/-- Every run of `m` goes through the calls of one of the scripts in `S`. A script and the value at
its end go together. -/
def Follows {α : Type} (S : List Phase → α → Prop) (m : Action π α) : Prop :=
  ∀ w, ∃ phases a, S phases a ∧ Progress phases a (m w).outcome (driverTrace (m w).trace)

theorem follows_pure {α : Type} {S : List Phase → α → Prop} {a : α} (h : S [] a) :
    Follows S (pure a : Action π α) :=
  fun _ => ⟨[], a, h, .inl ⟨rfl, rfl⟩⟩

/-- After an exception the script has still to be completed, with any value of the call. -/
theorem follows_call {α β : Type} [Inhabited α] {call : Call} {mark : α → Event} {m : Action π α}
    {f : α → Action π β} {S : List Phase → β → Prop} (called : DriverCall call mark m)
    (next : ∀ a, Follows (fun phases b => S (⟨call, mark a⟩ :: phases) b) (f a)) :
    Follows S (m >>= f) := by
  intro w
  rw [bind_apply]
  obtain ⟨a, returned, marks⟩ | ⟨e, threw, marks⟩ := called w
  · obtain ⟨phases, b, script, progress⟩ := next a (m w).state
    refine ⟨_, b, script, ?_⟩
    rw [andThen_ret returned, driverTrace_append, marks]
    obtain ⟨ended, rest⟩ | ⟨done, last, rest, cause, rfl, ended, failed⟩ := progress
    · exact .inl ⟨ended, by rw [rest]; rfl⟩
    · refine .inr ⟨⟨call, mark a⟩ :: done, last, rest, cause, rfl, ended, ?_⟩
      rw [failed]
      rfl
  · obtain ⟨phases, b, script, -⟩ := next default (m w).state
    refine ⟨_, b, script, .inr ⟨[], ⟨call, mark default⟩, phases, e, rfl, ?_, ?_⟩⟩
    · rw [andThen_thrown threw]
    · rw [andThen_thrown threw, marks]
      rfl

theorem follows_nanoTime {β : Type} {env : Env π} {f : Int → Action π β}
    {S : List Phase → β → Prop} (next : ∀ now, Follows S (f now)) :
    Follows S (nanoTime env >>= f) := fun w => by
  rw [bind_apply, nanoTime, step_apply, andThen_ret rfl]
  exact next _ _

/-! ## One operation -/

/-- What a round of the loop is about: the operation it executes, and whether the policy called it
the last one. -/
structure Round where
  operation : Operation
  isLastOp : Bool

/-- The calls that `executeOperation` makes. -/
def Round.phases (vmStartNanos : Int) (round : Round) : List Phase :=
  let op := round.operation
  [.plain (.benchmark .setUpBeforeEach op.benchmark),
    .query (.isLast op.benchmark op.index) round.isLastOp,
    .plain (.notify (.afterOperationSetUp op.benchmark op.index round.isLastOp)),
    .plain (.benchmark .run op.benchmark),
    .plain (.notify (.beforeOperationTearDown op.benchmark op.index op.durationNanos)),
    .plain (.benchmark .tearDownAfterEach op.benchmark),
    .plain (.validate op),
    .plain (.notify (.onMeasurementResult op.benchmark "uptime_ns"
      (long (op.startNanos - vmStartNanos)))),
    .plain (.notify (.onMeasurementResult op.benchmark "duration_ns" op.durationNanos)),
    .plain (.notify (.onMeasurementResultsRequested op.benchmark op.index))]

theorem executeOperation_follows (h : Harness π) (b : String) (i : Int) :
    Follows
      (fun phases nanos => ∃ round : Round, round.operation.benchmark = b ∧
        round.operation.index = i ∧ round.operation.durationNanos = nanos ∧
        phases = round.phases h.vmStartNanos)
      (h.executeOperation b i) := by
  refine follows_call (driverCall_callBenchmark h _ b) fun _ => ?_
  refine follows_call (driverCall_isLast h b i) fun isLastOp => ?_
  refine follows_call (driverCall_notify h (by simp)) fun _ => ?_
  refine follows_nanoTime fun startNanos => ?_
  refine follows_call (driverCall_callBenchmark h _ b) fun _ => ?_
  refine follows_nanoTime fun endNanos => ?_
  refine follows_call (driverCall_notify h (by simp)) fun _ => ?_
  refine follows_call (driverCall_callBenchmark h _ b) fun _ => ?_
  refine follows_call (driverCall_validate h _) fun _ => ?_
  refine follows_call (driverCall_notify h (by simp)) fun _ => ?_
  refine follows_call (driverCall_notify h (by simp)) fun _ => ?_
  refine follows_call (driverCall_notifyOnMeasurementResultsRequested h b i) fun _ => ?_
  refine follows_pure ⟨⟨⟨b, i, startNanos, long (endNanos - startNanos)⟩, isLastOp⟩, rfl, rfl, rfl, ?_⟩
  rfl

/-! ## The loop -/

/-- What the driver does in a round that it completes. -/
def Round.trace (vmStartNanos : Int) (round : Round) : List Event :=
  let op := round.operation
  (Phase.query (.canExecute op.benchmark op.index) true).passed ++
    (.printed (.started op.benchmark op.index) ::
      ((round.phases vmStartNanos).flatMap Phase.passed ++
        [.printed (.completed op.benchmark op.index op.durationNanos)]))

/-- What the driver does from the end of the last complete round on, and what the loop ends with:
the policy declined, the policy threw, a call of the operation threw, or the line before or after the
operation could not be printed. -/
inductive LastRound (vmStartNanos : Int) (b : String) (i : Int) :
    Except Throwable Unit → List Event → Prop
  | declined : LastRound vmStartNanos b i (.ok ()) (Phase.query (.canExecute b i) false).passed
  | undecided (cause : Throwable) :
      LastRound vmStartNanos b i (.error cause) (Phase.query (.canExecute b i) true).failed
  | broken {round : Round} {done rest : List Phase} {last : Phase} (cause : Throwable) :
      round.operation.benchmark = b → round.operation.index = i →
      round.phases vmStartNanos = done ++ last :: rest →
      LastRound vmStartNanos b i (.error cause)
        ((Phase.query (.canExecute b i) true).passed ++
          (.printed (.started b i) :: (done.flatMap Phase.passed ++ last.failed)))
  | unstarted (cause : Throwable) :
      LastRound vmStartNanos b i (.error cause)
        ((Phase.query (.canExecute b i) true).passed ++ [.unprinted (.started b i)])
  | unreported {round : Round} (cause : Throwable) :
      round.operation.benchmark = b → round.operation.index = i →
      LastRound vmStartNanos b i (.error cause)
        ((Phase.query (.canExecute b i) true).passed ++
          (.printed (.started b i) :: ((round.phases vmStartNanos).flatMap Phase.passed ++
            [.unprinted (.completed b i round.operation.durationNanos)])))

/-- The rest of a round from the line before the operation on: the round is complete, or it is the last. -/
theorem begunRound_driver (h : Harness π) (b : String) (i : Int) (w : World π) :
    let run := (h.executeOperation b i >>= fun nanos =>
      h.printAfterSuccessMessage b i nanos >>= fun _ => pure true) w
    let begun := (Phase.query (.canExecute b i) true).passed ++ [.printed (.started b i)]
    (∃ round : Round, round.operation.benchmark = b ∧ round.operation.index = i ∧
      run.outcome = .ret true ∧ begun ++ driverTrace run.trace = round.trace h.vmStartNanos) ∨
    (∃ cause, run.outcome = .thrown cause ∧
      LastRound h.vmStartNanos b i (.error cause) (begun ++ driverTrace run.trace)) := by
  intro run begun
  have unfolded : run = (h.executeOperation b i w).andThen fun nanos =>
      h.printf (.completed b i nanos) >>= fun _ => pure true := rfl
  obtain ⟨phases, nanos, ⟨round, rfl, rfl, rfl, rfl⟩, progress⟩ := executeOperation_follows h b i w
  obtain ⟨ended, ops⟩ | ⟨done, last, rest, cause, split, ended, ops⟩ := progress
  · rw [unfolded, andThen_ret ended, bind_apply]
    obtain ⟨-, completed⟩ | ⟨-, e, uncompleted⟩ :=
      printf_cases h (.completed round.operation.benchmark round.operation.index
        round.operation.durationNanos) (h.executeOperation _ _ w).state
    · refine .inl ⟨round, rfl, rfl, ?_, ?_⟩
      · rw [completed, andThen_ret rfl]
        rfl
      · rw [completed, andThen_ret rfl, driverTrace_append, ops]
        rfl
    · refine .inr ⟨e, ?_, ?_⟩
      · rw [uncompleted, andThen_thrown rfl]
      · rw [uncompleted, andThen_thrown rfl, driverTrace_append, ops]
        exact .unreported e rfl rfl
  · refine .inr ⟨cause, ?_, ?_⟩
    · rw [unfolded, andThen_thrown ended]
    · rw [unfolded, andThen_thrown ended, ops]
      exact .broken cause rfl rfl split

theorem loopBody_driver (h : Harness π) (b : String) (i : Int) (w : World π) :
    let run := h.loopBody b i w
    (∃ round : Round, round.operation.benchmark = b ∧ round.operation.index = i ∧
      run.outcome = .ret true ∧ driverTrace run.trace = round.trace h.vmStartNanos) ∨
    (run.outcome = .ret false ∧
      LastRound h.vmStartNanos b i (.ok ()) (driverTrace run.trace)) ∨
    (∃ cause, run.outcome = .thrown cause ∧
      LastRound h.vmStartNanos b i (.error cause) (driverTrace run.trace)) := by
  intro run
  have unfolded : run = (h.canExecute b i w).andThen fun answer =>
      if answer then
        h.printf (.started b i) >>= fun _ => h.executeOperation b i >>= fun nanos =>
          h.printAfterSuccessMessage b i nanos >>= fun _ => pure true
      else pure false := rfl
  obtain ⟨answer, answered, marks⟩ | ⟨e, threw, marks⟩ := driverCall_canExecute h b i w
  · rw [unfolded, andThen_ret answered]
    cases answer with
    | false =>
        refine .inr (.inl ⟨rfl, ?_⟩)
        simp only [Bool.false_eq_true, if_false, pure_apply, List.append_nil, marks]
        exact .declined
    | true =>
        rw [if_pos rfl, bind_apply]
        obtain ⟨-, started⟩ | ⟨-, e, unstarted⟩ :=
          printf_cases h (.started b i) (h.canExecute b i w).state
        · rw [started, andThen_ret rfl]
          simp only [driverTrace_append, marks]
          obtain ⟨round, benchmark, index, ended, trace⟩ | ⟨cause, ended, last⟩ :=
            begunRound_driver h b i (h.canExecute b i w).state
          · exact .inl ⟨round, benchmark, index, ended, trace⟩
          · exact .inr (.inr ⟨cause, ended, last⟩)
        · rw [unstarted, andThen_thrown rfl]
          refine .inr (.inr ⟨e, rfl, ?_⟩)
          simp only [driverTrace_append, marks]
          exact .unstarted e
  · refine .inr (.inr ⟨e, ?_, ?_⟩)
    · rw [unfolded, andThen_thrown threw]
    · rw [unfolded, andThen_thrown threw, marks]
      exact .undecided e

/-- Complete rounds of a benchmark with consecutive indices, the first one `k`. An index is a 32-bit
integer. -/
structure Rounds (b : String) (k : Nat) (rounds : List Round) : Prop where
  benchmark : ∀ round ∈ rounds, round.operation.benchmark = b
  indices : rounds.map (·.operation.index) = (List.range' k rounds.length).map fun i : Nat => int i

theorem rounds_nil (b : String) (k : Nat) : Rounds b k [] where
  benchmark := by simp
  indices := rfl

theorem Rounds.cons {b : String} {k : Nat} {round : Round} {rounds : List Round}
    (benchmark : round.operation.benchmark = b) (index : round.operation.index = int k)
    (more : Rounds b (k + 1) rounds) : Rounds b k (round :: rounds) where
  benchmark := by
    intro r hr
    rcases List.mem_cons.mp hr with rfl | hr
    · exact benchmark
    · exact more.benchmark r hr
  indices := by
    rw [List.map_cons, List.length_cons, List.range'_succ, List.map_cons, index, more.indices]

theorem operationLoop_succ (h : Harness π) (b : String) (fuel : Nat) (i : Int) (w : World π) :
    h.operationLoop b (fuel + 1) i w = (attempt (h.loopBody b i) w).andThen fun result =>
      match result with
      | .error cause => pure (i, .error cause)
      | .ok false => pure (i, .ok ())
      | .ok true => h.operationLoop b fuel (int (i + 1)) :=
  rfl

theorem operationLoop_driver (h : Harness π) (b : String) (fuel k : Nat) (w : World π) :
    let run := h.operationLoop b fuel (int k) w
    ∃ rounds, Rounds b k rounds ∧
      ((run.outcome = .stopped .outOfFuel ∧ rounds.length = fuel ∧
          driverTrace run.trace = rounds.flatMap (Round.trace h.vmStartNanos)) ∨
        ∃ result tail, run.outcome = .ret (int ↑(k + rounds.length), result) ∧
          rounds.length < fuel ∧ LastRound h.vmStartNanos b (int ↑(k + rounds.length)) result tail ∧
          driverTrace run.trace = rounds.flatMap (Round.trace h.vmStartNanos) ++ tail) := by
  induction fuel generalizing k w with
  | zero => exact ⟨[], rounds_nil b k, .inl ⟨rfl, rfl, rfl⟩⟩
  | succ fuel ih =>
      intro run
      have unfolded : run = _ := operationLoop_succ h b fuel (int k) w
      obtain ⟨round, benchmark, index, ended, marks⟩ | ⟨ended, last⟩ | ⟨cause, ended, last⟩ :=
        loopBody_driver h b (int k) w
      · -- A complete round, and then the loop again.
        rw [unfolded, andThen_ret (attempt_ret ended), int_succ]
        obtain ⟨rounds, consecutive, outcome⟩ := ih (k + 1) (attempt (h.loopBody b (int k)) w).state
        have shift : k + 1 + rounds.length = k + (round :: rounds).length := by
          simp only [List.length_cons]
          omega
        refine ⟨round :: rounds, .cons benchmark index consecutive, ?_⟩
        simp only [driverTrace_append, attempt_trace, marks, List.flatMap_cons, List.append_assoc]
        rcases outcome with ⟨stopped, length, rest⟩ | ⟨result, tail, returned, less, last, rest⟩
        · exact .inl ⟨stopped, by rw [List.length_cons, length], by rw [rest]⟩
        · rw [shift] at returned last
          exact .inr ⟨result, tail, returned, by simpa using less, last, by rw [rest]⟩
      · rw [unfolded, andThen_ret (attempt_ret ended)]
        refine ⟨[], rounds_nil b k, .inr ⟨.ok (), _, rfl, Nat.zero_lt_succ _, last, ?_⟩⟩
        simp only [attempt_trace, pure_apply, List.append_nil, List.flatMap_nil, List.nil_append]
      · rw [unfolded, andThen_ret (attempt_thrown ended)]
        refine ⟨[], rounds_nil b k, .inr ⟨.error cause, _, rfl, Nat.zero_lt_succ _, last, ?_⟩⟩
        simp only [attempt_trace, pure_apply, List.append_nil, List.flatMap_nil, List.nil_append]

/-- The loop of a benchmark and its `catch` block: the complete rounds, and how it came to an end. What
is thrown is the cause, or else the exception of the line that was to report it. -/
inductive OperationsRun (vmStartNanos : Int) (b : String) (fuel : Nat) :
    Outcome Throwable Unit → List Event → Prop
  | outOfFuel {rounds : List Round} : Rounds b 0 rounds → rounds.length = fuel →
      OperationsRun vmStartNanos b fuel (.stopped .outOfFuel)
        (rounds.flatMap (Round.trace vmStartNanos))
  | returned {rounds : List Round} {tail : List Event} : Rounds b 0 rounds →
      rounds.length < fuel → LastRound vmStartNanos b (int ↑rounds.length) (.ok ()) tail →
      OperationsRun vmStartNanos b fuel (.ret ())
        (rounds.flatMap (Round.trace vmStartNanos) ++ tail)
  | thrown {rounds : List Round} {tail : List Event} {cause e : Throwable} {mark : Event} :
      Rounds b 0 rounds → rounds.length < fuel →
      LastRound vmStartNanos b (int ↑rounds.length) (.error cause) tail →
      (mark = .printed (.failed b (int ↑rounds.length) cause.simpleName) ∧ e = cause) ∨
        mark = .unprinted (.failed b (int ↑rounds.length) cause.simpleName) →
      OperationsRun vmStartNanos b fuel (.thrown e)
        (rounds.flatMap (Round.trace vmStartNanos) ++ (tail ++ [mark]))

theorem executeOperations_eq (h : Harness π) (fuel : Nat) (b : String) (w : World π) :
    h.executeOperations fuel b w = (h.operationLoop b fuel (int (0 : Nat)) w).andThen fun p =>
      match p.2 with
      | .ok () => pure ()
      | .error cause =>
          h.printAfterFailureMessage b p.1 cause.simpleName >>= fun _ => Traced.throw cause :=
  rfl

theorem executeOperations_driver (h : Harness π) (fuel : Nat) (b : String) (w : World π) :
    OperationsRun h.vmStartNanos b fuel (h.executeOperations fuel b w).outcome
      (driverTrace (h.executeOperations fuel b w).trace) := by
  obtain ⟨rounds, consecutive, outcome⟩ := operationLoop_driver h b fuel 0 w
  rw [executeOperations_eq]
  rcases outcome with ⟨stopped, length, marks⟩ | ⟨result, tail, returned, less, last, marks⟩
  · rw [andThen_stopped stopped, marks]
    exact .outOfFuel consecutive length
  · rw [Nat.zero_add] at returned last
    rw [andThen_ret returned]
    cases result with
    | ok _ =>
        simp only [pure_apply, List.append_nil, marks]
        exact .returned consecutive less last
    | error cause =>
        simp only [bind_apply, Harness.printAfterFailureMessage]
        obtain ⟨-, failed⟩ | ⟨-, e, unreported⟩ :=
          printf_cases h (.failed b (int ↑rounds.length) cause.simpleName)
            (h.operationLoop b fuel (int (0 : Nat)) w).state
        · rw [failed, andThen_ret rfl]
          simp only [throw_apply, driverTrace_append, marks, List.append_assoc]
          exact .thrown consecutive less last (.inl ⟨rfl, rfl⟩)
        · rw [unreported, andThen_thrown rfl]
          simp only [driverTrace_append, marks, List.append_assoc]
          exact .thrown consecutive less last (.inr rfl)

/-! ## Guarded blocks -/

/-- `opening(); try { body } finally { closing(); }`, as the driver sees it: the opening call threw,
the body is still going on, the closing call returned, or it threw. -/
theorem guarded_driver {opening closing : Call} {enter leave body : Action π Unit}
    (opened : DriverCall opening (fun _ => .returned opening) enter)
    (closed : DriverCall closing (fun _ => .returned closing) leave) (w : World π) :
    let inside := body (enter w).state
    let run := (enter >>= fun _ => tryFinally body leave) w
    let t := driverTrace run.trace
    (∃ e, run.outcome = .thrown e ∧ t = (Phase.plain opening).failed) ∨
    (inside.outcome.finished = false ∧ run.outcome = inside.outcome ∧
      t = (Phase.plain opening).passed ++ driverTrace inside.trace) ∨
    (inside.outcome.finished = true ∧ run.outcome = inside.outcome ∧
      t = (Phase.plain opening).passed ++ (driverTrace inside.trace ++ (Phase.plain closing).passed)) ∨
    (inside.outcome.finished = true ∧ (∃ e, run.outcome = .thrown e) ∧
      t = (Phase.plain opening).passed ++
        (driverTrace inside.trace ++ (Phase.plain closing).failed)) := by
  intro inside run t
  let after := leave inside.state
  rcases guarded_cases enter body leave w with ⟨notReturned, same⟩ | ⟨returned, unfinished, same⟩ |
      ⟨returned, finished, same⟩
  · -- the opening call did not return, so it threw
    rcases opened w with ⟨u, returned, -⟩ | ⟨e, threw, marks⟩
    · exact absurd returned notReturned
    · refine .inl ⟨e, ?_, ?_⟩
      · rw [← threw]
        exact congrArg Run.outcome same
      · exact (congrArg (fun r => driverTrace r.trace) same).trans marks
  · have marks := opened.marks_of_ret returned
    -- the body has not ended, so there is no closing call yet
    replace same : run = ⟨inside.outcome, (enter w).trace ++ inside.trace, inside.state⟩ := same
    refine .inr (.inl ⟨unfinished, by rw [same], ?_⟩)
    rw [show t = driverTrace run.trace from rfl, same, driverTrace_append, marks]
    rfl
  · have marks := opened.marks_of_ret returned
    replace same : run = ⟨inside.outcome.after after.outcome,
        (enter w).trace ++ (inside.trace ++ after.trace), after.state⟩ := same
    have body : t = (Phase.plain opening).passed ++
        (driverTrace inside.trace ++ driverTrace after.trace) := by
      rw [show t = driverTrace run.trace from rfl, same, driverTrace_append, driverTrace_append,
        marks]
      rfl
    have ended : run.outcome = inside.outcome.after after.outcome := by rw [same]
    rcases closed inside.state with ⟨u, left, leaving⟩ | ⟨e, threw, leaving⟩
    · refine .inr (.inr (.inl ⟨finished, ?_, ?_⟩))
      · rw [ended, show after.outcome = .ret u from left]
        rfl
      · rw [body, show driverTrace after.trace = _ from leaving]
        rfl
    · refine .inr (.inr (.inr ⟨finished, ⟨e, ?_⟩, ?_⟩))
      · rw [ended, show after.outcome = .thrown e from threw]
        rfl
      · rw [body, show driverTrace after.trace = _ from leaving]
        rfl

end Renaissance
