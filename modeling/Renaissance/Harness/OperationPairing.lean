import Renaissance.Lib.Pairing
import Renaissance.Harness.BenchmarkNesting

/-!
# Set up and tear down of the operations

`executeOperation` has no `finally` block: an operation in which a call throws terminates prematurely,
and its tear down is left out.

Results:
1. `executeBenchmark_paired_iff`: the operations of a run are paired exactly if no call between set up
   and tear down threw and the indices did not repeat.
2. `executeBenchmark_unpaired`: an operation that throws is not torn down.
-/

namespace Renaissance

open Traced JavaInt Pairing

variable {π : Type}

/-! ## Pairs of an operation -/

def Event.setUpEach? : Event → Option Unit
  | .returned (.benchmark .setUpBeforeEach _) => some ()
  | _ => none

def Event.tearDownEach? : Event → Option Unit
  | .call (.benchmark .tearDownAfterEach _) => some ()
  | _ => none

def Event.endsSetUp : Event → Bool
  | .call (.benchmark .setUpBeforeEach _) | .call (.benchmark .tearDownAfterAll _) => true
  | _ => false

/-- The index of a set-up notification that returned. -/
def Event.notifiedSetUp? : Event → Option Int
  | .returned (.notify (.afterOperationSetUp _ i _)) => some i
  | _ => none

def Event.notifiesTearDown? : Event → Option Int
  | .call (.notify (.beforeOperationTearDown _ i _)) => some i
  | _ => none

/-- The tear-down events of the benchmark. -/
def Event.endsBenchmark : Event → Bool
  | .call (.notify (.beforeBenchmarkTearDown _)) | .call (.benchmark .tearDownAfterAll _)
  | .call (.notify (.afterBenchmarkTearDown _)) => true
  | _ => false

/-- Each `setUpBeforeEach` that returned is followed by one `tearDownAfterEach` before the next
`setUpBeforeEach` or `tearDownAfterAll`, and each set-up notification that returned by one tear-down
notification of the same index before the benchmark is torn down. -/
structure OperationsPaired (t : List Event) : Prop where
  benchmark : ClosedOnce Event.setUpEach? Event.tearDownEach? Event.endsSetUp t
  notifications :
    ClosedOnce Event.notifiedSetUp? Event.notifiesTearDown? Event.endsBenchmark t

/-- A call between the set up and the tear down of an operation threw. -/
def Event.breaksOperation : Event → Bool
  | .threw (.isLast ..) | .threw (.notify (.afterOperationSetUp ..)) | .threw (.benchmark .run _)
  | .threw (.notify (.beforeOperationTearDown ..)) => true
  | _ => false

/-- The indices of the set-up notifications that returned. -/
def setUpIndices (t : List Event) : List Int := t.filterMap Event.notifiedSetUp?

/-- An event with no part in the pairs of an operation. -/
structure Event.Inert (e : Event) : Prop where
  setUpEach : e.setUpEach? = none
  tearDownEach : e.tearDownEach? = none
  notifiedSetUp : e.notifiedSetUp? = none
  notifiesTearDown : e.notifiesTearDown? = none
  breaksNothing : e.breaksOperation = false

/-! ## Complete rounds -/

theorem closedOnce_round_benchmark (vm : Int) (round : Round) {rest : List Event}
    (fresh : timesClosed Event.tearDownEach? Event.endsSetUp () rest = 0) :
    (ClosedOnce Event.setUpEach? Event.tearDownEach? Event.endsSetUp (round.trace vm ++ rest) ↔
      ClosedOnce Event.setUpEach? Event.tearDownEach? Event.endsSetUp rest) ∧
    timesClosed Event.tearDownEach? Event.endsSetUp () (round.trace vm ++ rest) = 0 := by
  simp [Round.trace, Round.phases, Phase.passed, Phase.plain, Phase.query, ClosedOnce, timesClosed_cons,
    Event.setUpEach?, Event.tearDownEach?, Event.endsSetUp, fresh]

theorem timesClosed_round_notifications (vm : Int) (round : Round) (rest : List Event) (k : Int) :
    timesClosed Event.notifiesTearDown? Event.endsBenchmark k (round.trace vm ++ rest) =
      (if round.operation.index = k then 1 else 0) +
        timesClosed Event.notifiesTearDown? Event.endsBenchmark k rest := by
  simp [Round.trace, Round.phases, Phase.passed, Phase.plain, Phase.query, timesClosed_cons,
    Event.notifiesTearDown?, Event.endsBenchmark]

theorem closedOnce_round_notifications (vm : Int) (round : Round) (rest : List Event) :
    ClosedOnce Event.notifiedSetUp? Event.notifiesTearDown? Event.endsBenchmark
        (round.trace vm ++ rest) ↔
      timesClosed Event.notifiesTearDown? Event.endsBenchmark round.operation.index rest = 0 ∧
        ClosedOnce Event.notifiedSetUp? Event.notifiesTearDown? Event.endsBenchmark rest := by
  simp [Round.trace, Round.phases, Phase.passed, Phase.plain, Phase.query, ClosedOnce, timesClosed_cons,
    Event.notifiedSetUp?, Event.notifiesTearDown?, Event.endsBenchmark]

theorem closedOnce_rounds_benchmark {vm : Int} {rounds : List Round} {rest : List Event}
    (fresh : timesClosed Event.tearDownEach? Event.endsSetUp () rest = 0) :
    (ClosedOnce Event.setUpEach? Event.tearDownEach? Event.endsSetUp
        (rounds.flatMap (Round.trace vm) ++ rest) ↔
      ClosedOnce Event.setUpEach? Event.tearDownEach? Event.endsSetUp rest) ∧
    timesClosed Event.tearDownEach? Event.endsSetUp () (rounds.flatMap (Round.trace vm) ++ rest) = 0 := by
  induction rounds with
  | nil => exact ⟨Iff.rfl, fresh⟩
  | cons round rounds ih =>
      rw [List.flatMap_cons, List.append_assoc]
      obtain ⟨same, later⟩ := closedOnce_round_benchmark vm round ih.2
      exact ⟨same.trans ih.1, later⟩

theorem timesClosed_rounds_notifications (vm : Int) (rounds : List Round) (rest : List Event) (k : Int) :
    timesClosed Event.notifiesTearDown? Event.endsBenchmark k
        (rounds.flatMap (Round.trace vm) ++ rest) =
      (rounds.map (·.operation.index)).count k +
        timesClosed Event.notifiesTearDown? Event.endsBenchmark k rest := by
  induction rounds with
  | nil => simp
  | cons round rounds ih =>
      rw [List.flatMap_cons, List.append_assoc, timesClosed_round_notifications, ih, List.map_cons,
        List.count_cons]
      simp only [beq_iff_eq]
      omega

/-- The rounds close what they open, so the notifications are paired if no index comes again. -/
theorem closedOnce_rounds_notifications (vm : Int) (rounds : List Round) (rest : List Event) :
    ClosedOnce Event.notifiedSetUp? Event.notifiesTearDown? Event.endsBenchmark
        (rounds.flatMap (Round.trace vm) ++ rest) ↔
      (rounds.map (·.operation.index)).Nodup ∧
        (∀ i ∈ rounds.map (·.operation.index),
          timesClosed Event.notifiesTearDown? Event.endsBenchmark i rest = 0) ∧
        ClosedOnce Event.notifiedSetUp? Event.notifiesTearDown? Event.endsBenchmark rest := by
  induction rounds with
  | nil => simp
  | cons round rounds ih =>
      rw [List.flatMap_cons, List.append_assoc, closedOnce_round_notifications,
        timesClosed_rounds_notifications, ih, List.map_cons, List.nodup_cons, List.forall_mem_cons,
        Nat.add_eq_zero_iff, List.count_eq_zero]
      tauto

theorem breaksOperation_round {vm : Int} {round : Round} :
    ∀ e ∈ round.trace vm, e.breaksOperation = false := by
  simp [Round.trace, Round.phases, Phase.passed, Phase.plain, Phase.query, Event.breaksOperation]

theorem setUpIndices_rounds (vm : Int) (rounds : List Round) (rest : List Event) :
    setUpIndices (rounds.flatMap (Round.trace vm) ++ rest) =
      rounds.map (·.operation.index) ++ setUpIndices rest := by
  induction rounds with
  | nil => rfl
  | cons round rounds ih =>
      have one : setUpIndices (round.trace vm) = [round.operation.index] := rfl
      rw [List.flatMap_cons, List.append_assoc, setUpIndices, List.filterMap_append, ← setUpIndices,
        ← setUpIndices, one, ih]
      rfl

/-! ## The last round -/

/-- The events that take part in the pair of `setUpBeforeEach`. -/
def Event.ofSetUpEach (e : Event) : Bool :=
  e.setUpEach?.isSome || e.tearDownEach?.isSome || e.endsSetUp

/-- The events that take part in the pair of the operation's notifications. -/
def Event.ofNotifications (e : Event) : Bool :=
  e.notifiedSetUp?.isSome || e.notifiesTearDown?.isSome || e.endsBenchmark

theorem irrelevant_setUpEach (e : Event) (h : e.ofSetUpEach = false) :
    e.setUpEach? = none ∧ e.tearDownEach? = none ∧ e.endsSetUp = false := by
  simpa [Event.ofSetUpEach, and_assoc] using h

theorem irrelevant_notifications (e : Event) (h : e.ofNotifications = false) :
    e.notifiedSetUp? = none ∧ e.notifiesTearDown? = none ∧ e.endsBenchmark = false := by
  simpa [Event.ofNotifications, and_assoc] using h

/-- The calls of a round that ended early are the first of its script. -/
theorem phases_cut {vm : Int} {round : Round} {done rest : List Phase} {last : Phase}
    (script : round.phases vm = done ++ last :: rest) :
    ∃ n < 10, done = (round.phases vm).take n ∧ (round.phases vm)[n]? = some last := by
  refine ⟨done.length, ?_, ?_, ?_⟩
  · have length : (round.phases vm).length = 10 := rfl
    rw [script, List.length_append, List.length_cons] at length
    omega
  · rw [script, List.take_left]
  · rw [script]
    simp

/-- What is left of the operation with index `i` when the loop ends: nothing was set up, the
operation was set up and broke, or it was torn down. -/
inductive LastOperation (i : Int) (tail : List Event) : Prop
  | idle (unbroken : tail.any Event.breaksOperation = false)
      (benchmark : tail.filter Event.ofSetUpEach = [] ∨
        ∃ b, tail.filter Event.ofSetUpEach = [.call (.benchmark .setUpBeforeEach b)])
      (notifications : tail.filter Event.ofNotifications = []) (indices : setUpIndices tail = [])
  | broken (b : String) (broken : tail.any Event.breaksOperation = true)
      (benchmark : tail.filter Event.ofSetUpEach =
        [.call (.benchmark .setUpBeforeEach b), .returned (.benchmark .setUpBeforeEach b)])
  | tornDown (b : String) (isLastOp : Bool) (nanos : Int)
      (unbroken : tail.any Event.breaksOperation = false)
      (benchmark : tail.filter Event.ofSetUpEach =
        [.call (.benchmark .setUpBeforeEach b), .returned (.benchmark .setUpBeforeEach b),
          .call (.benchmark .tearDownAfterEach b)])
      (notifications : tail.filter Event.ofNotifications =
        [.returned (.notify (.afterOperationSetUp b i isLastOp)),
          .call (.notify (.beforeOperationTearDown b i nanos))])
      (indices : setUpIndices tail = [i])

theorem LastRound.lastOperation {vm : Int} {b : String} {i : Int} {result : Except Throwable Unit}
    {tail : List Event} (last : LastRound vm b i result tail) : LastOperation i tail := by
  cases last with
  | declined | undecided _ | unstarted _ => exact .idle rfl (.inl rfl) rfl rfl
  | unreported _ _ index =>
      subst index
      exact .tornDown _ _ _ rfl rfl rfl rfl
  | @broken round _ _ _ cause _ index script =>
      subst index
      obtain ⟨n, less, rfl, found⟩ := phases_cut script
      -- One case for each of the calls at which the operation may end.
      match n, less, found with
      | 0, _, rfl => exact .idle rfl (.inr ⟨_, rfl⟩) rfl rfl
      | 1, _, rfl | 2, _, rfl | 3, _, rfl | 4, _, rfl => exact .broken _ rfl rfl
      | 5, _, rfl | 6, _, rfl | 7, _, rfl | 8, _, rfl | 9, _, rfl =>
          exact .tornDown _ _ _ rfl rfl rfl rfl

theorem LastOperation.fresh {i : Int} {tail : List Event} (last : LastOperation i tail) :
    timesClosed Event.tearDownEach? Event.endsSetUp () tail = 0 := by
  rw [← timesClosed_filter irrelevant_setUpEach]
  cases last with
  | idle _ benchmark _ _ =>
      rcases benchmark with word | ⟨b, word⟩ <;> rw [word] <;> rfl
  | broken b _ word | tornDown b _ _ _ word _ _ =>
      rw [word]
      rfl

/-- A set-up call is complemented exactly if no call broke the operation. -/
theorem LastOperation.benchmark {i : Int} {tail : List Event} (last : LastOperation i tail) :
    ClosedOnce Event.setUpEach? Event.tearDownEach? Event.endsSetUp tail ↔
      tail.any Event.breaksOperation = false := by
  rw [← closedOnce_filter irrelevant_setUpEach]
  cases last with
  | idle unbroken benchmark _ _ =>
      refine iff_of_true ?_ unbroken
      rcases benchmark with word | ⟨b, word⟩ <;> rw [word] <;>
        simp [ClosedOnce, Event.setUpEach?]
  | broken b broken word =>
      refine iff_of_false ?_ (by simp [broken])
      rw [word]
      simp [ClosedOnce, Event.setUpEach?]
  | tornDown b _ _ unbroken word _ _ =>
      refine iff_of_true ?_ unbroken
      rw [word]
      simp [ClosedOnce, Event.setUpEach?, timesClosed_cons, Event.tearDownEach?, Event.endsSetUp]

/-- The set-up notification of an operation that nothing broke is complemented once. -/
theorem LastOperation.notifications {i : Int} {tail : List Event} (last : LastOperation i tail)
    (unbroken : tail.any Event.breaksOperation = false) :
    ClosedOnce Event.notifiedSetUp? Event.notifiesTearDown? Event.endsBenchmark tail ∧
      (setUpIndices tail = [] ∨ setUpIndices tail = [i]) ∧
      ∀ k, timesClosed Event.notifiesTearDown? Event.endsBenchmark k tail =
        (setUpIndices tail).count k := by
  have times := fun k => timesClosed_filter irrelevant_notifications k tail
  rw [← closedOnce_filter irrelevant_notifications]
  simp only [← times]
  cases last with
  | idle _ _ word indices =>
      rw [word, indices]
      exact ⟨trivial, .inl rfl, fun k => rfl⟩
  | broken b broken _ => simp [unbroken] at broken
  | tornDown b isLastOp nanos _ _ word indices =>
      rw [word, indices]
      simp [ClosedOnce, Event.notifiedSetUp?, timesClosed_cons, Event.notifiesTearDown?,
        Event.endsBenchmark, List.count_cons]

theorem lastOperation_nil (i : Int) : LastOperation i [] :=
  .idle rfl (.inl rfl) rfl rfl

/-! ## The whole benchmark -/

/-- The loop: its pairs are complete exactly if no call between a set up and its tear down threw and
there are enough indices for all operations. -/
theorem paired_loop {vm : Int} {b : String} {rounds : List Round} {tail : List Event}
    (consecutive : Rounds b 0 rounds) (last : LastOperation (int ↑rounds.length) tail) :
    let loop := rounds.flatMap (Round.trace vm) ++ tail
    OperationsPaired loop ↔
      (∀ e ∈ loop, e.breaksOperation = false) ∧ (setUpIndices loop).length ≤ 2 ^ 32 := by
  intro loop
  have unbroken : (∀ e ∈ loop, e.breaksOperation = false) ↔
      tail.any Event.breaksOperation = false := by
    rw [List.any_eq_false]
    constructor
    · intro all e he
      simp [all e (List.mem_append_right _ he)]
    · intro tailOnly e he
      rcases List.mem_append.mp he with he | he
      · obtain ⟨round, -, he⟩ := List.mem_flatMap.mp he
        exact breaksOperation_round e he
      · simpa using tailOnly e he
  have indices : setUpIndices loop =
      ((List.range rounds.length).map fun i : Nat => int i) ++ setUpIndices tail := by
    rw [setUpIndices_rounds, consecutive.indices, List.range_eq_range']
  have paired : OperationsPaired loop ↔
      ClosedOnce Event.setUpEach? Event.tearDownEach? Event.endsSetUp loop ∧
      ClosedOnce Event.notifiedSetUp? Event.notifiesTearDown? Event.endsBenchmark loop :=
    ⟨fun h => ⟨h.benchmark, h.notifications⟩, fun h => ⟨h.1, h.2⟩⟩
  rw [paired, unbroken, (closedOnce_rounds_benchmark last.fresh).1, last.benchmark]
  refine and_congr_right fun ok => ?_
  obtain ⟨closed, next, times⟩ := last.notifications ok
  have range : setUpIndices loop =
      (List.range (setUpIndices loop).length).map fun i : Nat => int i := by
    rw [indices]
    rcases next with next | next <;> rw [next]
    · simp
    · simp [List.range_succ]
  rw [closedOnce_rounds_notifications, consecutive.indices, ← List.range_eq_range',
    ← nodup_wrap_range 32, ← range, indices, List.nodup_append]
  have single : (setUpIndices tail).Nodup := by
    rcases next with next | next <;> simp [next]
  simp only [closed, single, times, List.count_eq_zero, and_true, true_and]
  refine and_congr_right fun _ => ⟨fun apart i hi j hj same => apart i hi (same ▸ hj), ?_⟩
  exact fun apart i hi hi' => apart i hi i hi' rfl

/-- The events of a benchmark's calls and of the failure message. -/
theorem inert_pair {b : String} {p : BenchmarkPair} {c : Call}
    (pair : c = p.opening b ∨ c = p.closing b) :
    (Event.call c).Inert ∧ (Event.returned c).Inert ∧ (Event.threw c).Inert := by
  rcases pair with rfl | rfl <;> cases p <;> exact ⟨⟨rfl, rfl, rfl, rfl, rfl⟩, ⟨rfl, rfl, rfl, rfl, rfl⟩, ⟨rfl, rfl, rfl, rfl, rfl⟩⟩

/-- A trace is that of the loop, with other events before and after it. -/
def AroundLoop (vm : Int) (b : String) (t : List Event) : Prop :=
  ∃ before rounds tail after, t = before ++ (rounds.flatMap (Round.trace vm) ++ tail ++ after) ∧
    Rounds b 0 rounds ∧ LastOperation (int ↑rounds.length) tail ∧
    (∀ e ∈ before, e.Inert) ∧ ∀ e ∈ after, e.Inert

theorem OperationsRun.aroundLoop {vm : Int} {b : String} {fuel : Nat}
    {outcome : Outcome Throwable Unit} {t : List Event} (run : OperationsRun vm b fuel outcome t) :
    AroundLoop vm b t := by
  cases run with
  | @outOfFuel rounds consecutive _ =>
      exact ⟨[], rounds, [], [], by simp, consecutive, lastOperation_nil _, by simp, by simp⟩
  | @returned rounds tail consecutive _ last =>
      exact ⟨[], rounds, tail, [], by simp, consecutive, last.lastOperation, by simp, by simp⟩
  | @thrown rounds tail _ _ mark consecutive _ last marked =>
      refine ⟨[], rounds, tail, [mark], by simp, consecutive, last.lastOperation, by simp, ?_⟩
      intro e he
      rw [List.mem_singleton.mp he]
      rcases marked with ⟨rfl, -⟩ | rfl <;> exact ⟨rfl, rfl, rfl, rfl, rfl⟩

theorem AroundLoop.extend {vm : Int} {b : String} {t before after : List Event}
    (around : AroundLoop vm b t) (inertBefore : ∀ e ∈ before, e.Inert)
    (inertAfter : ∀ e ∈ after, e.Inert) : AroundLoop vm b (before ++ (t ++ after)) := by
  obtain ⟨before', rounds, tail, after', rfl, consecutive, last, inertBefore', inertAfter'⟩ := around
  refine ⟨before ++ before', rounds, tail, after' ++ after, by simp, consecutive, last, ?_, ?_⟩
  · exact fun e he => (List.mem_append.mp he).elim (inertBefore e) (inertBefore' e)
  · exact fun e he => (List.mem_append.mp he).elim (inertAfter' e) (inertAfter e)

theorem aroundLoop_guarded {vm : Int} {b : String} {p : BenchmarkPair}
    {enter body leave : Action π Unit}
    (opened : DriverCall (p.opening b) (fun _ => .returned (p.opening b)) enter)
    (closed : DriverCall (p.closing b) (fun _ => .returned (p.closing b)) leave)
    (inner : ∀ w, AroundLoop vm b (driverTrace (body w).trace)) (w : World π) :
    AroundLoop vm b (driverTrace ((enter >>= fun _ => tryFinally body leave) w).trace) := by
  obtain ⟨callOpening, returnedOpening, threwOpening⟩ := inert_pair (b := b) (p := p) (.inl rfl)
  obtain ⟨callClosing, returnedClosing, threwClosing⟩ := inert_pair (b := b) (p := p) (.inr rfl)
  have around := inner (enter w).state
  have passedOpening : ∀ e ∈ (Phase.plain (p.opening b)).passed, e.Inert := by
    simp [Phase.passed, Phase.plain, callOpening, returnedOpening]
  rcases guarded_driver opened closed w with ⟨e, -, marks⟩ | ⟨-, -, marks⟩ | ⟨-, -, marks⟩ |
      ⟨-, -, marks⟩
  · rw [marks]
    refine ⟨(Phase.plain (p.opening b)).failed, [], [], [], by simp, rounds_nil b 0,
      lastOperation_nil _, ?_, by simp⟩
    simp [Phase.failed, Phase.plain, callOpening, threwOpening]
  · rw [marks]
    have extended := around.extend passedOpening (List.forall_mem_nil Event.Inert)
    rwa [List.append_nil] at extended
  · rw [marks]
    exact around.extend passedOpening
      (by simp [Phase.passed, Phase.plain, callClosing, returnedClosing])
  · rw [marks]
    exact around.extend passedOpening
      (by simp [Phase.failed, Phase.plain, callClosing, threwClosing])

theorem aroundLoop_executeBenchmark (h : Harness π) (fuel : Nat) (b : String) (w : World π) :
    AroundLoop h.vmStartNanos b (driverTrace (h.executeBenchmark fuel b w).trace) := by
  refine aroundLoop_guarded (p := .outer) (driverCall_notify h (by simp))
    (driverCall_notify h (by simp)) ?_ w
  refine aroundLoop_guarded (p := .middle) (driverCall_callBenchmark h _ b)
    (driverCall_callBenchmark h _ b) ?_
  refine aroundLoop_guarded (p := .inner) (driverCall_notify h (by simp))
    (driverCall_notify h (by simp)) ?_
  exact fun w => (executeOperations_driver h fuel b w).aroundLoop

theorem paired_aroundLoop {before loop after : List Event} (inertBefore : ∀ e ∈ before, e.Inert)
    (inertAfter : ∀ e ∈ after, e.Inert) :
    OperationsPaired (before ++ (loop ++ after)) ↔ OperationsPaired loop := by
  have benchmark : ClosedOnce Event.setUpEach? Event.tearDownEach? Event.endsSetUp
      (before ++ (loop ++ after)) ↔
      ClosedOnce Event.setUpEach? Event.tearDownEach? Event.endsSetUp loop := by
    rw [closedOnce_append_left fun e he => (inertBefore e he).setUpEach,
      closedOnce_append_right fun e he =>
        ⟨(inertAfter e he).setUpEach, (inertAfter e he).tearDownEach⟩]
  have notifications : ClosedOnce Event.notifiedSetUp? Event.notifiesTearDown? Event.endsBenchmark
      (before ++ (loop ++ after)) ↔
      ClosedOnce Event.notifiedSetUp? Event.notifiesTearDown? Event.endsBenchmark loop := by
    rw [closedOnce_append_left fun e he => (inertBefore e he).notifiedSetUp,
      closedOnce_append_right fun e he =>
        ⟨(inertAfter e he).notifiedSetUp, (inertAfter e he).notifiesTearDown⟩]
  exact ⟨fun h => ⟨benchmark.mp h.benchmark, notifications.mp h.notifications⟩,
    fun h => ⟨benchmark.mpr h.benchmark, notifications.mpr h.notifications⟩⟩

/-- The operations of a run are paired exactly if no `isLast` call, set-up notification, measured run
or tear-down notification threw, and the 32-bit index did not come round to the same value. -/
theorem executeBenchmark_paired_iff (h : Harness π) (fuel : Nat) (b : String) (w : World π) :
    let t := driverTrace (h.executeBenchmark fuel b w).trace
    OperationsPaired t ↔
      (∀ e ∈ t, e.breaksOperation = false) ∧ (setUpIndices t).length ≤ 2 ^ 32 := by
  intro t
  obtain ⟨before, rounds, tail, after, same, consecutive, last, inertBefore, inertAfter⟩ :=
    aroundLoop_executeBenchmark h fuel b w
  replace same : t = before ++ (rounds.flatMap (Round.trace h.vmStartNanos) ++ tail ++ after) := same
  have unbroken : (∀ e ∈ t, e.breaksOperation = false) ↔
      ∀ e ∈ rounds.flatMap (Round.trace h.vmStartNanos) ++ tail, e.breaksOperation = false := by
    rw [same]
    constructor
    · exact fun all e he => all e (by simp only [List.mem_append] at he ⊢; tauto)
    · intro loop e he
      simp only [List.mem_append] at he
      rcases he with he | (he | he) | he
      · exact (inertBefore e he).breaksNothing
      · exact loop e (by simp only [List.mem_append]; exact .inl he)
      · exact loop e (by simp only [List.mem_append]; exact .inr he)
      · exact (inertAfter e he).breaksNothing
  have indices : setUpIndices t =
      setUpIndices (rounds.flatMap (Round.trace h.vmStartNanos) ++ tail) := by
    have none : ∀ {l : List Event}, (∀ e ∈ l, e.Inert) → l.filterMap Event.notifiedSetUp? = [] :=
      fun inert => List.filterMap_eq_nil_iff.mpr fun e he => (inert e he).notifiedSetUp
    rw [same]
    unfold setUpIndices
    rw [List.filterMap_append, List.filterMap_append (l := _ ++ tail), none inertBefore,
      none inertAfter, List.append_nil, List.nil_append]
  rw [unbroken, indices, same, paired_aroundLoop inertBefore inertAfter]
  exact paired_loop consecutive last

/-- One operation whose measured run throws. -/
def throwingHarness : Harness Unit where
  env := { Env.calm 1 with
    benchmark := fun method _ s =>
      (if method = .run then
          .error { simpleName := "RuntimeException", message := "", isValidation := false }
        else .ok (), s) }
  dispatcher := {}
  policy := .builtin
  vmStartNanos := 0

/-- An operation whose measured run throws is not torn down. -/
theorem executeBenchmark_unpaired :
    let run := throwingHarness.executeBenchmark 2 "b"
      { env := (), policy := .fixedOpCount { countLimitProvider := fun _ => 1, countLimit := 1 } }
    ¬ OperationsPaired (driverTrace run.trace) := by
  intro run paired
  exact absurd paired.benchmark (by decide)

end Renaissance
