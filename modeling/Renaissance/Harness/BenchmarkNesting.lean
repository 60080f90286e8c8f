import Renaissance.Harness.DriverTrace

/-!
# The benchmark-level calls are properly nested

`executeBenchmark` keeps three pairs of opening and closing calls in nested `finally` blocks. Any
call may throw, a closing call too, and then hides an earlier exception.

Results:
1. `executeBenchmark_nested`: in the driver's trace of every run the closing calls mirror the opening
   calls that returned, operations start with consecutive 32-bit indices, and nothing starts after a
   call threw, a line failed or the policy declined. The run returns exactly if no call threw and every
   line could be printed. If the names have no percent signs, every line can be.
2. `executeBenchmark_wraps_and_throws`: the indices are 0, 1, 2, … only up to the first overflow, and a
   line may fail.
-/

namespace Renaissance

open Traced JavaInt

variable {π : Type}

/-! ## Readings of the driver's trace -/

/-- The pairs of calls around the operations of a benchmark, from the outside in. -/
inductive BenchmarkPair where
  | outer | middle | inner
deriving DecidableEq, Repr

namespace BenchmarkPair

def opening (b : String) : BenchmarkPair → Call
  | .outer => .notify (.beforeBenchmarkSetUp b)
  | .middle => .benchmark .setUpBeforeAll b
  | .inner => .notify (.afterBenchmarkSetUp b)

def closing (b : String) : BenchmarkPair → Call
  | .outer => .notify (.afterBenchmarkTearDown b)
  | .middle => .benchmark .tearDownAfterAll b
  | .inner => .notify (.beforeBenchmarkTearDown b)

def all : List BenchmarkPair := [.outer, .middle, .inner]

end BenchmarkPair

/-- The pair whose opening call returned. -/
def Event.opens? (b : String) : Event → Option BenchmarkPair
  | .returned c => BenchmarkPair.all.find? fun p => p.opening b = c
  | _ => none

/-- The pair whose closing call is made. -/
def Event.closes? (b : String) : Event → Option BenchmarkPair
  | .call c => BenchmarkPair.all.find? fun p => p.closing b = c
  | _ => none

def openings (b : String) (t : List Event) : List BenchmarkPair := t.filterMap (Event.opens? b)

def closings (b : String) (t : List Event) : List BenchmarkPair := t.filterMap (Event.closes? b)

/-- The calls that the loop makes, in its condition and in its body. -/
def Call.isOperation : Call → Bool
  | .benchmark .setUpBeforeAll _ | .benchmark .tearDownAfterAll _ => false
  | .benchmark _ _ | .validate _ | .canExecute .. | .isLast .. => true
  | .notify (.afterOperationSetUp ..) | .notify (.beforeOperationTearDown ..) => true
  | .notify (.onMeasurementResult ..) | .notify (.onMeasurementResultsRequested ..) => true
  | _ => false

def Event.isOperation : Event → Bool
  | .call c | .returned c | .answered c _ | .threw c => c.isOperation
  | .printed _ | .unprinted _ => true
  | _ => false

def Event.startedIndex? : Event → Option Int
  | .printed (.started _ i) => some i
  | _ => none

/-- The indices of the operations that were started. -/
def startedIndices (t : List Event) : List Int := t.filterMap Event.startedIndex?

def Event.isThrew : Event → Bool
  | .threw _ => true
  | _ => false

/-- A call threw, or `printf` did. -/
def Event.fails : Event → Bool
  | .threw _ | .unprinted _ => true
  | _ => false

/-- The lines are about `b`, and each is printed exactly if its format string allows it. -/
def Event.FollowsFormat (h : Harness π) (b : String) : Event → Prop
  | .printed line => line.benchmark = b ∧ h.isPrintable line = true
  | .unprinted line => line.benchmark = b ∧ h.isPrintable line = false
  | _ => True

/-- A call threw, a line could not be printed, or the policy answered that the loop is over. -/
def Event.halts : Event → Bool
  | .threw _ | .unprinted _ | .printed (.failed ..) => true
  | .answered (.canExecute ..) answer => !answer
  | _ => false

/-- What the driver's trace `t` of a run with the given outcome looks like, where `pairs` are the
pairs of calls that the run may open. A run that is not finished has used up the fuel of the loop and
is still executing operations. -/
structure Nested (pairs : List BenchmarkPair) (b : String) (fuel : Nat)
    (outcome : Outcome Throwable Unit) (t : List Event) : Prop where
  opensInOrder : openings b t <+: pairs
  closesInReverse : outcome.finished = true → closings b t = (openings b t).reverse
  closesLast : t.Pairwise fun e e' =>
    (e.closes? b).isSome = true → e'.isOperation = false ∧ e'.opens? b = none
  indices : startedIndices t = (List.range (startedIndices t).length).map fun i : Nat => int i
  startsNothingAfter : t.Pairwise fun e e' => e.halts = true → e'.startedIndex? = none
  returns : outcome = .ret () ↔ outcome.finished = true ∧ ∀ e ∈ t, e.fails = false
  running : outcome.finished = false → outcome = .stopped .outOfFuel ∧
    (startedIndices t).length = fuel ∧ closings b t = [] ∧ ∀ e ∈ t, e.fails = false

/-! ## The operations -/

theorem isOperation_opening (b : String) (p : BenchmarkPair) : (p.opening b).isOperation = false := by
  cases p <;> rfl

theorem isOperation_closing (b : String) (p : BenchmarkPair) : (p.closing b).isOperation = false := by
  cases p <;> rfl

theorem opens?_of_isOperation {b : String} {e : Event} (operation : e.isOperation = true) :
    e.opens? b = none := by
  cases e with
  | returned c =>
      refine List.find?_eq_none.mpr fun p _ same => ?_
      have : c.isOperation = false := by
        rw [← of_decide_eq_true same]
        exact isOperation_opening b p
      simp [Event.isOperation, this] at operation
  | _ => rfl

theorem closes?_of_isOperation {b : String} {e : Event} (operation : e.isOperation = true) :
    e.closes? b = none := by
  cases e with
  | call c =>
      refine List.find?_eq_none.mpr fun p _ same => ?_
      have : c.isOperation = false := by
        rw [← of_decide_eq_true same]
        exact isOperation_closing b p
      simp [Event.isOperation, this] at operation
  | _ => rfl

theorem openings_of_isOperation {b : String} {t : List Event}
    (operations : ∀ e ∈ t, e.isOperation = true) : openings b t = [] :=
  List.filterMap_eq_nil_iff.mpr fun e he => opens?_of_isOperation (operations e he)

theorem closings_of_isOperation {b : String} {t : List Event}
    (operations : ∀ e ∈ t, e.isOperation = true) : closings b t = [] :=
  List.filterMap_eq_nil_iff.mpr fun e he => closes?_of_isOperation (operations e he)

/-- An event of an operation that neither starts one nor ends the loop. -/
structure Event.Ordinary (e : Event) : Prop where
  isOperation : e.isOperation = true
  goesOn : e.halts = false
  fails : e.fails = false
  startsNone : e.startedIndex? = none

theorem ordinary_call {c : Call} (operation : c.isOperation = true) : (Event.call c).Ordinary :=
  ⟨operation, rfl, rfl, rfl⟩

theorem ordinary_phase {vm : Int} {round : Round} {phase : Phase} (h : phase ∈ round.phases vm) :
    phase.call.isOperation = true ∧ phase.mark.Ordinary := by
  simp only [Round.phases, List.mem_cons, List.not_mem_nil, or_false] at h
  rcases h with rfl | rfl | rfl | rfl | rfl | rfl | rfl | rfl | rfl | rfl <;>
    exact ⟨rfl, rfl, rfl, rfl, rfl⟩

theorem ordinary_passed {phases : List Phase}
    (ordinary : ∀ p ∈ phases, p.call.isOperation = true ∧ p.mark.Ordinary) :
    ∀ e ∈ phases.flatMap Phase.passed, e.Ordinary := by
  intro e he
  obtain ⟨p, hp, he⟩ := List.mem_flatMap.mp he
  simp only [Phase.passed, List.mem_cons, List.not_mem_nil, or_false] at he
  rcases he with rfl | rfl
  · exact ordinary_call (ordinary p hp).1
  · exact (ordinary p hp).2

theorem startedIndices_of_ordinary {t : List Event} (ordinary : ∀ e ∈ t, e.Ordinary) :
    startedIndices t = [] :=
  List.filterMap_eq_nil_iff.mpr fun e he => (ordinary e he).startsNone

@[simp] theorem startedIndices_append (t t' : List Event) :
    startedIndices (t ++ t') = startedIndices t ++ startedIndices t' :=
  List.filterMap_append

/-- The policy asked for an operation, it was started, and nothing has ended it. -/
theorem begun_events {b : String} {i : Int} {t : List Event} (ordinary : ∀ e ∈ t, e.Ordinary) :
    ∀ e ∈ (Phase.query (.canExecute b i) true).passed ++ (.printed (.started b i) :: t),
      e.isOperation = true ∧ e.halts = false ∧ e.fails = false := by
  intro e he
  simp only [Phase.query, Phase.passed, List.cons_append, List.nil_append, List.mem_cons] at he
  rcases he with rfl | rfl | rfl | he
  · exact ⟨rfl, rfl, rfl⟩
  · exact ⟨rfl, rfl, rfl⟩
  · exact ⟨rfl, rfl, rfl⟩
  · exact ⟨(ordinary e he).isOperation, (ordinary e he).goesOn, (ordinary e he).fails⟩

theorem startedIndices_begun {b : String} {i : Int} {t : List Event}
    (ordinary : ∀ e ∈ t, e.Ordinary) :
    startedIndices ((Phase.query (.canExecute b i) true).passed ++ (.printed (.started b i) :: t)) =
      [i] := by
  have none := startedIndices_of_ordinary ordinary
  simp only [startedIndices, Phase.passed, Phase.query, List.filterMap_cons, List.filterMap_nil,
    Event.startedIndex?, List.filterMap_append] at none ⊢
  rw [none]
  rfl

theorem ordinary_operation (vm : Int) (round : Round) :
    ∀ e ∈ (round.phases vm).flatMap Phase.passed ++ [.printed (.completed round.operation.benchmark
      round.operation.index round.operation.durationNanos)], e.Ordinary := by
  intro e he
  rcases List.mem_append.mp he with he | he
  · exact ordinary_passed (fun p => ordinary_phase) e he
  · rw [List.mem_singleton.mp he]
    exact ⟨rfl, rfl, rfl, rfl⟩

theorem round_events {vm : Int} {round : Round} {e : Event} (he : e ∈ round.trace vm) :
    e.isOperation = true ∧ e.halts = false ∧ e.fails = false :=
  begun_events (ordinary_operation vm round) e he

theorem startedIndices_round (vm : Int) (round : Round) :
    startedIndices (round.trace vm) = [round.operation.index] :=
  startedIndices_begun (ordinary_operation vm round)

theorem startedIndices_rounds (vm : Int) (rounds : List Round) :
    startedIndices (rounds.flatMap (Round.trace vm)) = rounds.map (·.operation.index) := by
  induction rounds with
  | nil => rfl
  | cons round rounds ih =>
      rw [List.flatMap_cons, startedIndices_append, startedIndices_round, ih]
      rfl

/-- The last round goes on up to some point, and starts nothing from there on. -/
theorem LastRound.split {vm : Int} {b : String} {i : Int} {result : Except Throwable Unit}
    {tail : List Event} (last : LastRound vm b i result tail) :
    ∃ going ended, tail = going ++ ended ∧
      (∀ e ∈ going, e.isOperation = true ∧ e.halts = false ∧ e.fails = false) ∧
      (∀ e ∈ ended, e.isOperation = true ∧ e.startedIndex? = none) ∧
      (startedIndices going = [] ∨ startedIndices going = [i]) ∧
      ((result = .ok () ∧ ∀ e ∈ ended, e.fails = false) ∨
        ((∃ cause, result = .error cause) ∧ ∃ e ∈ ended, e.fails = true)) := by
  cases last with
  | declined =>
      refine ⟨[.call (.canExecute b i)], [.answered (.canExecute b i) false], rfl, ?_, ?_, .inl rfl,
        .inl ⟨rfl, ?_⟩⟩
      · simp [Event.isOperation, Call.isOperation, Event.halts, Event.fails]
      · simp [Event.isOperation, Call.isOperation, Event.startedIndex?]
      · simp [Event.fails]
  | undecided cause =>
      refine ⟨[.call (.canExecute b i)], [.threw (.canExecute b i)], rfl, ?_, ?_, .inl rfl,
        .inr ⟨⟨cause, rfl⟩, ?_⟩⟩
      · simp [Event.isOperation, Call.isOperation, Event.halts, Event.fails]
      · simp [Event.isOperation, Call.isOperation, Event.startedIndex?]
      · simp [Event.fails]
  | @broken round done rest lastPhase cause benchmark index script =>
      have ordinary : ∀ p ∈ done ++ lastPhase :: rest, p.call.isOperation = true ∧ p.mark.Ordinary := by
        intro p hp
        exact ordinary_phase (script ▸ hp)
      have failing := (ordinary lastPhase (by simp)).1
      have called : ∀ e ∈ done.flatMap Phase.passed ++ [.call lastPhase.call], e.Ordinary := by
        intro e he
        rcases List.mem_append.mp he with he | he
        · exact ordinary_passed (fun p hp => ordinary p (List.mem_append_left _ hp)) e he
        · rw [List.mem_singleton.mp he]
          exact ordinary_call failing
      refine ⟨(Phase.query (.canExecute b i) true).passed ++
        (.printed (.started b i) :: (done.flatMap Phase.passed ++ [.call lastPhase.call])),
        [.threw lastPhase.call], by simp [Phase.failed], begun_events called, ?_,
        .inr (startedIndices_begun called), .inr ⟨⟨cause, rfl⟩, ?_⟩⟩
      · simpa [Event.isOperation, Event.startedIndex?] using failing
      · simp [Event.fails]
  | unstarted cause =>
      refine ⟨(Phase.query (.canExecute b i) true).passed, [.unprinted (.started b i)], rfl, ?_, ?_,
        .inl rfl, .inr ⟨⟨cause, rfl⟩, ?_⟩⟩
      · simp [Phase.passed, Phase.query, Event.isOperation, Call.isOperation, Event.halts, Event.fails]
      · simp [Event.isOperation, Event.startedIndex?]
      · simp [Event.fails]
  | @unreported round cause benchmark index =>
      have passed := ordinary_passed fun p (hp : p ∈ round.phases vm) => ordinary_phase hp
      refine ⟨(Phase.query (.canExecute b i) true).passed ++
        (.printed (.started b i) :: (round.phases vm).flatMap Phase.passed),
        [.unprinted (.completed b i round.operation.durationNanos)], by simp, begun_events passed, ?_,
        .inr (startedIndices_begun passed), .inr ⟨⟨cause, rfl⟩, ?_⟩⟩
      · simp [Event.isOperation, Event.startedIndex?]
      · simp [Event.fails]

theorem pairwise_halts {going ended : List Event} (goesOn : ∀ e ∈ going, e.halts = false)
    (startsNone : ∀ e ∈ ended, e.startedIndex? = none) :
    (going ++ ended).Pairwise fun e e' => e.halts = true → e'.startedIndex? = none := by
  rw [List.pairwise_append]
  refine ⟨?_, ?_, ?_⟩
  · exact List.pairwise_of_forall_mem_list fun e he e' _ halts => by simp [goesOn e he] at halts
  · exact List.pairwise_of_forall_mem_list fun e _ e' he' _ => startsNone e' he'
  · intro e he e' _ halts
    simp [goesOn e he] at halts

theorem range_indices {b : String} {rounds : List Round} (consecutive : Rounds b 0 rounds)
    (vm : Int) {more : List Int} (next : more = [] ∨ more = [int ↑rounds.length]) :
    startedIndices (rounds.flatMap (Round.trace vm)) ++ more =
      (List.range (startedIndices (rounds.flatMap (Round.trace vm)) ++ more).length).map
        fun i : Nat => int i := by
  rw [startedIndices_rounds, consecutive.indices, ← List.range_eq_range']
  rcases next with rfl | rfl
  · simp
  · simp [List.range_succ]

/-- A trace of operation events that goes on up to some point and starts nothing from there on. No
event of it opens or closes a pair. -/
theorem nested_operations {b : String} {fuel : Nat} {outcome : Outcome Throwable Unit}
    {going ended : List Event}
    (before : ∀ e ∈ going, e.isOperation = true ∧ e.halts = false ∧ e.fails = false)
    (after : ∀ e ∈ ended, e.isOperation = true ∧ e.startedIndex? = none)
    (indices : startedIndices going =
      (List.range (startedIndices going).length).map fun i : Nat => int i)
    (returns : outcome = .ret () ↔ outcome.finished = true ∧ ∀ e ∈ ended, e.fails = false)
    (running : outcome.finished = false →
      outcome = .stopped .outOfFuel ∧ (startedIndices going).length = fuel ∧ ended = []) :
    Nested [] b fuel outcome (going ++ ended) := by
  have operations : ∀ e ∈ going ++ ended, e.isOperation = true := fun e he =>
    (List.mem_append.mp he).elim (fun he => (before e he).1) fun he => (after e he).1
  have opened := openings_of_isOperation (b := b) operations
  have closed := closings_of_isOperation (b := b) operations
  have started : startedIndices (going ++ ended) = startedIndices going := by
    rw [startedIndices_append, List.append_right_eq_self]
    exact List.filterMap_eq_nil_iff.mpr fun e he => (after e he).2
  refine ⟨by rw [opened], fun _ => by rw [opened, closed]; rfl, ?_, by rw [started]; exact indices,
    ?_, ?_, ?_⟩
  · refine List.pairwise_of_forall_mem_list fun e he e' _ closes => ?_
    rw [closes?_of_isOperation (operations e he)] at closes
    cases closes
  · exact pairwise_halts (fun e he => (before e he).2.1) fun e he => (after e he).2
  · rw [returns]
    refine and_congr_right fun _ => ⟨fun all e he => ?_, fun all e he => all e (by simp [he])⟩
    exact (List.mem_append.mp he).elim (fun he => (before e he).2.2) (all e)
  · intro unfinished
    obtain ⟨stopped, length, rfl⟩ := running unfinished
    refine ⟨stopped, by rw [started, length], closed, fun e he => ?_⟩
    exact (before e (by simpa using he)).2.2

theorem OperationsRun.nested {vm : Int} {b : String} {fuel : Nat} {outcome : Outcome Throwable Unit}
    {t : List Event} (run : OperationsRun vm b fuel outcome t) : Nested [] b fuel outcome t := by
  have complete : ∀ {rounds : List Round}, ∀ e ∈ rounds.flatMap (Round.trace vm),
      e.isOperation = true ∧ e.halts = false ∧ e.fails = false := by
    intro rounds e he
    obtain ⟨round, -, he⟩ := List.mem_flatMap.mp he
    exact round_events he
  cases run with
  | @outOfFuel rounds consecutive length =>
      have indices := range_indices consecutive vm (.inl rfl)
      rw [List.append_nil] at indices
      rw [← List.append_nil (rounds.flatMap _)]
      refine nested_operations complete (by simp) indices (by simp) fun _ => ⟨rfl, ?_, rfl⟩
      rw [startedIndices_rounds, List.length_map, length]
  | @returned rounds tail consecutive _ last =>
      obtain ⟨going, ended, rfl, before, after, started, ⟨-, failedNone⟩ | ⟨⟨_, bad⟩, -⟩⟩ := last.split
      swap
      · cases bad
      rw [← List.append_assoc]
      refine nested_operations ?_ after ?_ ?_ (by simp)
      · exact fun e he => (List.mem_append.mp he).elim (complete e) (before e)
      · rw [startedIndices_append]
        exact range_indices consecutive vm started
      · exact ⟨fun _ => ⟨rfl, failedNone⟩, fun _ => rfl⟩
  | @thrown rounds tail cause e mark consecutive _ last marked =>
      obtain ⟨going, ended, rfl, before, after, started, ⟨bad, -⟩ | ⟨-, failed⟩⟩ := last.split
      · cases bad
      have report : mark.isOperation = true ∧ mark.startedIndex? = none := by
        rcases marked with ⟨rfl, -⟩ | rfl <;> exact ⟨rfl, rfl⟩
      rw [List.append_assoc going, ← List.append_assoc]
      refine nested_operations ?_ ?_ ?_ ?_ (by simp)
      · exact fun e he => (List.mem_append.mp he).elim (complete e) (before e)
      · intro e he
        rcases List.mem_append.mp he with he | he
        · exact after e he
        · rw [List.mem_singleton.mp he]
          exact report
      · rw [startedIndices_append]
        exact range_indices consecutive vm started
      · obtain ⟨e, he, fails⟩ := failed
        refine ⟨fun bad => (by cases bad), fun ⟨_, failedNone⟩ => ?_⟩
        rw [failedNone e (by simp [he])] at fails
        cases fails

/-! ## The pairs around the operations -/

section Pairs

variable (b : String) (p : BenchmarkPair)

@[simp] theorem startedIndex?_call (c : Call) : (Event.call c).startedIndex? = none := rfl

@[simp] theorem startedIndex?_returned (c : Call) : (Event.returned c).startedIndex? = none := rfl

@[simp] theorem opens?_call (c : Call) : (Event.call c).opens? b = none := rfl

@[simp] theorem opens?_threw (c : Call) : (Event.threw c).opens? b = none := rfl

@[simp] theorem closes?_returned (c : Call) : (Event.returned c).closes? b = none := rfl

@[simp] theorem closes?_threw (c : Call) : (Event.threw c).closes? b = none := rfl

@[simp] theorem opens?_returned_opening : (Event.returned (p.opening b)).opens? b = some p := by
  cases p <;> simp [Event.opens?, BenchmarkPair.all, BenchmarkPair.opening]

@[simp] theorem opens?_returned_closing : (Event.returned (p.closing b)).opens? b = none := by
  cases p <;> simp [Event.opens?, BenchmarkPair.all, BenchmarkPair.opening, BenchmarkPair.closing]

@[simp] theorem closes?_call_closing : (Event.call (p.closing b)).closes? b = some p := by
  cases p <;> simp [Event.closes?, BenchmarkPair.all, BenchmarkPair.closing]

@[simp] theorem closes?_call_opening : (Event.call (p.opening b)).closes? b = none := by
  cases p <;> simp [Event.closes?, BenchmarkPair.all, BenchmarkPair.opening, BenchmarkPair.closing]

end Pairs

/-- The opening call returned and the body is still going on. -/
theorem nested_unfinished {b : String} {fuel : Nat} (p : BenchmarkPair) {pairs : List BenchmarkPair}
    {outcome : Outcome Throwable Unit} {t : List Event} (nested : Nested pairs b fuel outcome t)
    (unfinished : outcome.finished = false) :
    Nested (p :: pairs) b fuel outcome ((Phase.plain (p.opening b)).passed ++ t) := by
  obtain ⟨stopped, length, unclosed, failedNone⟩ := nested.running unfinished
  have opens : openings b ((Phase.plain (p.opening b)).passed ++ t) = p :: openings b t := by
    simp [openings, List.filterMap_cons, Phase.passed, Phase.plain]
  have closes : closings b ((Phase.plain (p.opening b)).passed ++ t) = closings b t := by
    simp [closings, List.filterMap_cons, Phase.passed, Phase.plain]
  have starts : startedIndices ((Phase.plain (p.opening b)).passed ++ t) = startedIndices t := by
    simp [startedIndices, List.filterMap_cons, Phase.passed, Phase.plain]
  refine ⟨?_, ?_, ?_, ?_, ?_, ?_, ?_⟩
  · rw [opens, List.cons_prefix_cons]
    exact ⟨rfl, nested.opensInOrder⟩
  · simp [unfinished]
  · simpa [Phase.passed, Phase.plain] using nested.closesLast
  · rw [starts]
    exact nested.indices
  · simpa [Phase.passed, Phase.plain, Event.halts] using nested.startsNothingAfter
  · simp [stopped]
  · refine fun _ => ⟨stopped, by rw [starts, length], by rw [closes, unclosed], ?_⟩
    simpa [Phase.passed, Phase.plain, Event.fails] using failedNone

/-- The opening call returned, the body came to an end and the closing call was made, whether it
returned or threw. -/
theorem nested_closed {b : String} {fuel : Nat} (p : BenchmarkPair) {pairs : List BenchmarkPair}
    {inside outcome : Outcome Throwable Unit} {t : List Event} {mark : Event}
    (nested : Nested pairs b fuel inside t) (finished : inside.finished = true)
    (marked : (mark = .returned (p.closing b) ∧ outcome = inside) ∨
      (mark = .threw (p.closing b) ∧ ∃ e, outcome = .thrown e)) :
    Nested (p :: pairs) b fuel outcome
      ((Phase.plain (p.opening b)).passed ++ (t ++ [.call (p.closing b), mark])) := by
  have markOpens : mark.opens? b = none := by
    rcases marked with ⟨rfl, -⟩ | ⟨rfl, -⟩
    · exact opens?_returned_closing b p
    · rfl
  have markCloses : mark.closes? b = none := by
    rcases marked with ⟨rfl, -⟩ | ⟨rfl, -⟩ <;> rfl
  have markStarts : mark.startedIndex? = none := by
    rcases marked with ⟨rfl, -⟩ | ⟨rfl, -⟩ <;> rfl
  have markOperation : mark.isOperation = false := by
    rcases marked with ⟨rfl, -⟩ | ⟨rfl, -⟩ <;> exact isOperation_closing b p
  have ended : outcome.finished = true := by
    rcases marked with ⟨-, rfl⟩ | ⟨-, e, rfl⟩
    · exact finished
    · rfl
  have opens : openings b ((Phase.plain (p.opening b)).passed ++
      (t ++ [.call (p.closing b), mark])) = p :: openings b t := by
    simp [openings, List.filterMap_cons, Phase.passed, Phase.plain, markOpens]
  have closes : closings b ((Phase.plain (p.opening b)).passed ++
      (t ++ [.call (p.closing b), mark])) = closings b t ++ [p] := by
    simp [closings, List.filterMap_cons, Phase.passed, Phase.plain, markCloses]
  have starts : startedIndices ((Phase.plain (p.opening b)).passed ++
      (t ++ [.call (p.closing b), mark])) = startedIndices t := by
    simp [startedIndices, List.filterMap_cons, Phase.passed, Phase.plain, markStarts]
  -- the two calls are the first and the last thing, and everything between them is as before
  refine ⟨?_, ?_, ?_, ?_, ?_, ?_, by simp [ended]⟩
  · rw [opens, List.cons_prefix_cons]
    exact ⟨rfl, nested.opensInOrder⟩
  · intro _
    rw [opens, closes, nested.closesInReverse finished, List.reverse_cons]
  · have last : (t ++ [.call (p.closing b), mark]).Pairwise fun e e' =>
        (e.closes? b).isSome = true → e'.isOperation = false ∧ e'.opens? b = none := by
      rw [List.pairwise_append]
      refine ⟨nested.closesLast, ?_, ?_⟩
      · simp [markOpens, markOperation]
      · intro e _ e' he' _
        rcases List.mem_pair.mp he' with rfl | rfl
        · exact ⟨isOperation_closing b p, rfl⟩
        · exact ⟨markOperation, markOpens⟩
    simpa [Phase.passed, Phase.plain] using last
  · rw [starts]
    exact nested.indices
  · have last : (t ++ [.call (p.closing b), mark]).Pairwise fun e e' =>
        e.halts = true → e'.startedIndex? = none := by
      rw [List.pairwise_append]
      refine ⟨nested.startsNothingAfter, by simp [markStarts], ?_⟩
      intro e _ e' he' _
      rcases List.mem_pair.mp he' with rfl | rfl
      · rfl
      · exact markStarts
    simpa [Phase.passed, Phase.plain, Event.halts] using last
  · rcases marked with ⟨rfl, rfl⟩ | ⟨rfl, e, rfl⟩
    · rw [nested.returns]
      simp [Phase.passed, Phase.plain, Event.fails, or_imp, forall_and]
    · simp [Phase.passed, Phase.plain, Event.fails, or_imp, forall_and]

theorem nested_guarded {b : String} {fuel : Nat} {p : BenchmarkPair}
    {pairs : List BenchmarkPair} {enter body leave : Action π Unit}
    (opened : DriverCall (p.opening b) (fun _ => .returned (p.opening b)) enter)
    (closed : DriverCall (p.closing b) (fun _ => .returned (p.closing b)) leave)
    (inner : ∀ w, Nested pairs b fuel (body w).outcome (driverTrace (body w).trace)) (w : World π) :
    let run := (enter >>= fun _ => tryFinally body leave) w
    Nested (p :: pairs) b fuel run.outcome (driverTrace run.trace) := by
  intro run
  have nested := inner (enter w).state
  rcases guarded_driver opened closed w with ⟨e, threw, marks⟩ | ⟨unfinished, outcome, marks⟩ |
      ⟨finished, outcome, marks⟩ | ⟨finished, outcome, marks⟩
  · rw [show run.outcome = .thrown e from threw, show driverTrace run.trace = _ from marks]
    have opens : openings b (Phase.plain (p.opening b)).failed = [] := by
      simp [openings, List.filterMap_cons, Phase.failed, Phase.plain]
    have closes : closings b (Phase.plain (p.opening b)).failed = [] := by
      simp [closings, List.filterMap_cons, Phase.failed, Phase.plain]
    refine ⟨by simp [opens], fun _ => by rw [opens, closes]; rfl, ?_, rfl, ?_, ?_, by simp⟩
    · simp [Phase.failed, Phase.plain]
    · simp [Phase.failed, Phase.plain, Event.halts]
    · simp [Phase.failed, Phase.plain, Event.fails]
  · rw [show run.outcome = _ from outcome, show driverTrace run.trace = _ from marks]
    exact nested_unfinished p nested unfinished
  · rw [show driverTrace run.trace = _ from marks]
    exact nested_closed p nested finished (.inl ⟨rfl, outcome⟩)
  · rw [show driverTrace run.trace = _ from marks]
    exact nested_closed p nested finished (.inr ⟨rfl, outcome⟩)

theorem nested_executeBenchmark (h : Harness π) (fuel : Nat) (b : String) (w : World π) :
    let run := h.executeBenchmark fuel b w
    Nested BenchmarkPair.all b fuel run.outcome (driverTrace run.trace) := by
  refine nested_guarded (p := .outer) (driverCall_notify h (by simp))
    (driverCall_notify h (by simp)) ?_ w
  refine nested_guarded (p := .middle) (driverCall_callBenchmark h _ b)
    (driverCall_callBenchmark h _ b) ?_
  refine nested_guarded (p := .inner) (driverCall_notify h (by simp))
    (driverCall_notify h (by simp)) ?_
  intro w
  exact (executeOperations_driver h fuel b w).nested

/-! ## The lines -/

section Lines

variable {h : Harness π} {b : String}

/-- The events of the driver follow the formats of the lines of `b`. -/
def FormatsLines (h : Harness π) (b : String) {α : Type} (m : Action π α) : Prop :=
  Emits (fun e => e.ofDriver = true → e.FollowsFormat h b) m

theorem closed_formatsLines : Closed (fun {α} (m : Action π α) => FormatsLines h b m) :=
  closed_emits _

theorem DriverCall.formatsLines {α : Type} {call : Call} {mark : α → Event} {m : Action π α}
    (called : DriverCall call mark m) (marked : ∀ a, (mark a).FollowsFormat h b) :
    FormatsLines h b m := by
  intro w e he driver
  have mem : e ∈ driverTrace (m w).trace := List.mem_filter.mpr ⟨he, driver⟩
  obtain ⟨a, -, marks⟩ | ⟨_, -, marks⟩ := called w
  · rw [marks] at mem
    rcases List.mem_pair.mp mem with rfl | rfl
    · trivial
    · exact marked a
  · rw [marks] at mem
    rcases List.mem_pair.mp mem with rfl | rfl <;> trivial

theorem formatsLines_printf {line : Line} (about : line.benchmark = b) :
    FormatsLines h b (h.printf line) := by
  intro w e he _
  obtain ⟨printable, printed⟩ | ⟨unprintable, _, unprinted⟩ := printf_cases h line w
  · rw [printed] at he
    rw [List.mem_singleton.mp he]
    exact ⟨about, printable⟩
  · rw [unprinted] at he
    rw [List.mem_singleton.mp he]
    exact ⟨about, unprintable⟩

theorem formatsLines_notify {n : Notification} (running : n ≠ .beforeHarnessShutdown) :
    FormatsLines h b (h.notify n) :=
  (driverCall_notify h running).formatsLines fun _ => trivial

theorem formatsLines_callBenchmark (method : BenchmarkMethod) :
    FormatsLines h b (h.callBenchmark method b) :=
  (driverCall_callBenchmark h method b).formatsLines fun _ => trivial

theorem formatsLines_operation :
    OperationSteps h b (fun {α} (m : Action π α) => FormatsLines h b m) where
  closed := closed_formatsLines
  benchmark := formatsLines_callBenchmark
  isLast i := (driverCall_isLast h b i).formatsLines fun _ => trivial
  nanoTime _ _ he := absurd he List.not_mem_nil
  validate operation _ := (driverCall_validate h operation).formatsLines fun _ => trivial
  afterOperationSetUp _ _ := formatsLines_notify (by simp)
  beforeOperationTearDown _ _ := formatsLines_notify (by simp)
  onMeasurementResult _ _ := formatsLines_notify (by simp)
  onMeasurementResultsRequested i :=
    (driverCall_notifyOnMeasurementResultsRequested h b i).formatsLines fun _ => trivial

theorem formatsLines_loop : LoopSteps h b (fun {α} (m : Action π α) => FormatsLines h b m) where
  closed := closed_formatsLines
  canExecute i := (driverCall_canExecute h b i).formatsLines fun _ => trivial
  printf _ about := formatsLines_printf about
  executeOperation := formatsLines_operation.executeOperation
  outOfFuel _ _ he := absurd he List.not_mem_nil

theorem formatsLines_benchmark :
    BenchmarkSteps h b (fun {α} (m : Action π α) => FormatsLines h b m) where
  closed := closed_formatsLines
  beforeBenchmarkSetUp := formatsLines_notify (by simp)
  setUpBeforeAll := formatsLines_callBenchmark _
  afterBenchmarkSetUp := formatsLines_notify (by simp)
  executeOperations := formatsLines_loop.executeOperations
  beforeBenchmarkTearDown := formatsLines_notify (by simp)
  tearDownAfterAll := formatsLines_callBenchmark _
  afterBenchmarkTearDown := formatsLines_notify (by simp)

/-- Names without percent signs: what fails is a call. -/
theorem fails_iff_threw {e : Event} (plain : h.PlainNames b) (follows : e.FollowsFormat h b) :
    e.fails = false ↔ e.isThrew = false := by
  cases e with
  | unprinted line =>
      obtain ⟨rfl, unprintable⟩ := follows
      rw [Harness.isPrintable_of_plain plain] at unprintable
      cases unprintable
  | _ => rfl

end Lines

/-- The benchmark-level calls of every run are properly nested: a closing call is made exactly once
if its opening call returned and never otherwise, whatever else throws. A line is printed exactly if
its format string allows it, and without percent signs in the names only calls throw. -/
theorem executeBenchmark_nested (h : Harness π) (fuel : Nat) (b : String) (w : World π) :
    let run := h.executeBenchmark fuel b w
    let t := driverTrace run.trace
    Nested BenchmarkPair.all b fuel run.outcome t ∧
      (run.outcome.finished = true →
        ∀ p, (closings b t).count p = if p ∈ openings b t then 1 else 0) ∧
      (∀ e ∈ t, e.FollowsFormat h b) ∧
      (h.PlainNames b →
        (run.outcome = .ret () ↔ run.outcome.finished = true ∧ ∀ e ∈ t, e.isThrew = false)) := by
  intro run t
  have nested : Nested BenchmarkPair.all b fuel run.outcome t :=
    nested_executeBenchmark h fuel b w
  have follows : ∀ e ∈ t, e.FollowsFormat h b := by
    intro e he
    obtain ⟨mem, driver⟩ := List.mem_filter.mp he
    exact formatsLines_benchmark.executeBenchmark fuel w e mem driver
  refine ⟨nested, fun finished p => ?_, follows, fun plain => ?_⟩
  · have once : (openings b t).Nodup :=
      nested.opensInOrder.sublist.nodup (by decide)
    rw [nested.closesInReverse finished, List.count_reverse, once.count]
  · rw [nested.returns]
    exact and_congr_right fun _ =>
      forall₂_congr fun e he => fails_iff_threw plain (follows e he)

/-! ## Indices overflow -/

/-- No listener, and an external policy that never declines. -/
def endlessHarness : Harness Unit where
  env := { Env.calm 0 with canExecute := fun _ _ _ s => (.ok true, s) }
  dispatcher := {}
  policy := .external { specifier := ⟨[], none⟩, className := "Endless", interfaces := [.executionPolicy] }
  vmStartNanos := 0

theorem plainNames_endless : endlessHarness.PlainNames "b" :=
  ⟨by decide, by decide, by decide⟩

theorem endless_loopBody (i : Int) (w : World Unit) :
    (endlessHarness.loopBody "b" i w).outcome = .ret true := by
  have started : endlessHarness.printf (.started "b" i) = emit (.printed (.started "b" i)) :=
    Harness.printf_of_plain plainNames_endless
  have completed (nanos : Int) : endlessHarness.printf (.completed "b" i nanos) =
      emit (.printed (.completed "b" i nanos)) :=
    Harness.printf_of_plain plainNames_endless
  simp only [Harness.loopBody, Harness.printBeforeEachMessage, Harness.printAfterSuccessMessage,
    started, completed]
  rfl

theorem endless_operationLoop (fuel : Nat) (i : Int) (w : World Unit) :
    (endlessHarness.operationLoop "b" fuel i w).outcome = .stopped .outOfFuel := by
  induction fuel generalizing i w with
  | zero => rfl
  | succ fuel ih =>
      rw [Harness.operationLoop, bind_apply, andThen_ret (attempt_ret (endless_loopBody i w))]
      exact ih _ _

theorem endless_executeBenchmark (fuel : Nat) (w : World Unit) :
    (endlessHarness.executeBenchmark fuel "b" w).outcome = .stopped .outOfFuel := by
  refine guarded_stopped rfl (guarded_stopped rfl (guarded_stopped rfl ?_))
  exact bind_stopped (endless_operationLoop fuel 0 _) _

theorem endless_index_wraps (w : World Unit) :
    let run := endlessHarness.executeBenchmark 2147483649 "b" w
    ¬ ∃ n, startedIndices (driverTrace run.trace) = (List.range n).map fun i : Nat => (i : Int) := by
  intro run
  rintro ⟨n, consecutive⟩
  have nested : Nested BenchmarkPair.all "b" 2147483649 run.outcome (driverTrace run.trace) :=
    nested_executeBenchmark ..
  have unfinished : run.outcome.finished = false := by
    rw [show run.outcome = .stopped .outOfFuel from endless_executeBenchmark ..]
    rfl
  obtain ⟨-, count, -⟩ := nested.running unfinished
  have length : n = 2147483649 := by
    rw [consecutive, List.length_map, List.length_range] at count
    exact count
  have same := nested.indices.symm.trans consecutive
  rw [count, length, List.map_inj_left] at same
  have last : int ((2147483648 : Nat) : Int) = ((2147483648 : Nat) : Int) :=
    same 2147483648 (List.mem_range.mpr (by decide))
  exact absurd last (by decide)

def endlessWorld : World Unit where
  env := ()
  policy := .fixedOpCount { countLimitProvider := fun _ => 0 }

/-- A policy that never declines is asked about the index `-2147483648` after 2147483648 operations:
the indices are not 0, 1, 2, … without end. And for a benchmark `50%off` the first line fails, so that
the run throws though no call does. -/
theorem executeBenchmark_wraps_and_throws :
    let run := endlessHarness.executeBenchmark 2147483649 "b" endlessWorld
    let other := endlessHarness.executeBenchmark 1 "50%off" endlessWorld
    (¬ ∃ n, startedIndices (driverTrace run.trace) = (List.range n).map fun i : Nat => (i : Int)) ∧
      other.outcome.finished = true ∧ other.outcome ≠ .ret () ∧
      ∀ e ∈ driverTrace other.trace, e.isThrew = false := by
  intro run other
  refine ⟨endless_index_wraps endlessWorld, ?_, ?_, ?_⟩
  · exact (by decide +kernel :
      (endlessHarness.executeBenchmark 1 "50%off" endlessWorld).outcome.finished = true)
  · intro returned
    have threw : other.outcome =
        .thrown (endlessHarness.env.illegalFormat (endlessHarness.afterFailureFormat "50%off")) := rfl
    rw [threw] at returned
    cases returned
  · exact (by decide +kernel :
      ∀ e ∈ driverTrace (endlessHarness.executeBenchmark 1 "50%off" endlessWorld).trace,
        e.isThrew = false)

end Renaissance
