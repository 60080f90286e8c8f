import Mathlib.Logic.Hydra
import Mathlib.Tactic.Ring
import Renaissance.Http4k.WorkloadClient

/-!
# What the workloads count

A task changes the counters only through its own increments, so what a task of a kind has counted when
it completes does not depend on the others: `workload_tally` proves it of the four programs, with any
answers to their requests. `Balanced` adds up the tallies of all tasks, completed or not.
-/

namespace Renaissance.Http4k

open JavaInt Transition Program

/-- Every answer is possible, and the tally is what is known. -/
def tallied : Spec ClientOp ClientOp.Result Tally where
  pre _ _ := True
  post _ _ _ := True
  after := Tally.after

/-- The tally of a completed task of the kind that has received the lists. -/
def WorkloadType.expected (kind : WorkloadType) (received : List (List Product)) : Counter → ℕ
  | .getProducts => match kind with
      | read | mixed => 1
      | ddos => 10
      | write => 0
  | .getProduct => match kind with
      | read => (received.map List.length).sum
      | mixed => 1
      | write | ddos => 0
  | .postProduct => if kind = write ∨ kind = mixed then 1 else 0
  | .read => if kind = read then 1 else 0
  | .write => if kind = write then 1 else 0
  | .ddos => if kind = ddos then 1 else 0
  | .mixed => if kind = mixed then 1 else 0
  | .workload => 0

namespace Tally

def bump (counter : Counter) (tally : Tally) : Tally :=
  { tally with counts := Function.update tally.counts counter (tally.counts counter + 1) }

def receive (products : List Product) (tally : Tally) : Tally :=
  { tally with received := tally.received ++ [products] }

end Tally

section Rules

variable {tally : Tally}

theorem meets_getProducts {Q : List Product → Tally → Prop}
    (holds : ∀ products, Q products ((tally.receive products).bump .getProducts)) :
    Meets tallied Client.getProducts Q tally := by
  unfold Client.getProducts
  refine meets_bind.mpr ⟨trivial, fun response _ => meets_bind.mpr ?_⟩
  unfold Client.productsLens
  cases h : (response : Response).body with
  | products products =>
      have received : tally.after (.request .getProducts) response = tally.receive products := by
        simp only [Tally.after, h, Tally.receive]
      refine meets_pure.mpr (meets_bind.mpr ⟨trivial, fun _ _ => ?_⟩)
      rw [show tallied.after (.request .getProducts) response tally = _ from received]
      exact holds products
  | empty | product => exact ⟨trivial, fun never => nomatch never⟩

theorem meets_getProduct {id : String} {Q : Response → Tally → Prop}
    (holds : ∀ response, Q response (tally.bump .getProduct)) :
    Meets tallied (Client.getProduct id) Q tally :=
  ⟨trivial, fun response _ => ⟨trivial, fun _ _ => holds response⟩⟩

theorem meets_postProduct {product : Product} {Q : Response → Tally → Prop}
    (holds : ∀ response, Q response (tally.bump .postProduct)) :
    Meets tallied (Client.postProduct product) Q tally :=
  ⟨trivial, fun response _ => ⟨trivial, fun _ _ => holds response⟩⟩

theorem meets_generateProduct {Q : Product → Tally → Prop} (holds : ∀ product, Q product tally) :
    Meets tallied Client.generateProduct Q tally :=
  ⟨trivial, fun _ _ => holds _⟩

theorem meets_increment {counter : Counter} {Q : Unit → Tally → Prop}
    (holds : Q () (tally.bump counter)) : Meets tallied (Client.increment counter) Q tally :=
  ⟨trivial, fun _ _ => holds⟩

end Rules

/-- What a task of the kind leaves behind. -/
def Tallies (kind : WorkloadType) (_ : Unit) (tally : Tally) : Prop :=
  tally.counts = kind.expected tally.received ∧
    (kind = .read → ∃ products, tally.received = [products])

theorem readWorkload_tally : Meets tallied Client.readWorkload (Tallies .read) {} := by
  unfold Client.readWorkload
  refine meets_bind.mpr (meets_getProducts fun products => meets_bind.mpr ?_)
  -- each product of the list is fetched once
  let I (rest : List Product) (tally : Tally) : Prop :=
    tally.received = [products] ∧ ∀ c, tally.counts c + (if c = .getProduct then rest.length else 0) =
      if c = .getProducts then 1 else if c = .getProduct then products.length else 0
  refine (meets_forEach (I := I) ?_ ?_).mono ?_
  · rintro product rest tally ⟨received, counts⟩
    refine meets_bind.mpr (meets_getProduct fun _ => meets_pure.mpr ⟨received, fun c => ?_⟩)
    have before := counts c
    cases c <;> simpa [Tally.bump, Function.update_apply, add_assoc, add_comm, add_left_comm] using before
  · exact ⟨rfl, fun c => by cases c <;> simp [Tally.bump, Tally.receive]⟩
  · rintro - tally ⟨received, counts⟩
    refine meets_increment ⟨?_, fun _ => ⟨products, received⟩⟩
    funext c
    have before := counts c
    cases c <;> simpa [Tally.bump, Function.update_apply, WorkloadType.expected, received] using before

theorem writeWorkload_tally : Meets tallied Client.writeWorkload (Tallies .write) {} := by
  unfold Client.writeWorkload
  refine meets_bind.mpr (meets_generateProduct fun product => meets_bind.mpr ?_)
  refine meets_postProduct fun _ => meets_increment ⟨?_, nofun⟩
  funext c
  cases c <;> rfl

theorem ddosWorkload_tally : Meets tallied Client.ddosWorkload (Tallies .ddos) {} := by
  unfold Client.ddosWorkload
  let I (rest : List ℕ) (tally : Tally) : Prop :=
    ∀ c, tally.counts c + (if c = .getProducts then rest.length else 0) =
      if c = .getProducts then 10 else 0
  refine meets_bind.mpr ((meets_forEach (I := I) ?_ ?_).mono ?_)
  · intro k rest tally counts
    refine meets_bind.mpr (meets_getProducts fun _ => meets_pure.mpr fun c => ?_)
    have before := counts c
    cases c <;> simpa [Tally.bump, Tally.receive, Function.update_apply, add_assoc, add_comm] using before
  · intro c
    cases c <;> rfl
  · intro _ tally counts
    refine meets_increment ⟨?_, nofun⟩
    funext c
    have before := counts c
    cases c <;> simpa [Tally.bump, Function.update_apply, WorkloadType.expected] using before

theorem mixedWorkload_tally : Meets tallied Client.mixedWorkload (Tallies .mixed) {} := by
  unfold Client.mixedWorkload
  refine meets_bind.mpr (meets_getProducts fun products => meets_bind.mpr ?_)
  refine meets_generateProduct fun product => meets_bind.mpr (meets_postProduct fun _ => ?_)
  refine meets_bind.mpr (meets_getProduct fun _ => meets_increment ⟨?_, nofun⟩)
  funext c
  cases c <;> rfl

theorem workload_tally (kind : WorkloadType) : Meets tallied kind.workload (Tallies kind) {} := by
  cases kind with
  | read => exact readWorkload_tally
  | write => exact writeWorkload_tally
  | ddos => exact ddosWorkload_tally
  | mixed => exact mixedWorkload_tally

theorem Tally.after_counts {op : ClientOp} (result : op.Result) (tally : Tally) (c : Counter) :
    (tally.after op result).counts c = tally.counts c + if op = .increment c then 1 else 0 := by
  cases op with
  | increment counter =>
      simp only [after, Function.update_apply, ClientOp.increment.injEq, eq_comm]
      split
      next same => rw [same]
      next => rfl
  | request r =>
      cases r with
      | getProducts =>
          simp only [after]
          split <;> simp
      | getProduct | postProduct => rfl
  | randomUUID | fail => rfl

theorem ClientOp.count_apply (op : ClientOp) (counters : Counter → Int) (c : Counter) :
    op.count counters c = if op = .increment c then long (counters c + 1) else counters c := by
  cases op with
  | increment counter =>
      simp only [count, State.incrementAndGet, Function.update_apply, increment.injEq, eq_comm]
      split
      next same => rw [same]
      next => rfl
  | request | randomUUID | fail => rfl

theorem taskStep_cases {s s' : State} {k : ℕ} {choice : Choice}
    (moves : s.taskStep k choice = some s') :
    ∃ t op next result, s.tasks[k]? = some t ∧ t.program = .call op next ∧
      op.result choice = some result ∧ s' = { s with
        counters := op.count s.counters
        tasks := s.tasks.set k
          { t with program := next result, tally := t.tally.after op result } } := by
  obtain ⟨t, found, moves⟩ := Option.bind_eq_some_iff.mp moves
  cases program : t.program with
  | ret a => simp [program] at moves
  | call op next =>
      simp only [program] at moves
      obtain ⟨result, answered, moves⟩ := Option.bind_eq_some_iff.mp moves
      cases moves
      exact ⟨t, op, next, result, found, program, answered, rfl⟩

/-- The rounds that are behind `workload()`. -/
def State.rounds (s : State) : ℕ :=
  match s.main with
  | .drawing round | .launching round _ _ => round
  | .awaiting | .returned _ | .failed => s.draws.length

/-- The tasks of the kind that the current round has yet to launch. -/
def State.pending (c : WorkloadConfiguration) (kind : WorkloadType) (s : State) : Int :=
  match s.main with
  | .launching _ current launched => if current = kind then c.repeatCount kind - launched else 0
  | _ => 0

/-- What all tasks together have added to the counter. -/
def total (counter : Counter) (tasks : List Task) : ℕ :=
  (tasks.map fun t => t.tally.counts counter).sum

/-- How many tasks are of the kind. -/
def numberOf (kind : WorkloadType) (tasks : List Task) : ℕ :=
  (tasks.map fun t => if t.kind = kind then 1 else 0).sum

structure Balanced (c : WorkloadConfiguration) (s : State) : Prop where
  counted : ∀ counter, s.counters counter =
    long (total counter s.tasks + if counter = .workload then s.rounds else 0 : ℕ)
  tallies : ∀ t ∈ s.tasks, Meets tallied t.program (Tallies t.kind) t.tally
  launched : ∀ kind, numberOf kind s.tasks + s.pending c kind =
    s.draws.count kind * c.repeatCount kind
  rounds : match s.main with
    | .drawing round => s.draws.length = round ∧ round ≤ c.workloadCount
    | .launching round kind launched => s.draws.length = round + 1 ∧ round < c.workloadCount ∧
        launched ≤ c.repeatCount kind
    | .awaiting | .returned _ | .failed => s.draws.length = c.workloadCount
  returned : ∀ summary, s.main = .returned summary →
    summary = s.summary ∧ s.tasks.all Task.isCompleted
  failed : s.main = .failed → ∃ t ∈ s.tasks, t.isFailed

theorem Balanced.start {c : WorkloadConfiguration} (nonneg : 0 ≤ c.workloadCount) :
    Balanced c {} where
  counted counter := by simp [total, State.rounds, long, wrap]
  tallies _ none := nomatch none
  launched kind := by simp [State.pending, numberOf]
  rounds := ⟨rfl, nonneg⟩
  returned _ none := nomatch none
  failed none := nomatch none

theorem Balanced.taskStep {c : WorkloadConfiguration} {s s' : State} {k : ℕ} {choice : Choice}
    (balanced : Balanced c s) (moves : s.taskStep k choice = some s') : Balanced c s' := by
  obtain ⟨t, op, next, result, found, program, answered, rfl⟩ := taskStep_cases moves
  have mem : t ∈ s.tasks := List.mem_of_getElem? found
  let t' : Task := { t with program := next result, tally := t.tally.after op result }
  refine ⟨fun counter => ?_, fun u mem' => ?_, fun kind => ?_, balanced.rounds, ?_, ?_⟩
  · have before := balanced.counted counter
    have more : total counter (s.tasks.set k t') =
        total counter s.tasks + if op = .increment counter then 1 else 0 := by
      have sum := sum_set_add found (fun t => t.tally.counts counter) t'
      rw [Tally.after_counts] at sum
      unfold total
      omega
    show op.count s.counters counter =
      long ((total counter (s.tasks.set k t') + if counter = .workload then s.rounds else 0 : ℕ))
    rw [ClientOp.count_apply, before, more]
    split
    next =>
      rw [long, wrap_wrap_add]
      congr 1
      push_cast
      omega
    next => rfl
  · rcases List.mem_or_eq_of_mem_set mem' with old | rfl
    · exact balanced.tallies u old
    · have meets := balanced.tallies t mem
      rw [program] at meets
      exact meets.2 result trivial
  · have same := sum_set_add found (fun t => if t.kind = kind then 1 else 0) t'
    have before := balanced.launched kind
    have number : numberOf kind (s.tasks.set k t') = numberOf kind s.tasks := by
      unfold numberOf
      dsimp only [t'] at same ⊢
      omega
    dsimp only
    rw [number]
    exact before
  · intro summary returned
    -- a task that can still do something has not completed
    have completed := List.all_eq_true.mp (balanced.returned summary returned).2 t mem
    simp [Task.isCompleted, program] at completed
  · intro failed
    obtain ⟨u, mem', failed⟩ := balanced.failed failed
    obtain ⟨j, at'⟩ := List.mem_iff_getElem?.mp mem'
    have other : k ≠ j := by
      -- a failed task has no next operation
      rintro rfl
      rw [found] at at'
      cases at'
      simp only [Task.isFailed, program] at failed
      cases op with
      | fail => cases answered
      | request | randomUUID | increment => cases failed
    refine ⟨u, List.mem_iff_getElem?.mpr ⟨j, ?_⟩, failed⟩
    dsimp only
    rw [List.getElem?_set_ne other, at']

/-- A new task has not counted anything. -/
theorem total_append (counter : Counter) (tasks : List Task) (kind : WorkloadType)
    (program : Client Unit) :
    total counter (tasks ++ [{ kind := kind, program := program }]) = total counter tasks := by
  simp [total]

theorem numberOf_append (kind : WorkloadType) (tasks : List Task) (t : Task) :
    numberOf kind (tasks ++ [t]) = numberOf kind tasks + if t.kind = kind then 1 else 0 := by
  simp [numberOf]

section MainStep

variable {c : WorkloadConfiguration} {s s' : State} {draw : WorkloadType} {round : ℕ}
  {current : WorkloadType} {launched : ℕ}

/-- A round adds its kind to the draws and still has all of the kind's tasks to launch. -/
theorem Balanced.drawing (nonneg : ∀ kind, 0 ≤ c.repeatCount kind) (balanced : Balanced c s)
    (main : s.main = .drawing round) (moves : s.mainStep c draw = some s') : Balanced c s' := by
  have rounds := balanced.rounds
  have launchedBefore := balanced.launched
  have countedBefore := balanced.counted
  simp only [State.mainStep, main] at moves rounds
  simp only [State.pending, main, add_zero] at launchedBefore
  simp only [State.rounds, main] at countedBefore
  split at moves
  next more =>
    cases moves
    refine ⟨countedBefore, balanced.tallies, fun kind => ?_, ?_, fun _ returned => ?_,
      fun failed => ?_⟩
    · have before := launchedBefore kind
      simp only [State.pending, List.count_append, List.count_singleton, beq_iff_eq]
      split
      next => push_cast; rw [before]; ring
      next => simpa using before
    · exact ⟨by simp [rounds.1], more, nonneg draw⟩
    · cases returned
    · cases failed
  next last =>
    cases moves
    refine ⟨?_, balanced.tallies, ?_, ?_, fun _ returned => ?_, fun failed => ?_⟩
    · simpa only [State.rounds, rounds.1] using countedBefore
    · simpa only [State.pending, add_zero] using launchedBefore
    · dsimp only
      omega
    · cases returned
    · cases failed

/-- A launch turns one pending task into a task; after the last one the round itself is counted. -/
theorem Balanced.launching (balanced : Balanced c s)
    (main : s.main = .launching round current launched) (moves : s.mainStep c draw = some s') :
    Balanced c s' := by
  have rounds := balanced.rounds
  have launchedBefore := balanced.launched
  have countedBefore := balanced.counted
  simp only [State.mainStep, main] at moves rounds
  simp only [State.pending, main] at launchedBefore
  simp only [State.rounds, main] at countedBefore
  split at moves
  next more =>
    cases moves
    refine ⟨fun counter => ?_, fun t mem => ?_, fun kind => ?_, ?_, fun _ returned => ?_,
      fun failed => ?_⟩
    · rw [total_append]
      exact countedBefore counter
    · rcases List.mem_append.mp mem with old | new
      · exact balanced.tallies t old
      · rw [List.mem_singleton.mp new]
        exact workload_tally current
    · have before := launchedBefore kind
      simp only [State.pending, numberOf_append]
      split
      next same => rw [if_pos same] at before; push_cast; omega
      next other => rw [if_neg other] at before; push_cast; omega
    · exact ⟨rounds.1, rounds.2.1, by push_cast; omega⟩
    · cases returned
    · cases failed
  next last =>
    -- the only counter that no task increments is the one of the rounds
    cases moves
    refine ⟨fun counter => ?_, balanced.tallies, fun kind => ?_, ?_, fun _ returned => ?_,
      fun failed => ?_⟩
    · have before := countedBefore counter
      simp only [State.incrementAndGet, Function.update_apply, State.rounds]
      split
      next same =>
        subst same
        rw [before, long, long, wrap_wrap_add]
        congr 1
      next other =>
        rw [before, if_neg other]
    · have before := launchedBefore kind
      simp only [State.pending, add_zero]
      split at before
      next same => subst same; omega
      next => omega
    · exact ⟨rounds.1, by push_cast; omega⟩
    · cases returned
    · cases failed

/-- The wait ends with a failed task, or with the summary after all tasks. -/
theorem Balanced.awaiting (balanced : Balanced c s) (main : s.main = .awaiting)
    (moves : s.mainStep c draw = some s') : Balanced c s' := by
  have rounds := balanced.rounds
  have launchedBefore := balanced.launched
  have countedBefore := balanced.counted
  simp only [State.mainStep, main] at moves rounds
  simp only [State.pending, main] at launchedBefore
  simp only [State.rounds, main] at countedBefore
  split at moves
  next failed =>
    cases moves
    refine ⟨countedBefore, balanced.tallies, launchedBefore, rounds, fun _ returned => ?_,
      fun _ => List.any_eq_true.mp failed⟩
    cases returned
  next =>
    split at moves
    next completed =>
      cases moves
      refine ⟨countedBefore, balanced.tallies, launchedBefore, rounds, fun _ returned => ?_,
        fun failed => ?_⟩
      · cases returned
        exact ⟨rfl, completed⟩
      · cases failed
    next => cases moves

theorem Balanced.mainStep (nonneg : ∀ kind, 0 ≤ c.repeatCount kind) (balanced : Balanced c s)
    (moves : s.mainStep c draw = some s') : Balanced c s' := by
  cases main : s.main with
  | drawing round => exact balanced.drawing nonneg main moves
  | launching round current launched => exact balanced.launching main moves
  | awaiting => exact balanced.awaiting main moves
  | returned | failed => simp [State.mainStep, main] at moves

end MainStep

/-- How many products the read tasks have received. -/
def receivedByReads (tasks : List Task) : ℕ :=
  ((tasks.filter (·.kind = .read)).map fun t => (t.tally.received.map List.length).sum).sum

theorem total_completed {tasks : List Task} (tallies : ∀ t ∈ tasks, Tallies t.kind () t.tally) :
    total .read tasks = numberOf .read tasks ∧ total .write tasks = numberOf .write tasks ∧
    total .ddos tasks = numberOf .ddos tasks ∧ total .mixed tasks = numberOf .mixed tasks ∧
    total .getProducts tasks =
      numberOf .read tasks + 10 * numberOf .ddos tasks + numberOf .mixed tasks ∧
    total .postProduct tasks = numberOf .write tasks + numberOf .mixed tasks ∧
    total .getProduct tasks = numberOf .mixed tasks + receivedByReads tasks ∧
    total .workload tasks = 0 := by
  induction tasks with
  | nil => simp [total, numberOf, receivedByReads]
  | cons t tasks ih =>
      have rest := ih fun t mem => tallies t (List.mem_cons_of_mem _ mem)
      have counts := (tallies t List.mem_cons_self).1
      simp only [total, numberOf, receivedByReads, List.map_cons, List.sum_cons, counts] at rest ⊢
      cases kind : t.kind
      all_goals
        simp only [List.filter_cons, kind, WorkloadType.expected, decide_true, decide_false, if_true,
          reduceCtorEq, if_false, Bool.false_eq_true, List.map_cons, List.sum_cons, or_self,
          true_or, or_true]
        omega

/-- The equations between the numbers of a summary, in the arithmetic of `Long`. -/
structure Balances (c : WorkloadConfiguration) (s : State) (summary : WorkloadSummary) : Prop where
  workloadCount : summary.workloadCount = c.workloadCount
  draws : s.draws.length = c.workloadCount
  readCount : summary.readCount = s.draws.count .read * c.readWorkloadRepeatCount
  writeCount : summary.writeCount = s.draws.count .write * c.writeWorkloadRepeatCount
  ddosCount : summary.ddosCount = s.draws.count .ddos * c.ddosWorkloadRepeatCount
  mixedCount : summary.mixedCount = s.draws.count .mixed * c.mixedWorkloadRepeatCount
  getProductsCount : summary.getProductsCount =
    long (summary.readCount + 10 * summary.ddosCount + summary.mixedCount)
  postProductCount : summary.postProductCount = summary.writeCount + summary.mixedCount
  received : ∀ t ∈ s.tasks, t.kind = .read → ∃ products, t.tally.received = [products]
  getProductCount : summary.getProductCount = long (summary.mixedCount + receivedByReads s.tasks)

/-- The `int` range of the counts of a configuration. -/
structure WorkloadConfiguration.Valid (c : WorkloadConfiguration) : Prop where
  repeats : ∀ kind, 0 ≤ c.repeatCount kind ∧ c.repeatCount kind ≤ 2147483647
  workloads : 0 ≤ c.workloadCount ∧ c.workloadCount ≤ 2147483647

theorem completed_tally {t : Task} (tallies : Meets tallied t.program (Tallies t.kind) t.tally)
    (completed : t.isCompleted) : Tallies t.kind () t.tally := by
  unfold Task.isCompleted at completed
  split at completed
  next program =>
    rw [program] at tallies
    exact tallies
  next => cases completed

theorem Balanced.balances {c : WorkloadConfiguration} {s : State} {summary : WorkloadSummary}
    (valid : c.Valid) (balanced : Balanced c s) (returned : s.main = .returned summary) :
    Balances c s summary := by
  obtain ⟨rfl, completed⟩ := balanced.returned summary returned
  have tallies : ∀ t ∈ s.tasks, Tallies t.kind () t.tally := fun t mem =>
    completed_tally (balanced.tallies t mem) (List.all_eq_true.mp completed t mem)
  obtain ⟨read, write, ddos, mixed, getProducts, postProduct, getProduct, workload⟩ :=
    total_completed tallies
  have draws : (s.draws.length : ℤ) = c.workloadCount := by
    have rounds := balanced.rounds
    rw [returned] at rounds
    exact rounds
  have number : ∀ kind, (numberOf kind s.tasks : ℤ) = s.draws.count kind * c.repeatCount kind := by
    intro kind
    have launched := balanced.launched kind
    simpa only [State.pending, returned, add_zero] using launched
  -- a product of two `int`s fits into a `Long`
  have small : ∀ kind, numberOf kind s.tasks ≤ 4611686014132420609 := by
    intro kind
    have few : (s.draws.count kind : ℤ) ≤ 2147483647 := by
      have := List.count_le_length (a := kind) (l := s.draws)
      have := valid.workloads
      omega
    have bound := Int.mul_le_mul few (valid.repeats kind).2 (valid.repeats kind).1 (by decide)
    rw [← number kind] at bound
    exact_mod_cast bound
  have counted : ∀ counter, counter ≠ .workload →
      s.counters counter = long (total counter s.tasks : ℕ) := by
    intro counter other
    have counted := balanced.counted counter
    rwa [if_neg other, Nat.add_zero] at counted
  have exactly : ∀ counter kind, counter ≠ .workload →
      total counter s.tasks = numberOf kind s.tasks →
      s.counters counter = numberOf kind s.tasks := by
    intro counter kind other same
    have := small kind
    rw [counted counter other, same, long_eq_self (by omega) (by omega)]
  have readCount := exactly .read .read nofun read
  have writeCount := exactly .write .write nofun write
  have ddosCount := exactly .ddos .ddos nofun ddos
  have mixedCount := exactly .mixed .mixed nofun mixed
  exact {
    workloadCount := by
      have counted := balanced.counted .workload
      have rounds : s.rounds = s.draws.length := by rw [State.rounds, returned]
      have := valid.workloads
      rw [workload, if_pos rfl, rounds, Nat.zero_add, draws, long_eq_self (by omega) (by omega)]
        at counted
      exact counted
    draws := draws
    readCount := readCount.trans (number .read)
    writeCount := writeCount.trans (number .write)
    ddosCount := ddosCount.trans (number .ddos)
    mixedCount := mixedCount.trans (number .mixed)
    getProductsCount := by
      rw [State.summary, counted .getProducts nofun, getProducts, readCount, ddosCount, mixedCount]
      push_cast
      rfl
    postProductCount := by
      have w := small .write
      have m := small .mixed
      rw [State.summary, counted .postProduct nofun, postProduct, writeCount, mixedCount,
        long_eq_self (by omega) (by omega)]
      push_cast
      rfl
    received := fun t mem read => (tallies t mem).2 read
    getProductCount := by
      rw [State.summary, counted .getProduct nofun, getProduct, mixedCount]
      push_cast
      rfl }

def mostRepeats (c : WorkloadConfiguration) : ℕ :=
  c.readWorkloadRepeatCount.toNat + c.writeWorkloadRepeatCount.toNat +
    c.ddosWorkloadRepeatCount.toNat + c.mixedWorkloadRepeatCount.toNat

theorem repeats_le (c : WorkloadConfiguration) (kind : WorkloadType) :
    (c.repeatCount kind).toNat ≤ mostRepeats c := by
  cases kind <;> simp only [WorkloadConfiguration.repeatCount, mostRepeats] <;> omega

/-- How far `workload()` is from its end, and the programs of the tasks. A step of a task replaces its
program by a part of it. -/
def ahead (c : WorkloadConfiguration) : MainPhase → ℕ
  | .drawing round => (c.workloadCount.toNat - round) * (mostRepeats c + 2) + 2
  | .launching round kind launched =>
      (c.workloadCount.toNat - (round + 1)) * (mostRepeats c + 2) +
        ((c.repeatCount kind).toNat - launched) + 3
  | .awaiting => 1
  | .returned _ | .failed => 0

def programs (s : State) : Multiset (Client Unit) :=
  s.tasks.map Task.program

theorem mainStep_lowers {c : WorkloadConfiguration} {s s' : State} {draw : WorkloadType}
    (moves : s.mainStep c draw = some s') : ahead c s'.main < ahead c s.main := by
  unfold State.mainStep at moves
  cases main : s.main with
  | drawing round =>
      simp only [main] at moves
      split at moves
      next more =>
        cases moves
        have rounds : c.workloadCount.toNat - round = c.workloadCount.toNat - (round + 1) + 1 := by
          omega
        have := repeats_le c draw
        simp only [ahead]
        rw [rounds, Nat.succ_mul]
        omega
      next =>
        cases moves
        simp only [ahead]
        omega
  | launching round kind launched =>
      simp only [main] at moves
      split at moves
      next more =>
        cases moves
        simp only [ahead]
        omega
      next =>
        cases moves
        simp only [ahead]
        omega
  | awaiting =>
      simp only [main] at moves
      split at moves
      next =>
        cases moves
        exact Nat.zero_lt_one
      next =>
        split at moves
        next =>
          cases moves
          exact Nat.zero_lt_one
        next => cases moves
  | returned | failed => simp [main] at moves

theorem taskStep_lowers {s s' : State} {k : ℕ} {choice : Choice}
    (moves : s.taskStep k choice = some s') :
    s'.main = s.main ∧ Relation.CutExpand Child (programs s') (programs s) := by
  obtain ⟨t, op, next, result, found, program, -, rfl⟩ := taskStep_cases moves
  refine ⟨rfl, {next result}, .call op next, ?_, ?_⟩
  · intro p mem
    rw [Multiset.mem_singleton.mp mem]
    exact ⟨op, next, result, rfl, rfl⟩
  · have found' : (s.tasks.map Task.program)[k]? = some (.call op next) := by
      rw [List.getElem?_map, found, Option.map_some, program]
    unfold programs
    dsimp only
    rw [List.map_set]
    exact coe_set_add found' (next result)

/-- A task that has neither returned nor failed has a next operation. -/
theorem taskStep_progress {s : State} {t : Task} (mem : t ∈ s.tasks) (open' : ¬ t.isCompleted)
    (ok : ¬ t.isFailed) : ∃ k s', s.taskStep k {} = some s' := by
  obtain ⟨k, found⟩ := List.mem_iff_getElem?.mp mem
  cases program : t.program with
  | ret a => simp [Task.isCompleted, program] at open'
  | call op next =>
      obtain ⟨result, answered⟩ : ∃ result, op.result {} = some result := by
        cases op with
        | fail => simp [Task.isFailed, program] at ok
        | request | randomUUID | increment => exact ⟨_, rfl⟩
      refine ⟨k, Option.isSome_iff_exists.mp ?_⟩
      rw [State.taskStep, found]
      simp [program, answered]

theorem progress {c : WorkloadConfiguration} {s : State} (open' : s.main ≠ .failed)
    (running : ∀ summary, s.main ≠ .returned summary) : ∃ a s', step c a s = some s' := by
  cases main : s.main with
  | drawing round =>
      refine ⟨.main .read, ?_⟩
      rw [step, State.mainStep, main]
      dsimp only
      split <;> exact ⟨_, rfl⟩
  | launching round kind launched =>
      refine ⟨.main .read, ?_⟩
      rw [step, State.mainStep, main]
      dsimp only
      split <;> exact ⟨_, rfl⟩
  | returned summary => exact absurd main (running summary)
  | failed => exact absurd main open'
  | awaiting =>
      by_cases failed : s.tasks.any Task.isFailed
      · exact ⟨.main .read, _, by rw [step, State.mainStep, main]; exact if_pos failed⟩
      · by_cases completed : s.tasks.all Task.isCompleted
        · refine ⟨.main .read, Option.isSome_iff_exists.mp ?_⟩
          rw [step, State.mainStep, main]
          dsimp only
          rw [if_neg failed, if_pos completed]
          rfl
        · obtain ⟨t, mem, incomplete⟩ : ∃ t ∈ s.tasks, ¬ t.isCompleted := by
            simpa [List.all_eq_true] using completed
          have ok : ¬ t.isFailed := fun h => failed (List.any_eq_true.mpr ⟨t, mem, h⟩)
          obtain ⟨k, s', moves⟩ := taskStep_progress mem incomplete ok
          exact ⟨.task k {}, s', moves⟩

/-- Every run of `workload()` comes to an end: it returns a summary that balances, or one of its tasks
has failed. Whenever it returns a summary, it balances. -/
theorem workload_balances {c : WorkloadConfiguration} (valid : c.Valid) :
    Inevitable (step c) (fun s => (∃ summary, s.main = .returned summary ∧ Balances c s summary) ∨
      s.main = .failed ∧ ∃ t ∈ s.tasks, t.isFailed) {} ∧
    ∀ s summary, Reachable (step c) {} s → s.main = .returned summary → Balances c s summary := by
  have start : Balanced c {} := Balanced.start valid.workloads.1
  have keeps : ∀ a s s', Balanced c s → step c a s = some s' → Balanced c s' := by
    intro a s s' balanced moves
    cases a with
    | main draw => exact balanced.mainStep (fun kind => (valid.repeats kind).1) moves
    | task k choice => exact balanced.taskStep moves
  constructor
  · refine inevitable_of_wellFounded
      (WellFounded.prod_lex Nat.lt_wfRel.wf (WellFounded.cutExpand child_wellFounded))
      (fun s => (ahead c s.main, programs s)) keeps (fun s balanced running => ?_)
      (fun a s s' _ moves => ?_) start
    · refine progress (fun failed => running (.inr ⟨failed, balanced.failed failed⟩)) ?_
      intro summary returned
      exact running (.inl ⟨summary, returned, balanced.balances valid returned⟩)
    · cases a with
      | main draw => exact .left _ _ (mainStep_lowers moves)
      | task k choice =>
          obtain ⟨main, cut⟩ := taskStep_lowers moves
          rw [main]
          exact .right _ cut
  · intro s summary reachable returned
    exact (reachable.invariant start keeps).balances valid returned

/-- Three draws, and two tasks for each of them. -/
def threeDraws : WorkloadConfiguration where
  readWorkloadRepeatCount := 2
  writeWorkloadRepeatCount := 2
  ddosWorkloadRepeatCount := 2
  mixedWorkloadRepeatCount := 2
  workloadCount := 3

theorem workload_balances_threeDraws :
    Inevitable (step threeDraws) (fun s =>
      (∃ summary, s.main = .returned summary ∧ Balances threeDraws s summary) ∨
      s.main = .failed ∧ ∃ t ∈ s.tasks, t.isFailed) {} ∧
    ∀ s summary, Reachable (step threeDraws) {} s → s.main = .returned summary →
      Balances threeDraws s summary :=
  workload_balances ⟨fun kind => by cases kind <;> decide, by decide⟩

example :
    let list : Choice := { response := { status := .OK, body := .products [⟨"a", "A"⟩, ⟨"b", "B"⟩] } }
    let schedule := List.replicate 3 (.main .read) ++ List.replicate 7 (.task 0 list) ++
      List.replicate 2 (.main .read)
    ((run (step ⟨1, 1, 1, 1, 1⟩) schedule {}).map fun s => s.summary) = some ⟨1, 2, 0, 1, 0, 0, 0, 1⟩ := by
  rfl

end Renaissance.Http4k
