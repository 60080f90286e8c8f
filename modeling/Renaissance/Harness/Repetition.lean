import Mathlib.Data.Int.ConditionallyCompleteOrder
import Mathlib.Order.ConditionallyCompleteLattice.Basic
import Renaissance.Lib.Ensures
import Renaissance.Harness.Events
import Renaissance.Harness.PluginLoading

/-!
# How often an operation is repeated

The driver loop, the built-in policies and the dispatcher together. An observer of a run sees when the
measured operation is executed, what the listeners are told about it, and when a policy compares the
time with its limit.

A fixed number of operations is executed exactly. With a time limit, one operation is executed after the
one at whose end the limit is seen exhausted. The last operation, and no other, is announced as the
last one (`ensures_executeBenchmark`).
-/

namespace Renaissance

open Traced JavaInt

variable {π : Type}

/-! ## What is observed -/

/-- `begun` is the reading from which the time is counted, `flagged` is what the listeners are told about
an operation, `ran` its execution, and `checked` the comparison with the time limit at its end, with
the reading or the duration that is compared. -/
inductive Sign where
  | begun (now : Int)
  | flagged (isLastOp : Bool)
  | ran
  | checked (measured : Int) (elapsed : Bool)
deriving DecidableEq, Repr

def Event.sign? : Event → Option Sign
  | .timeStart _ now => some (.begun now)
  | .call (.notify (.afterOperationSetUp _ _ isLastOp)) => some (.flagged isLastOp)
  | .call (.benchmark .run _) => some .ran
  | .timeCheck _ measured elapsed => some (.checked measured elapsed)
  | _ => none

/-- The number of operations in a list of signs. -/
def operations (signs : List Sign) : Nat :=
  signs.count .ran

theorem operations_append (first second : List Sign) :
    operations (first ++ second) = operations first + operations second :=
  List.count_append

/-- The signs of `n` operations, the last of them announced as such. -/
def countedOperations : Nat → List Sign
  | 0 => []
  | n + 1 => [.flagged (n == 0), .ran] ++ countedOperations n

theorem operations_countedOperations (n : Nat) : operations (countedOperations n) = n := by
  induction n with
  | zero => rfl
  | succ n ih =>
      rw [countedOperations, operations_append, ih, Nat.add_comm]
      rfl

/-- The signs of the operations of a benchmark with a time limit. `spend` adds what is measured at the end
of an operation to the time that is spent, and the comparison says whether the limit is `exhausted`.
Once it has said so, which is the first argument, one operation is left, and only this one is announced
as the last one. -/
inductive TimedOperations (spend : Int → Int → Int) (exhausted : Int → Prop) :
    Bool → Int → List Sign → Prop where
  | last {spent measured : Int} (still : exhausted (spend spent measured)) :
      TimedOperations spend exhausted true spent [.flagged true, .ran, .checked measured true]
  | next {spent measured : Int} {elapsed : Bool} {signs : List Sign}
      (seen : elapsed = true ↔ exhausted (spend spent measured))
      (later : TimedOperations spend exhausted elapsed (spend spent measured) signs) :
      TimedOperations spend exhausted false spent
        ([.flagged false, .ran, .checked measured elapsed] ++ signs)

section TimedOperations

variable {spend : Int → Int → Int} {exhausted : Int → Prop} {elapsed : Bool} {spent : Int}
  {signs : List Sign}

/-- At least one operation is executed, and two before the limit is seen exhausted. -/
theorem TimedOperations.operations_le (timed : TimedOperations spend exhausted elapsed spent signs) :
    (if elapsed then 1 else 2) ≤ operations signs := by
  induction timed with
  | last _ => exact Nat.le_refl _
  | next _ _ ih =>
      rw [operations_append]
      have one : 1 ≤ operations _ := le_trans (by split <;> decide) ih
      exact Nat.add_le_add (Nat.le_refl 1) one

/-- If the limit can be exhausted at any time, there is always a way to go on. -/
theorem exists_timedOperations (reach : ∀ spent, ∃ measured, exhausted (spend spent measured))
    (elapsed : Bool) (spent : Int) : ∃ signs, TimedOperations spend exhausted elapsed spent signs := by
  obtain ⟨measured, reached⟩ := reach spent
  cases elapsed with
  | true => exact ⟨_, .last reached⟩
  | false =>
      obtain ⟨again, still⟩ := reach (spend spent measured)
      exact ⟨_, .next (iff_of_true rfl reached) (.last still)⟩

/-- A reading of the clock replaces the one before. -/
theorem TimedOperations.of_readings {spent' : Int}
    (timed : TimedOperations (fun _ now => now) exhausted elapsed spent signs) :
    TimedOperations (fun _ now => now) exhausted elapsed spent' signs := by
  cases timed with
  | last still => exact .last still
  | next seen later => exact .next seen later

end TimedOperations

/-- The time limit has passed since `start`. A deadline that does not fit into the 64-bit type has passed
at once. -/
def TimeUp (runTimeNanos start now : Int) : Prop :=
  runTimeNanos ≤ now - start ∨ 2 ^ 63 ≤ start + runTimeNanos

/-- What is looked at comes from the clock: a reading, or the time between two readings. -/
def Sign.Measured (nanoTime : Nat → Int) (cls : PolicyClass) : Sign → Prop
  | .begun now => ∃ i, now = nanoTime i
  | .checked measured _ =>
      if cls = .fixedOpTime then ∃ i j, i ≤ j ∧ measured = nanoTime j - nanoTime i
      else ∃ i, measured = nanoTime i
  | _ => True

def AllMeasured (nanoTime : Nat → Int) (cls : PolicyClass) (signs : List Sign) : Prop :=
  ∀ sign ∈ signs, sign.Measured nanoTime cls

theorem AllMeasured.append {nanoTime : Nat → Int} {cls : PolicyClass} {first second : List Sign}
    (left : AllMeasured nanoTime cls first) (right : AllMeasured nanoTime cls second) :
    AllMeasured nanoTime cls (first ++ second) :=
  List.forall_mem_append.mpr ⟨left, right⟩

/-! ## The policies as one object -/

namespace BuiltinPolicy

def afterBenchmarkSetUp (benchName : String) (now : Int) : BuiltinPolicy → BuiltinPolicy
  | .fixedOpCount policy => .fixedOpCount (policy.afterBenchmarkSetUp benchName)
  | .fixedTime policy => .fixedTime (policy.afterBenchmarkSetUp now)
  | .fixedOpTime policy => .fixedOpTime policy.afterBenchmarkSetUp

def beforeOperationTearDown (now durationNanos : Int) : BuiltinPolicy → BuiltinPolicy
  | .fixedOpCount policy => .fixedOpCount policy
  | .fixedTime policy => .fixedTime (policy.beforeOperationTearDown now)
  | .fixedOpTime policy => .fixedOpTime (policy.beforeOperationTearDown durationNanos)

/-- The signs that the policy leaves when a benchmark is set up. -/
def begins (now : Int) : BuiltinPolicy → List Sign
  | .fixedTime _ => [.begun now]
  | .fixedOpCount _ | .fixedOpTime _ => []

/-- The comparisons made at the end of an operation. -/
def checks (now durationNanos : Int) : BuiltinPolicy → List Sign
  | .fixedOpCount _ => []
  | .fixedTime policy => [.checked now (policy.elapsed now)]
  | .fixedOpTime policy => [.checked durationNanos (policy.elapsed durationNanos)]

end BuiltinPolicy

/-- The signs that an operation leaves if nothing throws. -/
def BuiltinPolicy.operationSigns (policy : BuiltinPolicy) (opIndex now durationNanos : Int) :
    List Sign :=
  [.flagged (policy.isLast opIndex), .ran] ++ policy.checks now durationNanos

/-! ## A clock that does not wrap -/

/-- Readings never decrease, and they and their differences fit into the 64-bit type. -/
structure SteadyClock (nanoTime : Nat → Int) : Prop where
  monotone : Monotone nanoTime
  long : ∀ i, -2 ^ 63 ≤ nanoTime i ∧ nanoTime i < 2 ^ 63
  fits : ∀ i j, nanoTime j - nanoTime i < 2 ^ 63

/-! ## What a policy has planned

`Planned t begun policy clock opIndex signs`: from here on, with `clock` readings of the clock `t` taken and
the time counted from `begun`, the loop may leave `signs` before it ends. -/

/-- How far the two time-based policies are: their counter, and what is known of the limit once it
was seen exhausted. -/
def TimedPlan (spend : Int → Int → Int) (exhausted : Int → Prop) (elapsedCount : Int) (known : Prop)
    (spent : Int) (signs : List Sign) : Prop :=
  (elapsedCount = 0 ∧ TimedOperations spend exhausted false spent signs) ∨
    (elapsedCount = 1 ∧ known ∧ TimedOperations spend exhausted true spent signs) ∨
    (elapsedCount = 2 ∧ signs = [])

def Planned (t : Nat → Int) (begun : Int) (policy : BuiltinPolicy) (clock : Nat) (opIndex : Int)
    (signs : List Sign) : Prop :=
  match policy with
  | .fixedOpCount policy => ∃ done left : Nat, opIndex = done ∧ policy.countLimit = done + left ∧
      policy.countLimit < 2 ^ 31 ∧ signs = countedOperations left
  | .fixedTime policy =>
      (policy.endNanos = long (begun + policy.runTimeNanos) ∧ -2 ^ 63 ≤ begun ∧ begun ≤ t clock ∧
        0 ≤ policy.runTimeNanos ∧ policy.runTimeNanos < 2 ^ 63) ∧
      TimedPlan (fun _ now => now) (TimeUp policy.runTimeNanos begun) policy.elapsedCount
        (∀ i, clock ≤ i → TimeUp policy.runTimeNanos begun (t i)) begun signs
  | .fixedOpTime policy =>
      -- The durations charged so far are parts of the time since the first reading.
      (policy.remainingNanos ≤ policy.operationRunTimeNanos ∧
        policy.operationRunTimeNanos - policy.remainingNanos ≤ t clock - t 0 ∧
        0 ≤ policy.operationRunTimeNanos ∧ policy.operationRunTimeNanos < 2 ^ 63) ∧
      TimedPlan (· + ·) (policy.operationRunTimeNanos ≤ ·) policy.elapsedCount
        (policy.remainingNanos ≤ 0) (policy.operationRunTimeNanos - policy.remainingNanos) signs

/-- One more operation of a time-based policy, with what the comparison at its end says. -/
theorem TimedPlan.operation {spend : Int → Int → Int} {exhausted : Int → Prop} {count spent : Int}
    {known : Prop} (measured : Int) (elapsed : Bool) (known' : Prop)
    (reach : ∀ spent, ∃ measured, exhausted (spend spent measured))
    (planned : ∃ signs, TimedPlan spend exhausted count known spent signs) (more : count ≤ 1)
    (compares : elapsed = true ↔ exhausted (spend spent measured))
    (stays : known → elapsed = true) (learns : elapsed = true → known') :
    (∃ signs, TimedPlan spend exhausted (int (count + if elapsed then 1 else 0)) known'
        (spend spent measured) signs) ∧
      ∀ signs, TimedPlan spend exhausted (int (count + if elapsed then 1 else 0)) known'
          (spend spent measured) signs →
        TimedPlan spend exhausted count known spent
          ([.flagged (decide (count = 1)), .ran, .checked measured elapsed] ++ signs) := by
  obtain ⟨later, timed⟩ := exists_timedOperations reach elapsed (spend spent measured)
  obtain ⟨signs, ⟨rfl, -⟩ | ⟨rfl, isKnown, -⟩ | ⟨rfl, -⟩⟩ := planned
  · cases elapsed with
    | false =>
        refine ⟨⟨later, .inl ⟨rfl, timed⟩⟩, ?_⟩
        rintro signs (⟨-, timed'⟩ | ⟨one, -⟩ | ⟨two, -⟩)
        · exact .inl ⟨rfl, .next compares timed'⟩
        · cases one
        · cases two
    | true =>
        refine ⟨⟨later, .inr (.inl ⟨rfl, learns rfl, timed⟩)⟩, ?_⟩
        rintro signs (⟨zero, -⟩ | ⟨-, -, timed'⟩ | ⟨two, -⟩)
        · cases zero
        · exact .inl ⟨rfl, .next compares timed'⟩
        · cases two
  · obtain rfl := stays isKnown
    refine ⟨⟨[], .inr (.inr ⟨rfl, rfl⟩)⟩, ?_⟩
    rintro signs (⟨zero, -⟩ | ⟨one, -⟩ | ⟨-, rfl⟩)
    · cases zero
    · cases one
    · exact .inr (.inl ⟨rfl, isKnown, .last (compares.mp rfl)⟩)
  · omega

theorem exists_timeUp {runTimeNanos begun : Int} (_spent : Int) :
    ∃ now, TimeUp runTimeNanos begun now :=
  ⟨begun + runTimeNanos, .inl (by omega)⟩

/-- The comparison with the deadline says whether the time is up. -/
theorem elapsed_iff_timeUp {policy : FixedTime} {begun now : Int}
    (deadline : policy.endNanos = long (begun + policy.runTimeNanos)) (low : -2 ^ 63 ≤ begun)
    (later : begun ≤ now) (positive : 0 ≤ policy.runTimeNanos) (fits : policy.runTimeNanos < 2 ^ 63)
    (high : now < 2 ^ 63) :
    policy.elapsed now = true ↔ TimeUp policy.runTimeNanos begun now := by
  rw [FixedTime.elapsed, decide_eq_true_iff, deadline, TimeUp]
  by_cases inside : begun + policy.runTimeNanos < 2 ^ 63
  · rw [long_eq_self (by omega) (by omega)]
    omega
  · -- the deadline has wrapped
    rw [long_of_ge (by omega) (by omega)]
    omega

/-- The loop ends where the policy has planned no operation. -/
theorem Planned.done {t : Nat → Int} {begun : Int} {policy : BuiltinPolicy} {clock : Nat} {opIndex : Int}
    (planned : ∃ signs, Planned t begun policy clock opIndex signs)
    (no : policy.canExecute opIndex = false) : Planned t begun policy clock opIndex [] := by
  obtain ⟨signs, planned⟩ := planned
  have timed : ∀ {spend : Int → Int → Int} {exhausted : Int → Prop} {count spent : Int} {known : Prop},
      TimedPlan spend exhausted count known spent signs → ¬ count ≤ 1 →
      TimedPlan spend exhausted count known spent [] := by
    rintro spend exhausted count spent known (⟨rfl, -⟩ | ⟨rfl, -⟩ | two) no
    · omega
    · omega
    · exact .inr (.inr ⟨two.1, rfl⟩)
  cases policy with
  | fixedOpCount policy =>
      obtain ⟨done, left, rfl, limit, fits, -⟩ := planned
      have none : left = 0 := by
        simp only [BuiltinPolicy.canExecute, FixedOpCount.canExecute, limit,
          decide_eq_false_iff_not] at no
        omega
      exact ⟨done, left, rfl, limit, fits, by rw [none]; rfl⟩
  | fixedTime policy => exact ⟨planned.1, timed planned.2 (of_decide_eq_false no)⟩
  | fixedOpTime policy => exact ⟨planned.1, timed planned.2 (of_decide_eq_false no)⟩

/-- One operation, timed by the readings `start` and `stop`, with a comparison at `now`. -/
theorem Planned.operation {t : Nat → Int} (steady : SteadyClock t) {begun : Int} {policy : BuiltinPolicy}
    {clock start stop now clock' : Nat} {opIndex : Int}
    (planned : ∃ signs, Planned t begun policy clock opIndex signs)
    (more : policy.canExecute opIndex = true) (hstart : clock ≤ start) (hstop : start ≤ stop)
    (hnow : stop ≤ now) (hclock : now ≤ clock') :
    let nanos := long (t stop - t start)
    let next := policy.beforeOperationTearDown (t now) nanos
    (∃ signs, Planned t begun next clock' (int (opIndex + 1)) signs) ∧
      ∀ signs, Planned t begun next clock' (int (opIndex + 1)) signs →
        Planned t begun policy clock opIndex
          (policy.operationSigns opIndex (t now) nanos ++ signs) := by
  intro nanos next
  cases policy with
  | fixedOpCount policy =>
      obtain ⟨signs, done, left, rfl, limit, fits, -⟩ := planned
      have less : (done : Int) < policy.countLimit := of_decide_eq_true more
      obtain ⟨rest, rfl⟩ : ∃ rest, left = rest + 1 := ⟨left - 1, by omega⟩
      have index : int ((done : Int) + 1) = ((done + 1 : Nat) : Int) := by
        rw [int_eq_self (by omega) (by omega)]
        rfl
      have last : policy.isLast done = (rest == 0) := by
        rw [FixedOpCount.isLast, index, limit, Bool.eq_iff_iff]
        simp only [decide_eq_true_eq, beq_iff_eq]
        omega
      refine ⟨⟨countedOperations rest, done + 1, rest, index, ?_, fits, rfl⟩, ?_⟩
      · rw [limit]
        push_cast
        omega
      rintro signs ⟨done', left', same, limit', -, rfl⟩
      have : left' = rest := by
        rw [index] at same
        have limit'' : policy.countLimit = done' + left' := limit'
        omega
      subst this
      refine ⟨done, left' + 1, rfl, limit, fits, ?_⟩
      simp [BuiltinPolicy.operationSigns, BuiltinPolicy.isLast, BuiltinPolicy.checks, last,
        countedOperations]
  | fixedTime policy =>
      obtain ⟨signs, ⟨deadline, low, later, positive, fits⟩, plan⟩ := planned
      have reading : begun ≤ t now :=
        later.trans (steady.monotone ((hstart.trans hstop).trans hnow))
      have compares : policy.elapsed (t now) = true ↔ TimeUp policy.runTimeNanos begun (t now) :=
        elapsed_iff_timeUp deadline low reading positive fits (steady.long now).2
      have stays : policy.elapsed (t now) = true →
          ∀ i, clock' ≤ i → TimeUp policy.runTimeNanos begun (t i) := by
        intro elapsed i after
        have forward : t now ≤ t i := steady.monotone (hclock.trans after)
        rcases compares.mp elapsed with passed | wrapped
        · exact .inl (by omega)
        · exact .inr wrapped
      obtain ⟨some, all⟩ := TimedPlan.operation (t now) (policy.elapsed (t now))
        (∀ i, clock' ≤ i → TimeUp policy.runTimeNanos begun (t i)) exists_timeUp ⟨signs, plan⟩
        (of_decide_eq_true more) compares (fun known => compares.mpr (known now (by omega))) stays
      have kept : begun ≤ t clock' := reading.trans (steady.monotone hclock)
      have replace : ∀ {spent spent' : Int} {signs : List Sign},
          TimedPlan (fun _ now => now) (TimeUp policy.runTimeNanos begun)
            (int (policy.elapsedCount + if policy.elapsed (t now) then 1 else 0))
            (∀ i, clock' ≤ i → TimeUp policy.runTimeNanos begun (t i)) spent signs →
          TimedPlan (fun _ now => now) (TimeUp policy.runTimeNanos begun)
            (int (policy.elapsedCount + if policy.elapsed (t now) then 1 else 0))
            (∀ i, clock' ≤ i → TimeUp policy.runTimeNanos begun (t i)) spent' signs := by
        rintro spent spent' signs (⟨zero, timed⟩ | ⟨one, known, timed⟩ | done)
        · exact .inl ⟨zero, timed.of_readings⟩
        · exact .inr (.inl ⟨one, known, timed.of_readings⟩)
        · exact .inr (.inr done)
      refine ⟨some.imp fun signs plan => ⟨⟨deadline, low, kept, positive, fits⟩, replace plan⟩, ?_⟩
      exact fun signs plan => ⟨⟨deadline, low, later, positive, fits⟩, all signs (replace plan.2)⟩
  | fixedOpTime policy =>
      obtain ⟨signs, ⟨below, charged, positive, fits⟩, plan⟩ := planned
      have h0 : t 0 ≤ t clock := steady.monotone (Nat.zero_le _)
      have h1 : t clock ≤ t start := steady.monotone hstart
      have h2 : t start ≤ t stop := steady.monotone hstop
      have h3 : t stop ≤ t clock' := steady.monotone (hnow.trans hclock)
      have span := steady.fits 0 clock'
      have exact_nanos : nanos = t stop - t start := long_eq_self (by omega) (by omega)
      have remaining : long (policy.remainingNanos - nanos) = policy.remainingNanos - nanos :=
        long_eq_self (by omega) (by omega)
      have budget : long (policy.remainingNanos - nanos) ≤ policy.operationRunTimeNanos ∧
          policy.operationRunTimeNanos - long (policy.remainingNanos - nanos) ≤ t clock' - t 0 ∧
          0 ≤ policy.operationRunTimeNanos ∧ policy.operationRunTimeNanos < 2 ^ 63 :=
        ⟨by omega, by omega, positive, fits⟩
      have spent : policy.operationRunTimeNanos - policy.remainingNanos + nanos =
          policy.operationRunTimeNanos - long (policy.remainingNanos - nanos) := by omega
      have compares : policy.elapsed nanos = true ↔ policy.operationRunTimeNanos ≤
          policy.operationRunTimeNanos - policy.remainingNanos + nanos := by
        rw [FixedOpTime.elapsed, decide_eq_true_iff]
        omega
      obtain ⟨some, all⟩ := TimedPlan.operation nanos (policy.elapsed nanos)
        (long (policy.remainingNanos - nanos) ≤ 0)
        (fun spent => ⟨policy.operationRunTimeNanos - spent, by omega⟩) ⟨signs, plan⟩
        (of_decide_eq_true more) compares (fun known => decide_eq_true (by omega)) of_decide_eq_true
      rw [spent] at some all
      refine ⟨some.imp fun signs plan => ⟨budget, plan⟩, fun signs plan => ?_⟩
      exact ⟨⟨below, charged, positive, fits⟩, all signs plan.2⟩

/-- What is compared is a reading or the duration of the operation. -/
theorem measured_operationSigns {t : Nat → Int} (steady : SteadyClock t) (policy : BuiltinPolicy)
    (opIndex : Int) {start stop : Nat} (now : Nat) (le : start ≤ stop) :
    AllMeasured t policy.cls (policy.operationSigns opIndex (t now) (long (t stop - t start))) := by
  have forward : t start ≤ t stop := steady.monotone le
  have exactNanos : long (t stop - t start) = t stop - t start :=
    long_eq_self (by omega) (by have := steady.fits start stop; omega)
  intro sign mem
  rw [BuiltinPolicy.operationSigns] at mem
  rcases List.mem_append.mp mem with announced | compared
  · rcases List.mem_pair.mp announced with rfl | rfl <;> exact trivial
  · cases policy with
    | fixedOpCount policy => cases compared
    | fixedTime policy =>
        obtain rfl := List.mem_singleton.mp compared
        exact ⟨now, rfl⟩
    | fixedOpTime policy =>
        obtain rfl := List.mem_singleton.mp compared
        exact ⟨start, stop, le, exactNanos⟩

/-! ## Steps that leave the policy alone -/

/-- What does not concern the policy: no sign is left, the policy is the same, and the clock does not
go back. -/
def Rests {α : Type} (m : Action π α) : Prop :=
  Idle Event.sign? (fun w w' : World π => w'.policy = w.policy ∧ w.clock ≤ w'.clock) m

theorem closed_rests : Closed (fun {α} (m : Action π α) => Rests m) :=
  closed_idle (fun _ => ⟨rfl, Nat.le_refl _⟩)
    fun first second => ⟨second.1.trans first.1, first.2.trans second.2⟩

theorem rests_step {β : Type} (f : World π → β × World π) (outside : Outside f) :
    Rests (step f : Action π β) :=
  fun w => ⟨⟨outside.policy w, outside.clock w⟩, rfl⟩

theorem rests_emit {e : Event} (hidden : e.sign? = none) : Rests (emit e : Action π Unit) :=
  fun _ => ⟨⟨rfl, Nat.le_refl _⟩, by simp [hidden]⟩

theorem rests_invoke {α : Type} {call : Call} {body : Action π α}
    (hidden : (Event.call call).sign? = none) (inner : Rests body) : Rests (invoke call body) :=
  closed_invoke closed_rests (rests_emit hidden) (rests_emit rfl) (rests_emit rfl) inner

theorem rests_external {α : Type} (f : π → Except Throwable α × π) : Rests (external f) :=
  closed_external closed_rests (rests_step _ (outside_env f))

theorem rests_writerHandle (env : Env π) (index : Nat) (n : Notification) :
    Rests (writerHandle env index n) := by
  have modify : ∀ f, Rests (modifyWriter index f : Action π Unit) :=
    fun f w => ⟨⟨rfl, Nat.le_refl _⟩, rfl⟩
  have exit : Rests (stop (.exit 1) : Action π Unit) := fun w => ⟨⟨rfl, Nat.le_refl _⟩, rfl⟩
  show Rests (handle env (.writer index) n)
  exact closed_handle_writer closed_rests modify fun _ =>
    closed_storeResults closed_rests modify (rests_step _ (outside_look _))
      (fun _ => rests_emit rfl) exit (fun _ => rests_emit rfl) (fun _ => rests_emit rfl)
      (fun _ => rests_emit rfl) (fun _ => rests_emit rfl) true

/-- The notifications that a built-in policy acts upon. -/
def Notification.forPolicy : Notification → Bool
  | .afterBenchmarkSetUp _ | .beforeOperationTearDown .. => true
  | _ => false

def Listener.isPolicy : Listener → Bool
  | .plugin (.builtinPolicy _) => true
  | _ => false

theorem rests_deliver (env : Env π) {n : Notification} {l : Listener}
    (other : n.forPolicy = false ∨ l.isPolicy = false) : Rests (deliver env n l) := by
  refine rests_invoke rfl ?_
  cases l with
  | writer index => exact rests_writerHandle env index n
  | plugin p =>
      cases p with
      | external p => exact rests_external _
      | forceGc =>
          cases n with
          | afterOperationSetUp _ _ _ =>
              refine closed_rests.bind (rests_step _ (outside_nanoTime env)) fun _ => ?_
              exact closed_rests.bind (rests_step _ (outside_nanoTime env)) fun _ =>
                closed_rests.pure ()
          | _ => exact closed_rests.pure ()
      | builtinPolicy cls =>
          have ignored : n.forPolicy = false := by simpa [Listener.isPolicy] using other
          refine closed_rests.bind (rests_step _ (outside_look _)) fun policy => ?_
          cases policy <;> cases n <;> first | exact closed_rests.pure () | cases ignored

theorem rests_notify (h : Harness π) {n : Notification} (ignored : n.forPolicy = false)
    (hidden : (Event.call (.notify n)).sign? = none) : Rests (h.notify n) :=
  closed_notify closed_rests (rests_emit hidden) (rests_emit rfl) (rests_emit rfl)
    fun _ _ => rests_deliver h.env (.inl ignored)

theorem rests_request (h : Harness π) (b : String) (i : Int) :
    Rests (h.notifyOnMeasurementResultsRequested b i) := by
  refine rests_invoke rfl (closed_rests.forEach fun l _ => rests_invoke rfl ?_)
  refine closed_publish closed_rests (fun _ => rests_step _ (outside_env _)) (fun _ _ _ => ?_) l
  exact rests_invoke rfl (closed_rests.forEach fun _ _ => rests_deliver h.env (.inl rfl))

theorem rests_callBenchmark (h : Harness π) {method : BenchmarkMethod} (other : method ≠ .run)
    (b : String) : Rests (h.callBenchmark method b) := by
  refine rests_invoke ?_ (rests_external _)
  cases method <;> first | rfl | exact absurd rfl other

section Rules

variable {cut : Option Stop → List Sign → Prop} {w : World π}

theorem ensures_rests {α : Type} {m : Action π α} {post : α → World π → List Sign → Prop}
    (rests : Rests m) (stop : ∀ reason, cut reason [])
    (next : ∀ a w', w'.policy = w.policy → w.clock ≤ w'.clock → post a w' []) :
    Ensures Event.sign? m cut post w :=
  ensures_idle rests stop fun a w' related => next a w' related.1 related.2

/-- A call is seen before what it does. -/
theorem ensures_invoke_sign {α : Type} {call : Call} {body : Action π α}
    {post : α → World π → List Sign → Prop}
    (inner : Ensures Event.sign? body
      (fun reason seen => cut reason ((Event.call call).sign?.toList ++ seen))
      (fun a w' seen => post a w' ((Event.call call).sign?.toList ++ seen)) w) :
    Ensures Event.sign? (invoke call body) cut post w := by
  refine ensures_invoke (inner.mono ?_ ?_)
  · intro reason seen holds
    simpa [Event.sign?] using holds
  · intro a w' seen holds
    simpa [Event.sign?] using holds

end Rules

/-! ## The policy in its harness -/

/-- The dispatcher knows one built-in policy. It is the first to hear that a benchmark is set up and
the last to hear that an operation is torn down; a count-based policy does not listen to the
latter. -/
structure Drives (h : Harness π) (cls : PolicyClass) : Prop where
  asked : h.policy = .builtin
  setUp : ∃ after, h.dispatcher.of .afterBenchmarkSetUpListener = .plugin (.builtinPolicy cls) :: after ∧
    ∀ l ∈ after, l.isPolicy = false
  tearDown : ∃ before, h.dispatcher.of .beforeOperationTearDownListener =
      before ++ (if cls = .fixedOpCount then [] else [.plugin (.builtinPolicy cls)]) ∧
    ∀ l ∈ before, l.isPolicy = false

section Driven

variable {h : Harness π} {cls : PolicyClass} {w : World π} {cut : Option Stop → List Sign → Prop}

theorem ensures_policy_setUp {post : Unit → World π → List Sign → Prop} (b : String)
    (next : ∀ w', w'.policy = w.policy.afterBenchmarkSetUp b (h.env.nanoTime w.clock) →
      w.clock ≤ w'.clock → post () w' (w.policy.begins (h.env.nanoTime w.clock))) :
    Ensures Event.sign? (deliver h.env (.afterBenchmarkSetUp b) (.plugin (.builtinPolicy cls))) cut
      post w := by
  refine ensures_invoke_sign (ensures_bind_iff.mpr (ensures_step ?_))
  cases policy : w.policy with
  | fixedOpCount p =>
      simp only [policy] at next
      exact next _ rfl (Nat.le_refl _)
  | fixedTime p =>
      simp only [policy] at next
      refine ensures_bind_iff.mpr (ensures_step (ensures_bind_iff.mpr (ensures_emit ?_)))
      exact next _ rfl (Nat.le_succ _)
  | fixedOpTime p =>
      simp only [policy] at next
      exact next _ rfl (Nat.le_refl _)

theorem ensures_policy_tearDown {post : Unit → World π → List Sign → Prop} (b : String)
    (i nanos : Int)
    (next : ∀ w', w'.policy = w.policy.beforeOperationTearDown (h.env.nanoTime w.clock) nanos →
      w.clock ≤ w'.clock → post () w' (w.policy.checks (h.env.nanoTime w.clock) nanos)) :
    Ensures Event.sign?
      (deliver h.env (.beforeOperationTearDown b i nanos) (.plugin (.builtinPolicy cls))) cut
      post w := by
  refine ensures_invoke_sign (ensures_bind_iff.mpr (ensures_step ?_))
  cases policy : w.policy with
  | fixedOpCount p =>
      simp only [policy] at next
      exact next w policy (Nat.le_refl _)
  | fixedTime p =>
      simp only [policy] at next
      refine ensures_bind_iff.mpr (ensures_step (ensures_bind_iff.mpr (ensures_emit ?_)))
      exact next _ rfl (Nat.le_succ _)
  | fixedOpTime p =>
      simp only [policy] at next
      refine ensures_bind_iff.mpr (ensures_emit ?_)
      exact next _ rfl (Nat.le_refl _)

theorem ensures_setUp (drives : Drives h cls) {post : Unit → World π → List Sign → Prop} (b : String)
    (stop : ∀ reason now, cut reason (w.policy.begins (h.env.nanoTime now)))
    (next : ∀ w' now, w'.policy = w.policy.afterBenchmarkSetUp b (h.env.nanoTime now) →
      now ≤ w'.clock → post () w' (w.policy.begins (h.env.nanoTime now))) :
    Ensures Event.sign? (h.notifyAfterBenchmarkSetUp b) cut post w := by
  obtain ⟨after, list, others⟩ := drives.setUp
  refine ensures_invoke_sign ?_
  rw [Notification.interface, list, forEach]
  refine ensures_bind_iff.mpr (ensures_policy_setUp b fun w' policy le => ?_)
  refine ensures_rests (closed_rests.forEach fun l mem => rests_deliver _ (.inr (others l mem)))
    (fun reason => ?_) fun _ w'' same le' => ?_
  · simpa [Event.sign?] using stop reason w.clock
  · simpa [Event.sign?] using next w'' w.clock (same.trans policy) (le.trans le')

theorem ensures_tearDown (drives : Drives h cls) (kind : w.policy.cls = cls)
    {post : Unit → World π → List Sign → Prop} (b : String) (i nanos : Int)
    (stop : ∀ reason, cut reason [])
    (next : ∀ w' now, w'.policy = w.policy.beforeOperationTearDown (h.env.nanoTime now) nanos →
      w.clock ≤ now → now ≤ w'.clock → post () w' (w.policy.checks (h.env.nanoTime now) nanos)) :
    Ensures Event.sign? (h.notifyBeforeOperationTearDown b i nanos) cut post w := by
  obtain ⟨before, list, others⟩ := drives.tearDown
  refine ensures_invoke_sign ?_
  rw [Notification.interface, list]
  refine ensures_forEach_append (ensures_rests
    (closed_rests.forEach fun l mem => rests_deliver _ (.inr (others l mem)))
    (fun reason => stop reason) fun _ w' same le => ?_)
  split
  · obtain ⟨p, counted⟩ : ∃ p, w.policy = .fixedOpCount p := by
      cases policy : w.policy with
      | fixedOpCount p => exact ⟨p, rfl⟩
      | _ =>
          rw [policy] at kind
          subst kind
          contradiction
    refine ensures_pure ?_
    have done := next w' w.clock (by rw [same, counted]; rfl) (Nat.le_refl _) le
    rw [counted] at done
    exact done
  · rw [forEach]
    refine ensures_bind_iff.mpr (ensures_policy_tearDown b i nanos fun w'' policy le' => ?_)
    refine ensures_pure ?_
    rw [same] at policy ⊢
    have done := next w'' w'.clock policy le le'
    simpa [Event.sign?] using done

theorem ensures_canExecute (drives : Drives h cls) {post : Bool → World π → List Sign → Prop}
    (b : String) (i : Int) (next : post (w.policy.canExecute i) w []) :
    Ensures Event.sign? (h.canExecute b i) cut post w := by
  unfold Harness.canExecute
  rw [drives.asked]
  exact next

theorem ensures_isLast (drives : Drives h cls) {post : Bool → World π → List Sign → Prop}
    (b : String) (i : Int) (next : post (w.policy.isLast i) w []) :
    Ensures Event.sign? (h.isLast b i) cut post w := by
  unfold Harness.isLast
  rw [drives.asked]
  exact next

/-- The signs of one operation, with the clock readings that they depend on. -/
def OperationSeen (t : Nat → Int) (policy : BuiltinPolicy) (clock : Nat) (opIndex : Int)
    (outcome : Nat → Int → List Sign → Prop) : Prop :=
  ∃ start stop now : Nat, clock ≤ start ∧ start ≤ stop ∧ stop ≤ now ∧
    outcome now (long (t stop - t start))
      (policy.operationSigns opIndex (t now) (long (t stop - t start)))

theorem ensures_executeOperation (drives : Drives h cls) (kind : w.policy.cls = cls) (b : String)
    (i : Int) :
    Ensures Event.sign? (h.executeOperation b i)
      (fun _ seen => OperationSeen h.env.nanoTime w.policy w.clock i
        fun _ _ signs => seen <+: signs)
      (fun _ w' seen => OperationSeen h.env.nanoTime w.policy w.clock i
        fun now nanos signs => seen = signs ∧ now ≤ w'.clock ∧
          w'.policy = w.policy.beforeOperationTearDown (h.env.nanoTime now) nanos) w := by
  -- Until the policy has its reading, any readings explain what was seen.
  have early : ∀ seen, seen <+: [Sign.flagged (w.policy.isLast i), .ran] →
      OperationSeen h.env.nanoTime w.policy w.clock i fun _ _ signs => seen <+: signs :=
    fun seen start => ⟨w.clock, w.clock, w.clock, Nat.le_refl _, Nat.le_refl _, Nat.le_refl _,
      start.trans (List.prefix_append _ _)⟩
  unfold Harness.executeOperation
  refine ensures_bind_iff.mpr (ensures_rests (rests_callBenchmark h (by decide) b)
    (fun _ => early _ List.nil_prefix) fun _ w1 p1 c1 => ?_)
  refine ensures_bind_iff.mpr (ensures_isLast drives b i ?_)
  refine ensures_bind_iff.mpr (ensures_invoke_sign (ensures_rests
    (closed_rests.forEach fun l _ => rests_deliver h.env (.inl rfl))
    (fun _ => early _ ?_) fun _ w2 p2 c2 => ?_))
  · rw [p1]
    exact ⟨[.ran], rfl⟩
  refine ensures_bind_iff.mpr (ensures_step ?_)
  refine ensures_bind_iff.mpr (ensures_invoke_sign (ensures_rests (rests_external _)
    (fun _ => early _ ?_) fun _ w3 p3 c3 => ?_))
  · rw [p1]
    exact List.prefix_refl _
  refine ensures_bind_iff.mpr (ensures_step ?_)
  have policy3 : w3.policy = w.policy := p3.trans (p2.trans p1)
  refine ensures_bind_iff.mpr (ensures_tearDown drives (by rw [policy3]; exact kind) b i _
    (fun _ => early _ ?_) fun w4 now p4 after le => ?_)
  · rw [p1]
    exact List.prefix_refl _
  dsimp only at p4 after c3 ⊢
  have later : Rests (do
      h.callBenchmark .tearDownAfterEach b
      h.validate ⟨b, i, h.env.nanoTime w2.clock,
        long (h.env.nanoTime w3.clock - h.env.nanoTime w2.clock)⟩
      h.notifyOnMeasurementResult b "uptime_ns" (long (h.env.nanoTime w2.clock - h.vmStartNanos))
      h.notifyOnMeasurementResult b "duration_ns"
        (long (h.env.nanoTime w3.clock - h.env.nanoTime w2.clock))
      h.notifyOnMeasurementResultsRequested b i
      pure (long (h.env.nanoTime w3.clock - h.env.nanoTime w2.clock))) := by
    refine closed_rests.bind (rests_callBenchmark h (by decide) b) fun _ => ?_
    refine closed_rests.bind (rests_invoke rfl (rests_external _)) fun _ => ?_
    refine closed_rests.bind (rests_notify h rfl rfl) fun _ => ?_
    refine closed_rests.bind (rests_notify h rfl rfl) fun _ => ?_
    exact closed_rests.bind (rests_request h b i) fun _ => closed_rests.pure _
  refine ensures_rests later (fun _ => ?_) fun _ w5 p5 c5 => ?_
  · refine ⟨w2.clock, w3.clock, now, by omega, by omega, by omega, ?_⟩
    simp [BuiltinPolicy.operationSigns, Event.sign?, policy3, p1]
  · refine ⟨w2.clock, w3.clock, now, by omega, by omega, by omega, ?_, by omega, ?_⟩
    · simp [BuiltinPolicy.operationSigns, Event.sign?, policy3, p1]
    · rw [p5, p4, policy3]

/-! ## The loop -/

theorem operations_operationSigns (policy : BuiltinPolicy) (i now nanos : Int) :
    operations (policy.operationSigns i now nanos) = 1 := by
  cases policy <;> simp [operations, BuiltinPolicy.operationSigns, BuiltinPolicy.checks]

theorem cls_beforeOperationTearDown (policy : BuiltinPolicy) (now nanos : Int) :
    (policy.beforeOperationTearDown now nanos).cls = policy.cls := by
  cases policy <;> rfl

theorem finishes_notify (h : Harness π) (n : Notification) (running : n ≠ .beforeHarnessShutdown) :
    Finishes (h.notify n) :=
  (driverCall_notify h running).finishes

theorem finishes_executeOperation (h : Harness π) (b : String) (i : Int) :
    Finishes (h.executeOperation b i) := by
  have steps : OperationSteps h b (fun {α} (m : Action π α) => Finishes m) :=
    { closed := closed_finishes
      benchmark := fun method => (driverCall_callBenchmark h method b).finishes
      isLast := fun i => (driverCall_isLast h b i).finishes
      nanoTime := fun _ => rfl
      validate := fun operation _ => (driverCall_validate h operation).finishes
      afterOperationSetUp := fun i isLastOp => finishes_notify h (.afterOperationSetUp b i isLastOp) nofun
      beforeOperationTearDown := fun i nanos =>
        finishes_notify h (.beforeOperationTearDown b i nanos) nofun
      onMeasurementResult := fun metric value =>
        finishes_notify h (.onMeasurementResult b metric value) nofun
      onMeasurementResultsRequested := fun i =>
        (driverCall_notifyOnMeasurementResultsRequested h b i).finishes }
  exact steps.executeOperation i

/-- One pass through the loop: either no operation is planned any more, or one is executed and what is
planned after it continues its signs. -/
theorem ensures_loopBody (drives : Drives h cls) (kind : w.policy.cls = cls)
    (steady : SteadyClock h.env.nanoTime) (b : String) (begun i : Int)
    (planned : ∃ signs, Planned h.env.nanoTime begun w.policy w.clock i signs) :
    Ensures Event.sign? (h.loopBody b i)
      (fun reason seen => reason = none ∧ AllMeasured h.env.nanoTime cls seen ∧
        ∃ signs, Planned h.env.nanoTime begun w.policy w.clock i signs ∧ seen <+: signs)
      (fun again w' seen =>
        if again then w'.policy.cls = cls ∧ operations seen = 1 ∧ AllMeasured h.env.nanoTime cls seen ∧
          (∃ signs, Planned h.env.nanoTime begun w'.policy w'.clock (int (i + 1)) signs) ∧
          ∀ signs, Planned h.env.nanoTime begun w'.policy w'.clock (int (i + 1)) signs →
            Planned h.env.nanoTime begun w.policy w.clock i (seen ++ signs)
        else Planned h.env.nanoTime begun w.policy w.clock i [] ∧ seen = []) w := by
  unfold Harness.loopBody
  refine ensures_bind_iff.mpr (ensures_canExecute drives b i ?_)
  cases more : w.policy.canExecute i with
  | false => exact ensures_pure ⟨Planned.done planned more, rfl⟩
  | true =>
      refine ensures_bind_iff.mpr (ensures_printf rfl rfl ?_ (ensures_bind_iff.mpr ?_))
      · obtain ⟨signs, plan⟩ := planned
        exact ⟨rfl, List.forall_mem_nil _, signs, plan, List.nil_prefix⟩
      refine ((ensures_executeOperation drives kind b i).finishes
        (finishes_executeOperation h b i)).mono ?_ ?_
      · rintro reason seen ⟨rfl, start, stop, now, h1, h2, h3, begins⟩
        obtain ⟨⟨signs, next⟩, continues⟩ :=
          Planned.operation steady planned more h1 h2 h3 (Nat.le_refl now)
        have measured := measured_operationSigns steady w.policy i now h2
        rw [kind] at measured
        refine ⟨rfl, ?_, _, continues signs next, ?_⟩
        · have part : AllMeasured h.env.nanoTime cls seen :=
            fun sign mem => measured sign (begins.subset mem)
          simpa [Event.sign?] using part
        · simpa [Event.sign?] using begins.trans (List.prefix_append _ _)
      · rintro nanos w' seen ⟨start, stop, now, h1, h2, h3, rfl, le, policy⟩
        obtain ⟨next, continues⟩ := Planned.operation steady planned more h1 h2 h3 le
        have measured := measured_operationSigns steady w.policy i now h2
        rw [kind] at measured
        rw [← policy] at next continues
        refine ensures_bind_iff.mpr (ensures_printf rfl rfl ?_ (ensures_pure ?_))
        · -- The operation was executed as planned, and its line fails.
          obtain ⟨signs, plan⟩ := next
          simp only [List.nil_append, List.append_nil, true_and]
          exact ⟨measured, _, continues signs plan, List.prefix_append _ _⟩
        simp only [List.nil_append, List.append_nil, if_true]
        refine ⟨?_, operations_operationSigns _ _ _ _, measured, next, continues⟩
        rw [policy, cls_beforeOperationTearDown, kind]

theorem ensures_operationLoop (drives : Drives h cls) (kind : w.policy.cls = cls)
    (steady : SteadyClock h.env.nanoTime) (b : String) (begun : Int) (fuel : Nat) (i : Int)
    (planned : ∃ signs, Planned h.env.nanoTime begun w.policy w.clock i signs) :
    Ensures Event.sign? (h.operationLoop b fuel i)
      (fun _ seen => operations seen = fuel ∧ AllMeasured h.env.nanoTime cls seen ∧
        ∃ signs, Planned h.env.nanoTime begun w.policy w.clock i signs ∧ seen <+: signs)
      (fun result _ seen => AllMeasured h.env.nanoTime cls seen ∧
        ∃ signs, Planned h.env.nanoTime begun w.policy w.clock i signs ∧ seen <+: signs ∧
          (result.2 = .ok () → seen = signs)) w := by
  induction fuel generalizing i w with
  | zero =>
      obtain ⟨signs, plan⟩ := planned
      exact ⟨rfl, List.forall_mem_nil _, signs, plan, List.nil_prefix⟩
  | succ fuel ih =>
      unfold Harness.operationLoop
      refine ensures_bind_iff.mpr (ensures_attempt ?_)
      refine (ensures_loopBody drives kind steady b begun i planned).mono ?_ ?_
      · rintro reason seen ⟨rfl, measured, signs, plan, begins⟩ cause w'
        refine ensures_pure ⟨?_, signs, plan, by simpa using begins, nofun⟩
        rwa [List.append_nil]
      · rintro (_ | _) w' seen result
        · obtain ⟨plan, rfl⟩ := result
          exact ensures_pure ⟨List.forall_mem_nil _, [], plan, List.prefix_refl _, fun _ => rfl⟩
        · obtain ⟨kind', one, measured, next, continues⟩ := result
          -- What the rest of the loop leaves comes after the signs of this operation.
          refine (ih kind' _ next).mono ?_ ?_
          · rintro reason more ⟨count, measured', signs, plan, begins⟩
            refine ⟨?_, measured.append measured', _, continues signs plan,
              (List.prefix_append_right_inj seen).mpr begins⟩
            rw [operations_append, one, count, Nat.add_comm]
          · rintro result w'' more ⟨measured', signs, plan, begins, whole⟩
            refine ⟨measured.append measured', _, continues signs plan,
              (List.prefix_append_right_inj seen).mpr begins, ?_⟩
            exact fun ok => by rw [whole ok]

theorem ensures_executeOperations (drives : Drives h cls) (kind : w.policy.cls = cls)
    (steady : SteadyClock h.env.nanoTime) (b : String) (begun : Int) (fuel : Nat)
    (planned : ∃ signs, Planned h.env.nanoTime begun w.policy w.clock 0 signs) :
    Ensures Event.sign? (h.executeOperations fuel b)
      (fun reason seen => (reason = some .outOfFuel → operations seen = fuel) ∧
        AllMeasured h.env.nanoTime cls seen ∧
        ∃ signs, Planned h.env.nanoTime begun w.policy w.clock 0 signs ∧ seen <+: signs)
      (fun _ _ seen => AllMeasured h.env.nanoTime cls seen ∧
        Planned h.env.nanoTime begun w.policy w.clock 0 seen) w := by
  unfold Harness.executeOperations
  refine ensures_bind_iff.mpr
    ((ensures_operationLoop drives kind steady b begun fuel 0 planned).mono ?_ ?_)
  · exact fun reason seen ⟨count, rest⟩ => ⟨fun _ => count, rest⟩
  · rintro ⟨index, result⟩ w' seen ⟨measured, signs, plan, begins, whole⟩
    cases result with
    | ok u =>
        refine ensures_pure ?_
        rw [List.append_nil]
        refine ⟨measured, ?_⟩
        rw [whole rfl]
        exact plan
    | error cause =>
        have cut : (none = some Stop.outOfFuel → operations (seen ++ []) = fuel) ∧
            AllMeasured h.env.nanoTime cls (seen ++ []) ∧
            ∃ signs, Planned h.env.nanoTime begun w.policy w.clock 0 signs ∧ seen ++ [] <+: signs := by
          rw [List.append_nil]
          exact ⟨nofun, measured, signs, plan, begins⟩
        refine ensures_bind_iff.mpr (ensures_printf rfl rfl cut (ensures_throw ?_))
        simpa using cut

end Driven

/-! ## A benchmark -/

/-- What a policy promises for a benchmark. -/
def BuiltinPolicy.Promises (policy : BuiltinPolicy) (b : String) (signs : List Sign) : Prop :=
  match policy with
  | .fixedOpCount policy => signs = countedOperations (policy.countLimitProvider b).toNat
  | .fixedTime policy => ∃ begun rest, signs = .begun begun :: rest ∧
      TimedOperations (fun _ now => now) (TimeUp policy.runTimeNanos begun) false begun rest
  | .fixedOpTime policy =>
      TimedOperations (· + ·) (policy.operationRunTimeNanos ≤ ·) false 0 signs

/-- The parameters are values that the harness can pass: a count is a 32-bit integer that is not
negative, and a run time is a time in nanoseconds. -/
def BuiltinPolicy.Valid (policy : BuiltinPolicy) (b : String) : Prop :=
  match policy with
  | .fixedOpCount policy => 0 ≤ policy.countLimitProvider b ∧ policy.countLimitProvider b < 2 ^ 31
  | .fixedTime policy => 0 ≤ policy.runTimeNanos ∧ policy.runTimeNanos < 2 ^ 63
  | .fixedOpTime policy => 0 ≤ policy.operationRunTimeNanos ∧ policy.operationRunTimeNanos < 2 ^ 63

theorem cls_afterBenchmarkSetUp (policy : BuiltinPolicy) (b : String) (now : Int) :
    (policy.afterBenchmarkSetUp b now).cls = policy.cls := by
  cases policy <;> rfl

/-- Once a benchmark is set up, the policy has planned what it promises, whatever it was used for
before. -/
theorem planned_setUp {t : Nat → Int} (steady : SteadyClock t) {policy : BuiltinPolicy} {b : String}
    (valid : policy.Valid b) {now clock : Nat} (after : now ≤ clock) (signs : List Sign) :
    Planned t (t now) (policy.afterBenchmarkSetUp b (t now)) clock 0 signs ↔
      policy.Promises b (policy.begins (t now) ++ signs) := by
  have timed : ∀ {spend : Int → Int → Int} {exhausted : Int → Prop} {known : Prop} {spent : Int},
      TimedPlan spend exhausted 0 known spent signs ↔
        TimedOperations spend exhausted false spent signs := by
    intro spend exhausted known spent
    constructor
    · rintro (⟨-, plan⟩ | ⟨one, -⟩ | ⟨two, -⟩)
      · exact plan
      · cases one
      · cases two
    · exact fun plan => .inl ⟨rfl, plan⟩
  cases policy with
  | fixedOpCount policy =>
      obtain ⟨positive, fits⟩ := valid
      constructor
      · rintro ⟨done, left, zero, limit, -, rfl⟩
        have same : policy.countLimitProvider b = done + left := limit
        have : left = (policy.countLimitProvider b).toNat := by omega
        rw [this]
        rfl
      · intro promised
        refine ⟨0, (policy.countLimitProvider b).toNat, rfl, ?_, fits, promised⟩
        show policy.countLimitProvider b = _
        omega
  | fixedTime policy =>
      constructor
      · exact fun plan => ⟨t now, signs, rfl, timed.mp plan.2⟩
      · rintro ⟨begun, rest, same, promised⟩
        obtain ⟨rfl, rfl⟩ : t now = begun ∧ signs = rest := by
          simpa [BuiltinPolicy.begins] using same
        exact ⟨⟨rfl, (steady.long now).1, steady.monotone after, valid⟩, timed.mpr promised⟩
  | fixedOpTime policy =>
      have charged : (0 : Int) ≤ t clock - t 0 := by
        have := steady.monotone (Nat.zero_le clock)
        omega
      have nothing : policy.operationRunTimeNanos - policy.operationRunTimeNanos = 0 := Int.sub_self _
      constructor
      · intro plan
        have promised := timed.mp plan.2
        rwa [show policy.afterBenchmarkSetUp.operationRunTimeNanos -
          policy.afterBenchmarkSetUp.remainingNanos = 0 from nothing] at promised
      · refine fun promised => ⟨⟨le_refl _, ?_, valid⟩, timed.mpr ?_⟩
        · show policy.operationRunTimeNanos - policy.operationRunTimeNanos ≤ t clock - t 0
          omega
        · rw [show policy.afterBenchmarkSetUp.operationRunTimeNanos -
            policy.afterBenchmarkSetUp.remainingNanos = 0 from nothing]
          exact promised

theorem promises_exists (policy : BuiltinPolicy) (b : String) (now : Int) :
    ∃ signs, policy.Promises b (policy.begins now ++ signs) := by
  cases policy with
  | fixedOpCount policy => exact ⟨_, rfl⟩
  | fixedTime policy =>
      obtain ⟨signs, timed⟩ := exists_timedOperations exists_timeUp false now
      exact ⟨signs, now, signs, rfl, timed⟩
  | fixedOpTime policy =>
      exact exists_timedOperations (fun spent => ⟨policy.operationRunTimeNanos - spent, by omega⟩) false 0

/-- A call that comes to an end and does not concern the policy. -/
theorem ensures_call {α : Type} {m : Action π α} {cut : Option Stop → List Sign → Prop}
    {post : α → World π → List Sign → Prop} {w : World π} (rests : Rests m) (finishes : Finishes m)
    (stop : cut none []) (next : ∀ a w', w'.policy = w.policy → w.clock ≤ w'.clock → post a w' []) :
    Ensures Event.sign? m cut post w := by
  have whole : Ensures Event.sign? m (fun _ seen => seen = []) post w :=
    ensures_rests rests (fun _ => rfl) next
  refine (whole.finishes finishes).mono ?_ fun _ _ _ holds => holds
  rintro reason seen ⟨rfl, rfl⟩
  exact stop

theorem measured_begins (t : Nat → Int) (policy : BuiltinPolicy) (now : Nat) :
    AllMeasured t policy.cls (policy.begins (t now)) := by
  cases policy with
  | fixedTime policy => exact List.forall_mem_singleton.mpr ⟨now, rfl⟩
  | _ => exact List.forall_mem_nil _

theorem ensures_executeBenchmark {h : Harness π} {cls : PolicyClass} {w : World π}
    (drives : Drives h cls) (kind : w.policy.cls = cls) (steady : SteadyClock h.env.nanoTime)
    {b : String} (valid : w.policy.Valid b) (fuel : Nat) :
    Ensures Event.sign? (h.executeBenchmark fuel b)
      (fun reason seen => (reason = some .outOfFuel → operations seen = fuel) ∧
        AllMeasured h.env.nanoTime cls seen ∧
        ∃ signs, w.policy.Promises b signs ∧ seen <+: signs)
      (fun _ _ seen => AllMeasured h.env.nanoTime cls seen ∧ w.policy.Promises b seen) w := by
  obtain ⟨signs, promised⟩ := promises_exists w.policy b 0
  have early : AllMeasured h.env.nanoTime cls [] ∧ ∃ signs, w.policy.Promises b signs ∧ [] <+: signs :=
    ⟨List.forall_mem_nil _, _, promised, List.nil_prefix⟩
  refine ensures_bind_iff.mpr (ensures_call (rests_notify h rfl rfl)
    (finishes_notify h (.beforeBenchmarkSetUp b) nofun) ⟨nofun, early⟩ fun _ w1 p1 c1 => ?_)
  refine (ensures_tryFinally (rests_notify h rfl rfl).unseen
    (finishes_notify h (.afterBenchmarkTearDown b) nofun) ?_).mono
    (fun _ _ holds => holds) fun _ _ _ holds => holds.2
  refine ensures_bind_iff.mpr (ensures_call (rests_callBenchmark h (by decide) b)
    (driverCall_callBenchmark h .setUpBeforeAll b).finishes ⟨nofun, early⟩ fun _ w2 p2 c2 => ?_)
  refine ensures_tryFinally (rests_callBenchmark h (by decide) b).unseen
    (driverCall_callBenchmark h .tearDownAfterAll b).finishes ?_
  have begins : ∀ now, AllMeasured h.env.nanoTime cls (w2.policy.begins (h.env.nanoTime now)) ∧
      ∃ signs, w.policy.Promises b signs ∧ w2.policy.begins (h.env.nanoTime now) <+: signs := by
    intro now
    obtain ⟨signs, promised⟩ := promises_exists w.policy b (h.env.nanoTime now)
    have measured := measured_begins h.env.nanoTime w.policy now
    rw [kind] at measured
    rw [p2, p1]
    exact ⟨measured, _, promised, List.prefix_append _ _⟩
  have setUp : Ensures Event.sign? (h.notifyAfterBenchmarkSetUp b)
      (fun _ seen => ∃ now, seen = w2.policy.begins (h.env.nanoTime now))
      (fun _ w' seen => ∃ now, seen = w2.policy.begins (h.env.nanoTime now) ∧
        w'.policy = w2.policy.afterBenchmarkSetUp b (h.env.nanoTime now) ∧ now ≤ w'.clock) w2 :=
    ensures_setUp drives b (fun _ now => ⟨now, rfl⟩) fun _ now policy le => ⟨now, rfl, policy, le⟩
  refine ensures_bind_iff.mpr ((setUp.finishes
    (finishes_notify h (.afterBenchmarkSetUp b) nofun)).mono ?_ ?_)
  · rintro reason seen ⟨rfl, now, rfl⟩
    exact ⟨nofun, begins now⟩
  rintro _ w3 seen ⟨now, rfl, policy, after⟩
  obtain ⟨measured, -⟩ := begins now
  rw [p2, p1] at policy measured ⊢
  refine ensures_tryFinally (rests_notify h rfl rfl).unseen
    (finishes_notify h (.beforeBenchmarkTearDown b) nofun) ?_
  have planned : ∀ signs, Planned h.env.nanoTime (h.env.nanoTime now) w3.policy w3.clock 0 signs ↔
      w.policy.Promises b (w.policy.begins (h.env.nanoTime now) ++ signs) := fun signs => by
    rw [policy]
    exact planned_setUp steady valid after signs
  have kind3 : w3.policy.cls = cls := by rw [policy, cls_afterBenchmarkSetUp, kind]
  obtain ⟨signs, promised⟩ := promises_exists w.policy b (h.env.nanoTime now)
  have noOperations : operations (w.policy.begins (h.env.nanoTime now)) = 0 := by
    cases w.policy <;> rfl
  refine (ensures_executeOperations drives kind3 steady b _ fuel
    ⟨signs, (planned signs).mpr promised⟩).mono ?_ ?_
  · rintro reason seen ⟨count, measured', signs, plan, start⟩
    have more : w.policy.begins (h.env.nanoTime now) ++ seen <+:
        w.policy.begins (h.env.nanoTime now) ++ signs := (List.prefix_append_right_inj _).mpr start
    refine ⟨fun out => ?_, measured.append measured', _, (planned signs).mp plan, more⟩
    have all := operations_append (w.policy.begins (h.env.nanoTime now)) seen
    rwa [noOperations, count out, Nat.zero_add] at all
  · rintro _ _ seen ⟨measured', plan⟩
    have whole := (planned seen).mp plan
    exact ⟨⟨nofun, measured.append measured', _, whole, List.prefix_refl _⟩, measured.append measured',
      whole⟩

end Renaissance
