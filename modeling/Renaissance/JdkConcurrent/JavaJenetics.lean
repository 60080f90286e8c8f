import Mathlib.Algebra.Order.Field.Rat
import Mathlib.Data.Fintype.EquivFin
import Mathlib.Data.List.OfFn
import Mathlib.Logic.Equiv.Fin.Basic
import Mathlib.Tactic.FieldSimp
import Mathlib.Tactic.FinCases
import Mathlib.Tactic.Linarith
import Mathlib.Tactic.Ring
import Renaissance.Lib.Fallible
import Renaissance.Lib.Transition

/-!
# Seeds of the genetic algorithm

`JavaJenetics` evolves one chromosome in each of several tasks. A task draws its seed from a shared counter
when it starts, and the chromosomes are averaged in the order in which the tasks were submitted. The
evolution is a parameter, genes are exact rationals.

Results:
1. `exists_order`: the seeds are handed out in any order.
2. `runRepetition_stable_iff`: the result does not depend on it if and only if there are at most two tasks
   or all chromosomes are equal.
-/

namespace Renaissance.JavaJenetics

open Transition

abbrev Chromosome (geneCount : ℕ) :=
  Fin geneCount → ℚ

/-- `DoubleGene.mean`. -/
def mean (x y : ℚ) : ℚ :=
  (x + y) / 2

variable {geneCount threadCount : ℕ}

def average (ca cb : Chromosome geneCount) : Chromosome geneCount :=
  fun i => mean (ca i) (cb i)

/-- The counter, how many tasks are submitted, and the seed of each task that has started. -/
structure State (threadCount : ℕ) where
  initialSeed : ℤ
  submitted : ℕ
  seeds : Fin threadCount → Option ℤ

def setupBeforeEach (threadCount : ℕ) (randomSeed : ℤ) : State threadCount where
  initialSeed := randomSeed
  submitted := 0
  seeds _ := none

/-- The main thread submits the next task, or a task draws its seed. -/
inductive Turn (threadCount : ℕ) where
  | supplyAsync
  | getAndIncrement (task : Fin threadCount)

def step : Turn threadCount → State threadCount → Option (State threadCount)
  | .supplyAsync, s =>
      if s.submitted < threadCount then some { s with submitted := s.submitted + 1 } else none
  | .getAndIncrement task, s =>
      if task < s.submitted ∧ s.seeds task = none then
        some { s with
          initialSeed := s.initialSeed + 1
          seeds := Function.update s.seeds task (some s.initialSeed) }
      else none

/-- `reduce((f, g) -> f.thenCombine(g, this::average)).get()`. -/
def reduce : List (Chromosome geneCount) → Option (Chromosome geneCount)
  | [] => none
  | f :: fs => some (fs.foldl average f)

/-- What `runRepetition` returns once every task has its seed. -/
def runRepetition (evolveChromosome : ℤ → Chromosome geneCount) (s : State threadCount) :
    Option (Chromosome geneCount) :=
  ((List.ofFn s.seeds).mapM (Option.map evolveChromosome)).bind reduce

def State.Complete (s : State threadCount) : Prop :=
  ∀ task, ∃ seed, s.seeds task = some seed

/-- Every schedule leads to one and the same chromosome. -/
def Stable (evolveChromosome : ℤ → Chromosome geneCount) (threadCount : ℕ) (randomSeed : ℤ) : Prop :=
  ∃ c, ∀ s, Reachable step (setupBeforeEach threadCount randomSeed) s → s.Complete →
    runRepetition evolveChromosome s = some c

/-! ## The orders of the draws -/

section Orders

variable {randomSeed : ℤ} {s s' : State threadCount}

/-- The seeds that were drawn are different ones, and as many as the counter says. -/
structure Drawn (randomSeed : ℤ) (s : State threadCount) : Prop where
  range : ∀ task seed, s.seeds task = some seed → randomSeed ≤ seed ∧ seed < s.initialSeed
  distinct : ∀ task task' seed, s.seeds task = some seed → s.seeds task' = some seed → task = task'
  count : s.initialSeed = randomSeed + (Finset.univ.filter fun task => (s.seeds task).isSome).card

theorem drawn_setupBeforeEach : Drawn randomSeed (setupBeforeEach threadCount randomSeed) where
  range _ _ drawn := by cases drawn
  distinct _ _ _ drawn := by cases drawn
  count := by simp [setupBeforeEach]

theorem drawn_step {turn : Turn threadCount} (drawn : Drawn randomSeed s)
    (moves : step turn s = some s') : Drawn randomSeed s' := by
  cases turn with
  | supplyAsync =>
      obtain ⟨-, moved⟩ := Option.ite_none_right_eq_some.mp moves
      cases moved
      exact ⟨drawn.range, drawn.distinct, drawn.count⟩
  | getAndIncrement task =>
      obtain ⟨⟨-, new⟩, moved⟩ := Option.ite_none_right_eq_some.mp moves
      cases moved
      have least : randomSeed ≤ s.initialSeed := by
        have := drawn.count
        omega
      -- the new seed is above all that were drawn
      have cases' : ∀ other seed, Function.update s.seeds task (some s.initialSeed) other = some seed →
          (other = task ∧ seed = s.initialSeed) ∨ (other ≠ task ∧ s.seeds other = some seed) := by
        intro other seed found
        by_cases same : other = task
        · subst same
          rw [Function.update_self] at found
          exact .inl ⟨rfl, (Option.some.inj found).symm⟩
        · rw [Function.update_of_ne same] at found
          exact .inr ⟨same, found⟩
      refine ⟨fun other seed found => ?_, fun other other' seed found found' => ?_, ?_⟩
      · rcases cases' other seed found with ⟨-, rfl⟩ | ⟨-, old⟩
        · exact ⟨least, lt_add_one _⟩
        · exact ⟨(drawn.range other seed old).1, (drawn.range other seed old).2.trans (lt_add_one _)⟩
      · rcases cases' other seed found with ⟨isTask, same⟩ | ⟨-, old⟩
        · rcases cases' other' seed found' with ⟨isTask', -⟩ | ⟨-, old'⟩
          · exact isTask.trans isTask'.symm
          · exact absurd (drawn.range other' seed old').2 (same ▸ lt_irrefl seed)
        · rcases cases' other' seed found' with ⟨-, same⟩ | ⟨-, old'⟩
          · exact absurd (drawn.range other seed old).2 (same ▸ lt_irrefl seed)
          · exact drawn.distinct other other' seed old old'
      · have more : (Finset.univ.filter fun other =>
            (Function.update s.seeds task (some s.initialSeed) other).isSome) =
            insert task (Finset.univ.filter fun other => (s.seeds other).isSome) := by
          ext other
          by_cases same : other = task <;> simp [same]
        show s.initialSeed + 1 = randomSeed + _
        rw [more, Finset.card_insert_of_notMem (by simp [new])]
        have := drawn.count
        push_cast
        omega

theorem drawn_of_reachable (reachable : Reachable step (setupBeforeEach threadCount randomSeed) s) :
    Drawn randomSeed s :=
  reachable.invariant drawn_setupBeforeEach fun _ _ _ => drawn_step

/-- In the end, task `i` has drawn the seed number `order i`. -/
theorem exists_order (reachable : Reachable step (setupBeforeEach threadCount randomSeed) s)
    (complete : s.Complete) :
    ∃ order : Equiv.Perm (Fin threadCount), ∀ task, s.seeds task = some (randomSeed + order task) := by
  have drawn := drawn_of_reachable reachable
  have all : (Finset.univ.filter fun task => (s.seeds task).isSome) = Finset.univ :=
    Finset.filter_true_of_mem fun task _ => Option.isSome_iff_exists.mpr (complete task)
  have last : s.initialSeed = randomSeed + threadCount := by
    rw [drawn.count, all, Finset.card_univ, Fintype.card_fin]
  choose seed found using complete
  have small : ∀ task, (seed task - randomSeed).toNat < threadCount := by
    intro task
    have range := drawn.range task _ (found task)
    omega
  let rank (task : Fin threadCount) : Fin threadCount := ⟨(seed task - randomSeed).toNat, small task⟩
  have value : ∀ task, seed task = randomSeed + rank task := by
    intro task
    have range := drawn.range task _ (found task)
    show seed task = randomSeed + ((seed task - randomSeed).toNat : ℤ)
    omega
  have injective : Function.Injective rank := by
    intro task task' same
    have sameSeed : seed task = seed task' := by rw [value task, value task', same]
    exact drawn.distinct task task' _ (found task) (sameSeed ▸ found task')
  refine ⟨Equiv.ofBijective rank (Finite.injective_iff_bijective.mp injective), fun task => ?_⟩
  rw [found task, value task]
  rfl

/-- All tasks are submitted, and those before number `k` in the given order have drawn their seeds. -/
def afterDraws (randomSeed : ℤ) (order : Equiv.Perm (Fin threadCount)) (k : ℕ) : State threadCount where
  initialSeed := randomSeed + k
  submitted := threadCount
  seeds task := if order task < k then some (randomSeed + order task) else none

theorem reachable_submitted {k : ℕ} (small : k ≤ threadCount) :
    Reachable step (setupBeforeEach threadCount randomSeed)
      { setupBeforeEach threadCount randomSeed with submitted := k } := by
  induction k with
  | zero => exact .start
  | succ k ih =>
      refine (ih (by omega)).next (a := .supplyAsync) ?_
      rw [step, if_pos (by exact small)]

/-- The tasks may draw their seeds in any order. -/
theorem reachable_afterDraws (order : Equiv.Perm (Fin threadCount)) {k : ℕ} (small : k ≤ threadCount) :
    Reachable step (setupBeforeEach threadCount randomSeed) (afterDraws randomSeed order k) := by
  induction k with
  | zero => simpa [afterDraws, setupBeforeEach] using reachable_submitted (le_refl threadCount)
  | succ k ih =>
      let task := order.symm ⟨k, small⟩
      have isNext : (order task : ℕ) = k := by simp [task]
      refine (ih (by omega)).next (a := .getAndIncrement task) ?_
      have guard : task < (afterDraws randomSeed order k).submitted ∧
          (afterDraws randomSeed order k).seeds task = none :=
        ⟨task.isLt, if_neg (by simp [isNext])⟩
      rw [step, if_pos guard]
      simp only [afterDraws, Option.some.injEq, State.mk.injEq, true_and]
      refine ⟨by omega, funext fun other => ?_⟩
      by_cases same : other = task
      · subst same
        simp [isNext]
      · have different : (order other : ℕ) ≠ k := by
          rw [← isNext]
          exact fun h => same (order.injective (Fin.ext h))
        rw [Function.update_of_ne same]
        have : (order other : ℕ) < k + 1 ↔ (order other : ℕ) < k := by omega
        simp [this]

variable (randomSeed) in
theorem exists_complete (order : Equiv.Perm (Fin threadCount)) :
    ∃ s, Reachable step (setupBeforeEach threadCount randomSeed) s ∧
      ∀ task, s.seeds task = some (randomSeed + order task) :=
  ⟨_, reachable_afterDraws order le_rfl, fun task => if_pos (order task).isLt⟩

end Orders

/-! ## The average -/

section Average

variable {evolveChromosome : ℤ → Chromosome geneCount} {randomSeed : ℤ}

theorem runRepetition_eq {s : State threadCount} {order : Equiv.Perm (Fin threadCount)}
    (drawn : ∀ task, s.seeds task = some (randomSeed + order task)) :
    runRepetition evolveChromosome s =
      reduce (List.ofFn fun task => evolveChromosome (randomSeed + order task)) := by
  have evolved : (List.ofFn s.seeds).mapM (Option.map evolveChromosome) =
      some (List.ofFn fun task => evolveChromosome (randomSeed + order task)) := by
    rw [Fallible.mapM_eq_some_iff, List.map_ofFn, List.map_ofFn]
    exact congrArg List.ofFn (funext fun task => by simp [drawn task])
  rw [runRepetition, evolved, Option.bind_some]

/-- A repetition is stable if all orders lead to the same average. -/
theorem stable_iff : Stable evolveChromosome threadCount randomSeed ↔
    ∃ c, ∀ order : Equiv.Perm (Fin threadCount),
      reduce (List.ofFn fun task => evolveChromosome (randomSeed + order task)) = some c := by
  constructor
  · rintro ⟨c, same⟩
    refine ⟨c, fun order => ?_⟩
    obtain ⟨s, reachable, drawn⟩ := exists_complete randomSeed order
    rw [← runRepetition_eq drawn]
    exact same s reachable fun task => ⟨_, drawn task⟩
  · rintro ⟨c, same⟩
    refine ⟨c, fun s reachable complete => ?_⟩
    obtain ⟨order, drawn⟩ := exists_order reachable complete
    rw [runRepetition_eq drawn, same order]

theorem average_comm (x y : Chromosome geneCount) : average x y = average y x :=
  funext fun i => by rw [average, average, mean, mean, add_comm]

/-- The first chromosome counts half as much with each one that follows. -/
theorem foldl_average_sub (x y : Chromosome geneCount) (mid : List (Chromosome geneCount))
    (i : Fin geneCount) :
    mid.foldl average x i - mid.foldl average y i = (x i - y i) / 2 ^ mid.length := by
  induction mid generalizing x y with
  | nil => simp
  | cons z mid ih =>
      rw [List.foldl_cons, List.foldl_cons, ih, List.length_cons]
      simp only [average, mean]
      field_simp
      ring

/-- The first and the last of three or more chromosomes cannot be exchanged unless they are equal. -/
theorem eq_of_exchange {x y : Chromosome geneCount} {mid : List (Chromosome geneCount)}
    (several : mid ≠ []) (same : average (mid.foldl average x) y = average (mid.foldl average y) x) :
    x = y := by
  funext i
  have gene : (mid.foldl average x i + y i) / 2 = (mid.foldl average y i + x i) / 2 := congrFun same i
  have weight := foldl_average_sub x y mid i
  have more : (2 : ℚ) ≤ 2 ^ mid.length := by
    calc (2 : ℚ) = 2 ^ 1 := (pow_one 2).symm
      _ ≤ 2 ^ mid.length := pow_le_pow_right₀ (by norm_num) (List.length_pos_of_ne_nil several)
  have product : (x i - y i) * (2 ^ mid.length - 1) = 0 := by
    have sides : x i - y i = (x i - y i) / 2 ^ mid.length := by linarith
    field_simp at sides
    linarith
  rcases mul_eq_zero.mp product with zero | zero
  · linarith
  · linarith

theorem reduce_ofFn {n : ℕ} (f : Fin (n + 2) → Chromosome geneCount) :
    reduce (List.ofFn f) = some (average
      ((List.ofFn fun task : Fin n => f task.castSucc.succ).foldl average (f 0))
      (f (Fin.last (n + 1)))) := by
  rw [List.ofFn_succ, List.ofFn_succ_last, reduce, List.foldl_append, Fin.succ_last]
  rfl

/-- An order in which two given tasks come at two given places. -/
theorem exists_order_of_ne {first last place place' : Fin threadCount} (different : first ≠ last)
    (different' : place ≠ place') :
    ∃ order : Equiv.Perm (Fin threadCount), order first = place ∧ order last = place' := by
  let moved := Equiv.swap first place last
  have kept : moved ≠ place := by
    rw [← Equiv.swap_apply_left first place]
    exact fun same => different ((Equiv.swap first place).injective same).symm
  refine ⟨(Equiv.swap first place).trans (Equiv.swap moved place'), ?_, ?_⟩
  · rw [Equiv.trans_apply, Equiv.swap_apply_left, Equiv.swap_apply_of_ne_of_ne kept.symm different']
  · rw [Equiv.trans_apply]
    exact Equiv.swap_apply_left moved place'

/-- Three or more tasks: if all orders lead to the same average, all chromosomes are equal. -/
theorem evolved_eq_of_stable {n : ℕ} (stable : Stable evolveChromosome (n + 3) randomSeed)
    (place place' : Fin (n + 3)) :
    evolveChromosome (randomSeed + place) = evolveChromosome (randomSeed + place') := by
  obtain ⟨c, same⟩ := stable_iff.mp stable
  by_cases equal : place = place'
  · rw [equal]
  obtain ⟨order, isFirst, isLast⟩ :=
    exists_order_of_ne (Fin.last_pos.ne : (0 : Fin (n + 3)) ≠ Fin.last (n + 2)) equal
  -- the same order, but for the first and the last task
  let swapped := (Equiv.swap 0 (Fin.last (n + 2))).trans order
  have between : ∀ task : Fin (n + 1), swapped task.castSucc.succ = order task.castSucc.succ := by
    intro task
    refine congrArg order (Equiv.swap_apply_of_ne_of_ne (Fin.succ_ne_zero _) ?_)
    rw [← Fin.succ_last]
    exact fun h => (Fin.castSucc_lt_last task).ne (Fin.succ_injective _ h)
  have first : swapped 0 = place' := by
    rw [← isLast]
    exact congrArg order (Equiv.swap_apply_left _ _)
  have last : swapped (Fin.last (n + 2)) = place := by
    rw [← isFirst]
    exact congrArg order (Equiv.swap_apply_right _ _)
  have exchanged := (same order).trans (same swapped).symm
  rw [reduce_ofFn, reduce_ofFn, Option.some.injEq, isFirst, isLast, first, last] at exchanged
  simp only [between] at exchanged
  exact eq_of_exchange (by simp) exchanged

theorem exists_reduce_ofFn (positive : 0 < threadCount) (f : Fin threadCount → Chromosome geneCount) :
    ∃ c, reduce (List.ofFn f) = some c := by
  cases listed : List.ofFn f with
  | nil =>
      have length := congrArg List.length listed
      rw [List.length_ofFn, List.length_nil] at length
      exact absurd length positive.ne'
  | cons first rest => exact ⟨_, rfl⟩

/-- Two tasks are averaged in either order. -/
theorem reduce_two (order : Equiv.Perm (Fin 2)) :
    reduce (List.ofFn fun task => evolveChromosome (randomSeed + order task)) =
      some (average (evolveChromosome (randomSeed + (0 : Fin 2)))
        (evolveChromosome (randomSeed + (1 : Fin 2)))) := by
  have other : order 1 = 1 - order 0 := by
    have different : order 1 ≠ order 0 := fun same => absurd (order.injective same) (by decide)
    generalize order 0 = x at different
    generalize order 1 = y at different
    fin_cases x <;> fin_cases y <;> first | rfl | exact absurd rfl different
  rw [reduce_ofFn]
  show some (average (evolveChromosome (randomSeed + order 0))
    (evolveChromosome (randomSeed + order 1))) = _
  rw [other]
  generalize order 0 = x
  fin_cases x
  · rfl
  · exact congrArg some (average_comm _ _)

/-- A repetition is independent of the schedule if and only if there are at most two tasks or the chromosomes
that evolve from the seeds are all equal. -/
theorem runRepetition_stable_iff (positive : 0 < threadCount) :
    Stable evolveChromosome threadCount randomSeed ↔
      threadCount ≤ 2 ∨ ∀ i j : Fin threadCount,
        evolveChromosome (randomSeed + i) = evolveChromosome (randomSeed + j) := by
  constructor
  · intro stable
    rcases Nat.lt_or_ge 2 threadCount with more | few
    · obtain ⟨n, rfl⟩ := Nat.exists_eq_add_of_le' more
      exact .inr fun i j => evolved_eq_of_stable stable i j
    · exact .inl few
  · rintro (few | equal)
    · obtain rfl | rfl : threadCount = 1 ∨ threadCount = 2 := by omega
      · obtain ⟨c, single⟩ := exists_reduce_ofFn positive fun task : Fin 1 =>
          evolveChromosome (randomSeed + task)
        refine stable_iff.mpr ⟨c, fun order => ?_⟩
        rw [← single, Subsingleton.elim order (Equiv.refl _)]
        rfl
      · exact stable_iff.mpr ⟨_, reduce_two⟩
    · obtain ⟨c, inOrder⟩ := exists_reduce_ofFn positive fun task =>
        evolveChromosome (randomSeed + task)
      refine stable_iff.mpr ⟨c, fun order => ?_⟩
      rw [← inOrder, funext fun task => equal (order task) task]

end Average

/-- An evolution that shows the seed in both genes. -/
def ramp (seed : ℤ) : Chromosome 2 :=
  fun _ => seed

theorem runRepetition_stable_iff_three :
    Stable ramp 3 1 ↔ 3 ≤ 2 ∨ ∀ i j : Fin 3, ramp (1 + i) = ramp (1 + j) :=
  runRepetition_stable_iff (by decide)

/-- The seeds 1, 2 and 3, drawn in this order and in the reverse one. -/
theorem not_stable_ramp : ¬ Stable ramp 3 1 := by
  intro stable
  have equal := congrFun (evolved_eq_of_stable stable 0 1) 0
  exact absurd equal (by decide +kernel)

end Renaissance.JavaJenetics
