import Renaissance.JdkConcurrent.JavaKMeans

/-!
# The fork threshold of the k-means tasks

The threshold of the tasks for vectors is computed from the dimension, with 32-bit numbers.

`tasks_terminate_iff` says for which dimensions the recursion of all tasks ends.
-/

namespace Renaissance.JavaKMeans

open JavaCollections JavaInt ForkJoin

/-- `Double.BYTES`. -/
def doubleBytes : ℤ := 8

/-- `Long.BYTES`. -/
def longBytes : ℤ := 8

/-- `Integer.BYTES`. -/
def integerBytes : ℤ := 4

def forkThreshold (dimension sizeLimit : ℤ) : Option ℤ :=
  let doubleSize := int (8 + doubleBytes)
  let pointerSize := longBytes
  let arraySize := int (int (8 + integerBytes) + int (dimension * pointerSize))
  let elementSize := int (arraySize + int (dimension * doubleSize))
  JavaInt.div sizeLimit (int (elementSize + pointerSize))

/-- The argument in the constructor. -/
def sizeLimit : ℤ := (256 / 2) * 1024

/-- Every subtask is smaller, and there is no infinite descent. -/
structure Terminates {ν δ : Type} (code : Code Range ν δ) : Prop where
  smaller : ∀ child parent, code.Subtask child parent → child.taskSize < parent.taskSize
  ends : ∀ range, Acc code.Subtask range

/-- The tasks of a `JavaKMeans` for the dimension. -/
def TasksTerminate (dimension : ℕ) : Prop :=
  ∃ threshold, forkThreshold dimension sizeLimit = some threshold ∧
    ∀ (order : IterationOrder (Vec dimension × List (Vec dimension)))
      (data centroids : List (Vec dimension)) (clusters : List (List (Vec dimension))),
      Terminates (assignmentTask centroids order threshold data) ∧
      Terminates (updateTask threshold order clusters) ∧
      Terminates (vectorSumTask threshold data)

/-! ## The recursion -/

theorem terminates {ν δ : Type} {code : Code Range ν δ} {threshold : ℤ} (two : 2 ≤ threshold)
    (forked : code.forks = Range.forks threshold) : Terminates code := by
  have smaller : ∀ child parent, code.Subtask child parent → child.taskSize < parent.taskSize :=
    fun _ _ sub => Range.subtask_lt two forked sub
  refine ⟨smaller, fun range => ?_⟩
  exact Subrelation.accessible (smaller _ _) ((measure Range.taskSize).wf.apply range)

theorem not_terminates {ν δ : Type} {code : Code Range ν δ} {threshold : ℤ} (one : threshold ≤ 1)
    (forked : code.forks = Range.forks threshold) : ¬ Terminates code := by
  intro terminates
  have single : Range.taskSize ⟨0, 1, Nat.zero_le _⟩ = 1 := rfl
  exact lt_irrefl _ (terminates.smaller _ _ (Range.subtask_self one forked single))

/-- The update tasks have a threshold of their own. -/
theorem tasksTerminate_iff_two_le {dimension : ℕ} {threshold : ℤ}
    (computed : forkThreshold dimension sizeLimit = some threshold) :
    TasksTerminate dimension ↔ 2 ≤ threshold := by
  constructor
  · rintro ⟨threshold', computed', each⟩
    obtain rfl := Option.some.inj (computed.symm.trans computed')
    by_contra small
    have sums := (each (.insertion _) [] [] []).2.2
    exact not_terminates (by omega) rfl sums
  · intro two
    exact ⟨threshold, computed, fun order data centroids clusters =>
      ⟨terminates two rfl, terminates (le_refl 2) rfl, terminates two rfl⟩⟩

/-! ## The threshold -/

theorem elementSize_eq (dimension : ℤ) :
    forkThreshold dimension sizeLimit = JavaInt.div 131072 (int (24 * dimension + 20)) := by
  have sizes : int (int (int (12 + int (dimension * 8)) + int (dimension * 16)) + 8) =
      int (24 * dimension + 20) := by
    unfold int
    rw [wrap_wrap_add, add_right_comm, wrap_add_wrap, add_right_comm, add_assoc, wrap_wrap_add,
      add_right_comm, wrap_add_wrap]
    congr 1
    omega
  unfold forkThreshold
  exact congrArg (JavaInt.div 131072) sizes

/-- The size of an element is a multiple of 4, but not of 8. -/
theorem elementSize_cases (dimension : ℕ) :
    ((24 * dimension + 20) % 2 ^ 32 ≤ 65536 ∧ 1 ≤ int (24 * dimension + 20) ∧
      int (24 * dimension + 20) ≤ 65536) ∨
    (65536 < (24 * dimension + 20) % 2 ^ 32 ∧
      (65536 < int (24 * dimension + 20) ∨ int (24 * dimension + 20) < 0)) := by
  have cast : (24 * dimension + 20 : ℤ) = ((24 * dimension + 20 : ℕ) : ℤ) := by push_cast; rfl
  have four : (24 * dimension + 20) % 8 = 4 := by omega
  rw [cast, int, wrap, Int.bmod_def]
  generalize 24 * dimension + 20 = size at four
  split
  · omega
  · omega

theorem div_eq {size : ℤ} (nonzero : size ≠ 0) :
    JavaInt.div 131072 size = some ((131072 : ℤ).tdiv size) := by
  have bound : ((131072 : ℤ).tdiv size).natAbs ≤ 131072 := by
    rw [Int.natAbs_tdiv]
    exact Nat.div_le_self _ _
  rw [JavaInt.div, if_neg nonzero, int_eq_self (by omega) (by omega)]

/-- The quotient is 2 or more up to half of the limit. -/
theorem two_le_tdiv_iff {size : ℤ} (positive : 0 < size) :
    2 ≤ (131072 : ℤ).tdiv size ↔ size ≤ 65536 := by
  rw [Int.tdiv_eq_ediv_of_nonneg (by decide), Int.le_ediv_iff_mul_le positive]
  omega

theorem forkThreshold_computed (dimension : ℕ) :
    ∃ threshold, forkThreshold dimension sizeLimit = some threshold ∧
      (2 ≤ threshold ↔ (24 * dimension + 20) % 2 ^ 32 ≤ 65536) := by
  rw [elementSize_eq]
  rcases elementSize_cases dimension with ⟨few, positive, small⟩ | ⟨many, large | negative⟩
  · exact ⟨_, div_eq (by omega), by rw [two_le_tdiv_iff positive]; exact iff_of_true small few⟩
  · refine ⟨_, div_eq (by omega), ?_⟩
    rw [two_le_tdiv_iff (by omega)]
    exact iff_of_false (not_le.mpr large) (not_le.mpr many)
  · refine ⟨_, div_eq (by omega), iff_of_false ?_ (not_le.mpr many)⟩
    have quotient : (131072 : ℤ).tdiv (int (24 * dimension + 20)) ≤ 0 :=
      Int.tdiv_nonpos_of_nonneg_of_nonpos (by decide) negative.le
    omega

/-- The recursion ends if two elements of the dimension fit into the limit, in 32-bit numbers. -/
theorem tasks_terminate_iff (dimension : ℕ) :
    TasksTerminate dimension ↔ (24 * dimension + 20) % 2 ^ 32 ≤ 65536 := by
  obtain ⟨threshold, computed, two⟩ := forkThreshold_computed dimension
  rw [tasksTerminate_iff_two_le computed, two]

/-- The smallest dimension with the threshold 1. -/
theorem dimension_2730_not_terminates : ¬ TasksTerminate 2730 := by
  have computed : forkThreshold (2730 : ℕ) sizeLimit = some 1 := by decide
  rw [tasksTerminate_iff_two_le computed]
  decide

/-- For all other dimensions there is no result for any data in any order of execution. -/
theorem assignmentTask_never_done {dimension : ℕ} (many : 65536 < (24 * dimension + 20) % 2 ^ 32)
    {threshold : ℤ} (computed : forkThreshold dimension sizeLimit = some threshold)
    (order : IterationOrder (Vec dimension × List (Vec dimension)))
    {data : List (Vec dimension)} (some' : data ≠ []) (centroids : List (Vec dimension))
    {next next' : ℕ} {result : Clusters dimension} :
    ¬ Invokes (assignmentTask centroids order threshold data) (Range.whole data) next result next' := by
  intro invokes
  obtain ⟨threshold', computed', two⟩ := forkThreshold_computed dimension
  obtain rfl := Option.some.inj (computed.symm.trans computed')
  have empty : data.length = 0 := by
    refine Range.taskSize_of_invokes (by omega) rfl invokes ?_
    intro draw part next result next' computes
    obtain ⟨found, -, same⟩ := Option.map_eq_some_iff.mp computes
    exact (Prod.mk.inj same).2.le
  exact some' (List.length_eq_zero_iff.mp empty)

end Renaissance.JavaKMeans
