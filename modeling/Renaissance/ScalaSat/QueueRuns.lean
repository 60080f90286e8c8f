import Renaissance.ScalaSat.QueueOperations

/-!
# Runs of the priority queue

The callers see a set of numbers with scores. `maxima_of_run`: in every run from a new queue, what
`deleteMax` returns has the largest score of the numbers that are in the queue at that time.

`rescaleScores` does not reach the last position, so it is not one of the operations of these runs.
`rescaleScores_ordered_iff` says when it keeps the order.
-/

namespace Renaissance.CafeSat.FixedIntDoublePriorityQueue

open JavaDouble BinaryHeap

variable {q : FixedIntDoublePriorityQueue} {C : Set ℕ} {g : ℕ → ℚ} {i el : ℕ} {score : ℚ}

theorem siftLast_ordered (ordered : Ordered q.heapScores q.size) (hi : i ∈ Set.Icc 1 q.size)
    (notLast : q.size ≠ i) : Ordered (siftLast q i).heapScores (q.size - 1) := by
  have ⟨positive, inside⟩ := hi
  have shorter := ordered.mono (Nat.sub_le q.size 1)
  have others : ∀ k, 1 ≤ k → k ≤ q.size - 1 → k ≠ i → ((beforeSift q i).put i (q.heapScores q.size)
      (q.heapElements q.size)).heapScores k = q.heapScores k := by
    intro k low high other
    rw [heapScores_put_other other]
    exact Function.update_of_ne (by omega) _ _
  have parent : (beforeSift q i).heapScores (i / 2) =
      if i = 1 then q.heapScores 1 else q.heapScores (i / 2) := by
    simp only [beforeSift, Function.update_apply]
    split_ifs <;> first | rfl | omega | simp_all
  unfold siftLast
  split
  next rises =>
    refine siftUpFrom_ordered positive (by omega) (shorter.rising others ?_)
    rw [heapScores_put_self]
    rw [parent] at rises
    by_cases root : i = 1
    · subst root
      exact (if_pos rfl ▸ rises).le
    · rw [if_neg root] at rises
      exact (ordered i (by omega) inside).trans rises.le
  next stays =>
    refine siftDownFrom_ordered positive (shorter.sinking others fun several => ?_)
    rw [heapScores_put_self]
    rw [parent, if_neg (show i ≠ 1 by omega)] at stays
    exact not_lt.mp stays

theorem deleteMax_ordered (some : q.size ≠ 0) (ordered : Ordered q.heapScores q.size) :
    Ordered q.deleteMax.1.heapScores (q.size - 1) := by
  by_cases single : q.size = 1
  · intro i low high
    omega
  · rw [deleteMax_eq some single]
    have shorter := ordered.mono (Nat.sub_le q.size 1)
    refine siftDownFrom_ordered (le_refl 1) (shorter.sinking (fun k low high other => ?_) fun several => ?_)
    · have notLast : k ≠ q.size := by omega
      have notZero : k ≠ 0 := by omega
      rw [heapScores_put_other other]
      simp only [beforeSiftDown, Function.update_of_ne notLast, Function.update_of_ne notZero]
    · omega

theorem deleteMax_size (some : q.size ≠ 0) : q.deleteMax.1.size = q.size - 1 := by
  by_cases single : q.size = 1
  · simp [deleteMax, single]
  · rw [deleteMax_eq some single, siftDownFrom_size]
    rfl

theorem insert_ordered (represents : Represents q C g) (inside : el < q.maxSize)
    (ordered : Ordered q.heapScores q.size) : Ordered (q.insert el).heapScores (q.insert el).size := by
  by_cases member : el ∈ C
  · have position := (represents.index_iff inside).mpr member
    have same : q.insert el = q := by
      simp only [insert]
      rw [if_neg (by omega), if_neg (by omega)]
    rw [same]
    exact ordered
  · obtain ⟨position, here⟩ := represents.rest.element el ⟨inside, member⟩
    obtain ⟨low, high⟩ := position
    rcases (Nat.succ_le_of_lt low).eq_or_lt with next | behind
    · rw [Nat.succ_eq_add_one] at next
      rw [← next] at here
      rw [insert_eq_next next.symm here, siftUpFrom_size]
      refine siftUpFrom_ordered (by omega) (le_refl _) (ordered.rising_last fun k low high => ?_)
      exact heapScores_put_other (by omega)
    · rw [Nat.succ_eq_add_one] at behind
      rw [insert_eq_behind represents inside member behind]
      have up : Ordered ((beforeSiftUp q el).siftUpFrom (g el) el (q.size + 1)).heapScores (q.size + 1) := by
        refine siftUpFrom_ordered (by omega) (le_refl _) (ordered.rising_last fun k low high => ?_)
        rw [heapScores_put_other (by omega)]
        exact Function.update_of_ne (by omega) _ _
      have size : ((beforeSiftUp q el).siftUpFrom (g el) el (q.size + 1)).size = q.size + 1 :=
        siftUpFrom_size _ _ _ _
      rw [size_put, size]
      exact up.congr fun k low high => heapScores_put_other (by omega)

theorem incScore_ordered (represents : Represents q C g) (inside : el < q.maxSize) {offset : ℚ}
    (nonneg : 0 ≤ offset) (larger : g el ≤ double (g el + offset)) (ordered : Ordered q.heapScores q.size)
    {q' : FixedIntDoublePriorityQueue} (result : q.incScore el offset = some (q', score)) :
    Ordered q'.heapScores q'.size := by
  simp only [incScore, nonneg, if_true] at result
  by_cases member : el ∈ C
  · have position := (represents.index_iff inside).mpr member
    obtain ⟨within, here⟩ := represents.heap.element el member
    have value := (represents.heap.position _ within).2.2
    rw [here] at value
    simp only [position, if_true, siftUp, here, value, Option.some.injEq, Prod.mk.injEq] at result
    obtain ⟨rfl, rfl⟩ := result
    rw [siftUpFrom_size]
    refine siftUpFrom_ordered within.1 within.2 (ordered.rising (fun k low high other => ?_) ?_)
    · exact heapScores_put_other other
    · rw [heapScores_put_self, value]
      exact larger
  · have position := (not_congr (represents.index_iff inside)).mpr member
    simp only [position, if_false, Option.some.injEq, Prod.mk.injEq] at result
    obtain ⟨rfl, rfl⟩ := result
    exact ordered.congr fun k low high => Function.update_of_ne (by omega) _ _

theorem remove_ordered (represents : Represents q C g) (member : el ∈ C)
    (ordered : Ordered q.heapScores q.size) {q' : FixedIntDoublePriorityQueue}
    (result : q.remove el = some q') : Ordered q'.heapScores q'.size := by
  have ⟨position, here⟩ := represents.heap.element el member
  have ⟨low, high⟩ := position
  by_cases last : q.index el = q.size
  · simp only [remove, last, lt_irrefl, if_false, if_true, Option.some.injEq] at result
    subst result
    exact ordered.mono (Nat.sub_le _ _)
  · have up := siftLast_ordered ordered position (Ne.symm last)
    have size : (siftLast q (q.index el)).size = q.size - 1 :=
      (siftLast_stored represents position (Ne.symm last)).1.size
    rw [remove_eq (by omega) high last, Option.some.injEq] at result
    subst result
    rw [size_put, size]
    exact up.congr fun k low high => heapScores_put_other (by omega)

inductive Call
  | incScore (el : ℕ) (offset : ℚ)
  | insert (el : ℕ)
  | remove (el : ℕ)
  | deleteMax

/-- The queue after a call, and the element that it returns. -/
def call (q : FixedIntDoublePriorityQueue) : Call → Option (FixedIntDoublePriorityQueue × Option ℕ)
  | .incScore el offset => (q.incScore el offset).map fun result => (result.1, none)
  | .insert el => some (q.insert el, none)
  | .remove el => (q.remove el).map fun q' => (q', none)
  | .deleteMax => some (q.deleteMax.1, some q.deleteMax.2)

/-- The elements are within the range, and `deleteMax` is not called on an empty queue. -/
def Usable (q : FixedIntDoublePriorityQueue) : Call → Prop
  | .incScore el _ | .insert el | .remove el => el < q.maxSize
  | .deleteMax => q.isEmpty = false

abbrev History :=
  List (Call × Option ℕ)

/-- The last call comes first. -/
inductive Run (maxSize : ℕ) : History → FixedIntDoublePriorityQueue → Prop
  | new : Run maxSize [] (initial maxSize)
  | call {history : History} {q q' : FixedIntDoublePriorityQueue} {c : Call} {out : Option ℕ} :
      Run maxSize history q → Usable q c → q.call c = some (q', out) → Run maxSize ((c, out) :: history) q'

/-- The numbers that were put into the queue and not taken out of it since. -/
def inQueue (maxSize : ℕ) : History → Set ℕ
  | [] => {el | el < maxSize}
  | (.incScore _ _, _) :: history => inQueue maxSize history
  | (.insert el, _) :: history => inQueue maxSize history ∪ {el}
  | (.remove el, _) :: history => inQueue maxSize history \ {el}
  | (.deleteMax, out) :: history => inQueue maxSize history \ {el | out = some el}

/-- The sum of the increments of each number, in or out of the queue. -/
def scores : History → ℕ → ℚ
  | [] => fun _ => 0
  | (.incScore el offset, _) :: history =>
      Function.update (scores history) el (double (scores history el + offset))
  | _ :: history => scores history

theorem scores_isDouble (history : History) (el : ℕ) : IsDouble (scores history el) := by
  induction history with
  | nil => exact isDouble_zero
  | cons step history ih =>
      obtain ⟨c, out⟩ := step
      cases c with
      | incScore other offset =>
          by_cases same : el = other
          · subst same
            simp only [scores, Function.update_self]
            exact isDouble_double
          · simp only [scores, Function.update_of_ne same]
            exact ih
      | insert | remove | deleteMax => exact ih

/-- The queue is what its history says, and it is in order. -/
structure Good (maxSize : ℕ) (history : History) (q : FixedIntDoublePriorityQueue) : Prop where
  limit : q.maxSize = maxSize
  represents : Represents q (inQueue maxSize history) (scores history)
  ordered : Ordered q.heapScores q.size
  nonneg : ∀ el, 0 ≤ scores history el

theorem Good.call {maxSize : ℕ} {history : History} {q q' : FixedIntDoublePriorityQueue} {c : Call}
    {out : Option ℕ} (good : Good maxSize history q) (usable : Usable q c)
    (result : q.call c = some (q', out)) : Good maxSize ((c, out) :: history) q' := by
  obtain ⟨limit, represents, ordered, nonneg⟩ := good
  cases c with
  | incScore el offset =>
      -- `incScore` requires that the offset is not negative.
      have positive : 0 ≤ offset := by
        by_contra negative
        simp [FixedIntDoublePriorityQueue.call, incScore, negative] at result
      obtain ⟨q'', computed, same, represents'⟩ := incScore_represents represents usable positive
      have larger := (scores_isDouble history el).le_double (add_nonneg (nonneg el) positive)
        (le_add_of_nonneg_right positive)
      have ordered' := incScore_ordered represents usable positive larger ordered computed
      simp only [FixedIntDoublePriorityQueue.call, computed, Option.map_some, Option.some.injEq,
        Prod.mk.injEq] at result
      obtain ⟨rfl, rfl⟩ := result
      refine ⟨same.trans limit, represents', ordered', fun other => ?_⟩
      by_cases isEl : other = el
      · subst isEl
        simp only [scores, Function.update_self]
        exact (nonneg other).trans larger
      · simp only [scores, Function.update_of_ne isEl]
        exact nonneg other
  | insert el =>
      obtain ⟨same, represents'⟩ := insert_represents represents usable
      have ordered' := insert_ordered represents usable ordered
      simp only [FixedIntDoublePriorityQueue.call, Option.some.injEq, Prod.mk.injEq] at result
      obtain ⟨rfl, rfl⟩ := result
      exact ⟨same.trans limit, represents', ordered', nonneg⟩
  | remove el =>
      -- `remove` requires that the element is in the queue.
      have member : el ∈ inQueue maxSize history := by
        by_contra absent
        have behind := (not_congr (represents.index_iff usable)).mpr absent
        simp [FixedIntDoublePriorityQueue.call, FixedIntDoublePriorityQueue.remove, Nat.not_le.mp behind]
          at result
      obtain ⟨q'', computed, same, represents'⟩ := remove_represents represents member
      have ordered' := remove_ordered represents member ordered computed
      simp only [FixedIntDoublePriorityQueue.call, computed, Option.map_some, Option.some.injEq,
        Prod.mk.injEq] at result
      obtain ⟨rfl, rfl⟩ := result
      exact ⟨same.trans limit, represents', ordered', nonneg⟩
  | deleteMax =>
      have notEmpty : q.size ≠ 0 := by simpa [Usable, isEmpty] using usable
      obtain ⟨isMax, _, same, represents'⟩ := deleteMax_represents represents notEmpty
      have ordered' := deleteMax_ordered notEmpty ordered
      have size := deleteMax_size notEmpty
      simp only [FixedIntDoublePriorityQueue.call, Option.some.injEq, Prod.mk.injEq] at result
      obtain ⟨rfl, rfl⟩ := result
      rw [← size] at ordered'
      refine ⟨same.trans limit, ?_, ordered', nonneg⟩
      have taken : {el | some q.deleteMax.2 = some el} = {q.max} := by
        ext el
        simp [isMax, eq_comm]
      show Represents _ (inQueue maxSize history \ {el | some q.deleteMax.2 = some el}) _
      rw [taken]
      exact represents'

theorem good_of_run {maxSize : ℕ} {history : History} (run : Run maxSize history q) :
    Good maxSize history q := by
  induction run with
  | new =>
      exact ⟨rfl, initial_represents maxSize, fun i low high => le_refl _, fun el => le_refl _⟩
  | call before usable result ih => exact ih.call usable result

/-- As long as there is a number in the queue, `deleteMax` returns one with the largest score. -/
theorem maxima_of_run {maxSize : ℕ} {history : History} (run : Run maxSize history q)
    (nonempty : (inQueue maxSize history).Nonempty) :
    ∃ q' el, q.call .deleteMax = some (q', some el) ∧ Usable q .deleteMax ∧ el ∈ inQueue maxSize history ∧
      ∀ other ∈ inQueue maxSize history, scores history other ≤ scores history el := by
  obtain ⟨limit, represents, ordered, _⟩ := good_of_run run
  have notEmpty : q.isEmpty ≠ true := by
    rw [Ne, represents.isEmpty_iff]
    exact nonempty.ne_empty
  have some' : q.size ≠ 0 := by simpa [isEmpty] using notEmpty
  obtain ⟨isMax, member, _⟩ := deleteMax_represents represents some'
  refine ⟨_, q.max, by rw [FixedIntDoublePriorityQueue.call, isMax],
    by simpa [Usable] using notEmpty, member,
    fun other known => ?_⟩
  obtain ⟨inside, here⟩ := represents.heap.element other known
  have score := (represents.heap.position _ inside).2.2
  have root := (represents.heap.position 1 ⟨le_refl 1, by omega⟩).2.2
  calc scores history other = q.heapScores (q.index other) := by rw [score, here]
    _ ≤ q.heapScores 1 := ordered.le_root inside.1 inside.2
    _ = scores history q.max := root

/-- The call of `incScore` in a run. -/
theorem run_incScore {maxSize : ℕ} {history : History} (run : Run maxSize history q)
    (inside : el < maxSize) {offset : ℚ} (nonneg : 0 ≤ offset) :
    ∃ q', Run maxSize ((.incScore el offset, none) :: history) q' := by
  have good := good_of_run run
  have usable : el < q.maxSize := good.limit.symm ▸ inside
  obtain ⟨q', computed, _⟩ := incScore_represents good.represents usable nonneg
  exact ⟨q', .call run usable (by simp [FixedIntDoublePriorityQueue.call, computed])⟩

theorem maxima_of_run_two : ∃ q q', Run 2 [(.incScore 1 1, none)] q ∧
    q.call .deleteMax = some (q', some 1) := by
  obtain ⟨q, run⟩ := run_incScore (Run.new : Run 2 [] _) (show 1 < 2 by decide) (zero_le_one : (0 : ℚ) ≤ 1)
  have first : (0 : ℕ) ∈ inQueue 2 [(.incScore 1 1, none)] := Nat.zero_lt_two
  have second : (1 : ℕ) ∈ inQueue 2 [(.incScore 1 1, none)] := Nat.one_lt_two
  obtain ⟨q', el, result, _, member, largest⟩ := maxima_of_run run ⟨0, first⟩
  refine ⟨q, q', run, ?_⟩
  have inside : el < 2 := member
  rcases (show el = 0 ∨ el = 1 by omega) with rfl | rfl
  · have order := largest 1 second
    exact absurd order (by decide +kernel)
  · exact result

/-- Rescaling by a factor keeps the order unless the last position is in the heap: then its score, which
stays as it is, must not be above the rescaled one of its parent. -/
theorem rescaleScores_ordered_iff {maxSize : ℕ} {history : History} (run : Run maxSize history q)
    {factor : ℚ} (nonneg : 0 ≤ factor) :
    Ordered (q.rescaleScores factor).heapScores (q.rescaleScores factor).size ↔
      (2 ≤ q.size → q.size = q.maxSize →
        q.heapScores q.size ≤ double (q.heapScores (q.size / 2) * factor)) := by
  obtain ⟨limit, represents, ordered, positive⟩ := good_of_run run
  have size_le := represents.size_le
  -- The loop stops before `maxSize`, which is the last position.
  have scaled : ∀ i, i < q.maxSize → (q.rescaleScores factor).heapScores i =
      double (q.heapScores i * factor) := fun i inside => if_pos inside
  constructor
  · intro rescaled several full
    have last := rescaled q.size several (le_refl _)
    rw [scaled (q.size / 2) (by omega)] at last
    have unscaled : (q.rescaleScores factor).heapScores q.size = q.heapScores q.size :=
      if_neg (by omega)
    rwa [unscaled] at last
  · intro last i low high
    have high : i ≤ q.size := high
    rcases (high.trans size_le).lt_or_eq with inside | isLast
    · have ⟨_, _, score⟩ := represents.heap.position i ⟨by omega, high⟩
      rw [scaled i inside, scaled (i / 2) (by omega)]
      refine double_mono (mul_nonneg (score ▸ positive _) nonneg) ?_
      exact mul_le_mul_of_nonneg_right (ordered i low high) nonneg
    · have full : q.size = q.maxSize := by omega
      have isSize : i = q.size := by omega
      subst isSize
      rw [scaled (q.size / 2) (by omega)]
      have unscaled : (q.rescaleScores factor).heapScores q.size = q.heapScores q.size :=
        if_neg (by omega)
      rw [unscaled]
      exact last low full

theorem rescaleScores_ordered_iff_two : ∃ q, Run 2 [(.incScore 1 1, none), (.incScore 0 1, none)] q ∧
    ¬ Ordered (q.rescaleScores (1 / 2)).heapScores (q.rescaleScores (1 / 2)).size := by
  obtain ⟨q₁, run₁⟩ := run_incScore (Run.new : Run 2 [] _) (show 0 < 2 by decide) (zero_le_one : (0 : ℚ) ≤ 1)
  obtain ⟨q, run⟩ := run_incScore run₁ (show 1 < 2 by decide) (zero_le_one : (0 : ℚ) ≤ 1)
  refine ⟨q, run, ?_⟩
  obtain ⟨limit, represents, _, _⟩ := good_of_run run
  have ⟨⟨low₀, high₀⟩, here₀⟩ := represents.heap.element 0 Nat.zero_lt_two
  have ⟨⟨low₁, high₁⟩, here₁⟩ := represents.heap.element 1 Nat.one_lt_two
  have different : q.index 0 ≠ q.index 1 := fun same => by rw [same, here₁] at here₀; omega
  have size_le := represents.size_le
  have full : q.size = 2 := by omega
  have score : ∀ i, 1 ≤ i → i ≤ 2 → q.heapScores i = 1 := by
    intro i low high
    have ⟨member, _, score⟩ := represents.heap.position i ⟨low, full ▸ high⟩
    have inside : q.heapElements i < 2 := member
    rcases (show q.heapElements i = 0 ∨ q.heapElements i = 1 by omega) with same | same <;>
      rw [score, same] <;> decide +kernel
  rw [rescaleScores_ordered_iff run (by norm_num), full, limit]
  intro bound
  have above := bound (le_refl _) rfl
  rw [score 2 (by omega) (le_refl _), score (2 / 2) (by omega) (by omega)] at above
  exact absurd above (by decide +kernel)

end Renaissance.CafeSat.FixedIntDoublePriorityQueue
