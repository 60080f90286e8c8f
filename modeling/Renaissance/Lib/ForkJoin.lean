import Mathlib.Data.Finset.Lattice.Basic
import Mathlib.Order.Interval.Finset.Nat
import Renaissance.Lib.Transition

/-!
# Recursive tasks

A task for a part of the work either computes its result directly or forks two subtasks, joins them
and combines their results. `step` takes one step of any task, so that a schedule is an order in which
the subtasks may be executed. Results may contain new objects, whose names are counted.

* `right_of_reachable`: if the direct results are right, and so are combinations of right
  results with different names, then what comes out is right in every order of execution;
* `invoke_finishes`: if a fork costs less than it is worth, every execution comes to a result;
* `Range`: a range that is split in the middle, and what `RangedTask` forks.
-/

namespace ForkJoin

open Transition

/-- Tasks for parts `ρ` with results `ν`. The draw `δ` is what happens inside of a direct computation. -/
structure Code (ρ ν δ : Type) where
  forks : ρ → Option (ρ × ρ)
  direct : δ → ρ → ℕ → Option (ν × ℕ)
  combine : ν → ν → ν

/-- A part that is forked. -/
def Code.Subtask {ρ ν δ : Type} (code : Code ρ ν δ) (child parent : ρ) : Prop :=
  ∃ first second, code.forks parent = some (first, second) ∧ (child = first ∨ child = second)

/-- A task with its subtasks. -/
inductive Task (ρ ν : Type)
  | compute (part : ρ)
  | join (left right : Task ρ ν)
  | done (result : ν)

/-- What happens, at some place in the tree. -/
inductive TaskStep (δ : Type)
  | fork
  | compute (draw : δ)
  | combine
  | left (action : TaskStep δ)
  | right (action : TaskStep δ)

variable {ρ ν δ : Type} (code : Code ρ ν δ)

/-- One step of a task, with the number of the next new object. -/
def step : TaskStep δ → Task ρ ν × ℕ → Option (Task ρ ν × ℕ)
  | .fork, (.compute part, next) =>
      (code.forks part).map fun parts => (.join (.compute parts.1) (.compute parts.2), next)
  | .compute draw, (.compute part, next) =>
      if code.forks part = none then
        (code.direct draw part next).map fun found => (.done found.1, found.2)
      else none
  | .combine, (.join (.done a) (.done b), next) => some (.done (code.combine a b), next)
  | .left action, (.join a b, next) =>
      (step action (a, next)).map fun moved => (.join moved.1 b, moved.2)
  | .right action, (.join a b, next) =>
      (step action (b, next)).map fun moved => (.join a moved.1, moved.2)
  | _, _ => none

/-- `invoke`: the result and the number of the next new object after some execution. -/
def Invokes (part : ρ) (next : ℕ) (result : ν) (next' : ℕ) : Prop :=
  Reachable (step code) (.compute part, next) (.done result, next')

/-- What a step can do. -/
inductive Moves (code : Code ρ ν δ) : Task ρ ν → ℕ → Task ρ ν → ℕ → Prop
  | fork {part first second : ρ} {next : ℕ} : code.forks part = some (first, second) →
      Moves code (.compute part) next (.join (.compute first) (.compute second)) next
  | direct {part : ρ} {draw : δ} {result : ν} {next next' : ℕ} : code.forks part = none →
      code.direct draw part next = some (result, next') →
      Moves code (.compute part) next (.done result) next'
  | combine {a b : ν} {next : ℕ} :
      Moves code (.join (.done a) (.done b)) next (.done (code.combine a b)) next
  | left {a b a' : Task ρ ν} {next next' : ℕ} : Moves code a next a' next' →
      Moves code (.join a b) next (.join a' b) next'
  | right {a b b' : Task ρ ν} {next next' : ℕ} : Moves code b next b' next' →
      Moves code (.join a b) next (.join a b') next'

variable {code}

theorem step_moves {action : TaskStep δ} {task task' : Task ρ ν} {next next' : ℕ}
    (moves : step code action (task, next) = some (task', next')) : Moves code task next task' next' := by
  -- the action says on which side of a join the step is, and so do the rules
  induction action generalizing task task' with
  | fork =>
      cases task with
      | compute part =>
          obtain ⟨⟨first, second⟩, forks, same⟩ := Option.map_eq_some_iff.mp moves
          obtain ⟨rfl, rfl⟩ := Prod.mk.inj same
          exact .fork forks
      | _ => cases moves
  | compute draw =>
      cases task with
      | compute part =>
          rw [step, Option.ite_none_right_eq_some] at moves
          obtain ⟨forks, computes⟩ := moves
          obtain ⟨found, computed, same⟩ := Option.map_eq_some_iff.mp computes
          obtain ⟨rfl, rfl⟩ := Prod.mk.inj same
          exact .direct forks computed
      | _ => cases moves
  | combine =>
      cases task with
      | join a b =>
          cases a with
          | done a =>
              cases b with
              | done b =>
                  obtain ⟨rfl, rfl⟩ := Prod.mk.inj (Option.some.inj moves)
                  exact .combine
              | _ => cases moves
          | _ => cases moves
      | _ => cases moves
  | left action ih =>
      cases task with
      | join a b =>
          obtain ⟨moved, inside, same⟩ := Option.map_eq_some_iff.mp moves
          obtain ⟨rfl, rfl⟩ := Prod.mk.inj same
          exact .left (ih inside)
      | _ => cases moves
  | right action ih =>
      cases task with
      | join a b =>
          obtain ⟨moved, inside, same⟩ := Option.map_eq_some_iff.mp moves
          obtain ⟨rfl, rfl⟩ := Prod.mk.inj same
          exact .right (ih inside)
      | _ => cases moves

section Right

-- `Right part result names`: the result is right and contains the new objects with these names
variable (code) (Right : ρ → ν → Finset ℕ → Prop)

/-- The results so far are right, and no object belongs to two of them. -/
inductive Fits : Task ρ ν → ρ → Finset ℕ → Prop
  | compute (part : ρ) : Fits (.compute part) part ∅
  | done {part : ρ} {result : ν} {names : Finset ℕ} : Right part result names →
      Fits (.done result) part names
  | join {part first second : ρ} {a b : Task ρ ν} {names names' : Finset ℕ} :
      code.forks part = some (first, second) → Fits a first names → Fits b second names' →
      Disjoint names names' → Fits (.join a b) part (names ∪ names')

/-- Direct results are right, with new objects only. -/
def DirectRight : Prop :=
  ∀ draw part next result next', code.forks part = none →
    code.direct draw part next = some (result, next') →
    next ≤ next' ∧ ∃ names ⊆ Finset.Ico next next', Right part result names

/-- Right results of subtasks are combined to a right result. -/
def CombineRight : Prop :=
  ∀ part first second a b names names', code.forks part = some (first, second) →
    Right first a names → Right second b names' → Disjoint names names' →
    Right part (code.combine a b) (names ∪ names')

variable {code Right}

/-- New objects do not belong to another result. -/
theorem disjoint_of_new {names names' others news : Finset ℕ} {next next' : ℕ}
    (apart : Disjoint names others) (old : others ⊆ Finset.range next)
    (new : news ⊆ Finset.Ico next next') (sub : names' ⊆ names ∪ news) : Disjoint names' others := by
  refine Disjoint.mono_left sub (Finset.disjoint_union_left.mpr ⟨apart, ?_⟩)
  refine Finset.disjoint_left.mpr fun name isNew isOld => ?_
  have late := (Finset.mem_Ico.mp (new isNew)).1
  have early := Finset.mem_range.mp (old isOld)
  omega

/-- A step keeps what is right, and adds new objects only. -/
theorem Moves.fits (direct : DirectRight code Right) (combine : CombineRight code Right)
    {task task' : Task ρ ν} {next next' : ℕ} (moves : Moves code task next task' next') {part : ρ}
    {names : Finset ℕ} (fits : Fits code Right task part names) (old : names ⊆ Finset.range next) :
    next ≤ next' ∧ ∃ news ⊆ Finset.Ico next next', ∃ names' ⊆ names ∪ news,
      Fits code Right task' part names' := by
  induction moves generalizing part names with
  | fork forks =>
      cases fits with
      | compute =>
          refine ⟨le_refl _, ∅, Finset.empty_subset _, ∅, Finset.empty_subset _, ?_⟩
          have joined : Fits code Right _ _ (∅ ∪ ∅) :=
            .join forks (.compute _) (.compute _) (Finset.disjoint_empty_left _)
          rwa [Finset.empty_union] at joined
  | direct forks computed =>
      cases fits with
      | compute =>
          obtain ⟨later, news, new, right⟩ := direct _ _ _ _ _ forks computed
          exact ⟨later, news, new, news, Finset.subset_union_right, .done right⟩
  | combine =>
      cases fits with
      | join forks fits fits' apart =>
          cases fits with
          | done right =>
              cases fits' with
              | done right' =>
                  refine ⟨le_refl _, ∅, Finset.empty_subset _, _, Finset.subset_union_left, .done ?_⟩
                  exact combine _ _ _ _ _ _ _ forks right right' apart
  | left _ ih =>
      cases fits with
      | join forks fits fits' apart =>
          obtain ⟨old, old'⟩ := Finset.union_subset_iff.mp old
          obtain ⟨later, news, new, names, sub, fits⟩ := ih fits old
          refine ⟨later, news, new, _, ?_,
            .join forks fits fits' (disjoint_of_new apart old' new sub)⟩
          rw [Finset.union_right_comm]
          exact Finset.union_subset_union_left sub
  | right _ ih =>
      cases fits with
      | join forks fits fits' apart =>
          obtain ⟨old, old'⟩ := Finset.union_subset_iff.mp old
          obtain ⟨later, news, new, names, sub, fits'⟩ := ih fits' old'
          refine ⟨later, news, new, _, ?_,
            .join forks fits fits' (disjoint_of_new apart.symm old new sub).symm⟩
          rw [Finset.union_assoc]
          exact Finset.union_subset_union_right sub

variable (Right) in
/-- Whatever the order of execution, the result is right and its objects are new. -/
theorem right_of_reachable (direct : DirectRight code Right) (combine : CombineRight code Right)
    {part : ρ} {next next' : ℕ} {result : ν} (invokes : Invokes code part next result next') :
    next ≤ next' ∧ ∃ names ⊆ Finset.Ico next next', Right part result names := by
  have kept := invokes.invariant
    (I := fun state => next ≤ state.2 ∧ ∃ names ⊆ Finset.Ico next state.2,
      Fits code Right state.1 part names)
    ⟨le_refl _, ∅, Finset.empty_subset _, .compute part⟩ ?_
  · obtain ⟨later, names, new, fits⟩ := kept
    cases fits with
    | done right => exact ⟨later, names, new, right⟩
  · rintro action ⟨task, now⟩ ⟨task', now'⟩ ⟨later, names, new, fits⟩ moves
    have old : names ⊆ Finset.range now := fun name mem =>
      Finset.mem_range.mpr (Finset.mem_Ico.mp (new mem)).2
    obtain ⟨later', news, new', names', sub, fits'⟩ := (step_moves moves).fits direct combine fits old
    refine ⟨later.trans later', names', fun name mem => ?_, fits'⟩
    rw [Finset.mem_Ico]
    rcases Finset.mem_union.mp (sub mem) with mem | mem
    · have bounds := Finset.mem_Ico.mp (new mem)
      exact ⟨bounds.1, bounds.2.trans_le later'⟩
    · have bounds := Finset.mem_Ico.mp (new' mem)
      exact ⟨later.trans bounds.1, bounds.2⟩

/-- The same for results without new objects. -/
theorem result_of_reachable (P : ρ → ν → Prop)
    (direct : ∀ draw part next result next', code.forks part = none →
      code.direct draw part next = some (result, next') → next ≤ next' ∧ P part result)
    (combine : ∀ part first second a b, code.forks part = some (first, second) → P first a →
      P second b → P part (code.combine a b))
    {part : ρ} {next next' : ℕ} {result : ν} (invokes : Invokes code part next result next') :
    P part result := by
  have computed : DirectRight code fun part result names => names = ∅ ∧ P part result := by
    intro draw part next result next' forks computed
    obtain ⟨later, right⟩ := direct draw part next result next' forks computed
    exact ⟨later, ∅, Finset.empty_subset _, rfl, right⟩
  have combined : CombineRight code fun part result names => names = ∅ ∧ P part result := by
    rintro part first second a b - - forks ⟨rfl, right⟩ ⟨rfl, right'⟩ -
    exact ⟨Finset.union_empty ∅, combine part first second a b forks right right'⟩
  obtain ⟨-, names, -, right⟩ := right_of_reachable _ computed combined invokes
  exact right.2

end Right

section Finish

variable {Valid : ρ → Prop} {cost : ρ → ℕ}

/-- The steps that are left. -/
def load (cost : ρ → ℕ) : Task ρ ν → ℕ
  | .compute part => cost part
  | .join a b => load cost a + load cost b + 1
  | .done _ => 0

/-- All parts that are still to be computed are valid. -/
def Sound (Valid : ρ → Prop) : Task ρ ν → Prop
  | .compute part => Valid part
  | .join a b => Sound Valid a ∧ Sound Valid b
  | .done _ => True

/-- A fork costs less than it is worth. -/
structure Shrinks (code : Code ρ ν δ) (Valid : ρ → Prop) (cost : ρ → ℕ) : Prop where
  valid : ∀ part first second, Valid part → code.forks part = some (first, second) →
    Valid first ∧ Valid second ∧ cost first + cost second + 2 ≤ cost part
  positive : ∀ part, Valid part → 0 < cost part

theorem Moves.load_lt (shrinks : Shrinks code Valid cost) {task task' : Task ρ ν} {next next' : ℕ}
    (moves : Moves code task next task' next') (sound : Sound Valid task) :
    Sound Valid task' ∧ load cost task' < load cost task := by
  induction moves with
  | fork forks =>
      obtain ⟨first, second, less⟩ := shrinks.valid _ _ _ sound forks
      refine ⟨⟨first, second⟩, ?_⟩
      simp only [load]
      omega
  | direct _ _ => exact ⟨trivial, shrinks.positive _ sound⟩
  | combine => exact ⟨trivial, Nat.succ_pos _⟩
  | left _ ih =>
      obtain ⟨sound', less⟩ := ih sound.1
      refine ⟨⟨sound', sound.2⟩, ?_⟩
      simp only [load]
      omega
  | right _ ih =>
      obtain ⟨sound', less⟩ := ih sound.2
      refine ⟨⟨sound.1, sound'⟩, ?_⟩
      simp only [load]
      omega

/-- A task that is not done can move. -/
theorem exists_step (computes : ∀ part next, Valid part → code.forks part = none →
      ∃ draw found, code.direct draw part next = some found) (next : ℕ) :
    ∀ task : Task ρ ν, Sound Valid task → (∃ result, task = .done result) ∨
      ∃ action moved, step code action (task, next) = some moved
  | .compute part, sound => by
      cases forks : code.forks part with
      | some parts => exact .inr ⟨.fork, _, by rw [step, forks]; rfl⟩
      | none =>
          obtain ⟨draw, found, computed⟩ := computes part next sound forks
          exact .inr ⟨.compute draw, _, by rw [step, if_pos forks, computed]; rfl⟩
  | .done result, _ => .inl ⟨result, rfl⟩
  | .join a b, sound => by
      rcases exists_step computes next a sound.1 with ⟨x, rfl⟩ | ⟨action, moved, moves⟩
      · rcases exists_step computes next b sound.2 with ⟨y, rfl⟩ | ⟨action, moved, moves⟩
        · exact .inr ⟨.combine, _, rfl⟩
        · exact .inr ⟨.right action, _, by rw [step, moves]; rfl⟩
      · exact .inr ⟨.left action, _, by rw [step, moves]; rfl⟩

/-- Every execution comes to a result. -/
theorem invoke_finishes (shrinks : Shrinks code Valid cost)
    (computes : ∀ part next, Valid part → code.forks part = none →
      ∃ draw found, code.direct draw part next = some found) {part : ρ} (valid : Valid part)
    (next : ℕ) :
    Inevitable (step code) (fun state => ∃ result, state.1 = .done result) (.compute part, next) := by
  refine inevitable_of_measure (I := fun state : Task ρ ν × ℕ => Sound Valid state.1)
    (fun state => load cost state.1) ?_ ?_ ?_ valid
  · rintro action ⟨task, now⟩ ⟨task', now'⟩ sound moves
    exact ((step_moves moves).load_lt shrinks sound).1
  · rintro ⟨task, now⟩ sound unfinished
    exact (exists_step computes now task sound).resolve_left unfinished
  · rintro action ⟨task, now⟩ ⟨task', now'⟩ sound moves
    exact ((step_moves moves).load_lt shrinks sound).2

/-- There is an execution, so there is a result. -/
theorem exists_invokes (shrinks : Shrinks code Valid cost)
    (computes : ∀ part next, Valid part → code.forks part = none →
      ∃ draw found, code.direct draw part next = some found) {part : ρ} (valid : Valid part)
    (next : ℕ) : ∃ result next', Invokes code part next result next' := by
  obtain ⟨⟨task, next'⟩, reachable, result, rfl⟩ :=
    (invoke_finishes shrinks computes valid next).reachable
  exact ⟨result, next', reachable⟩

end Finish

/-! ## Ranges -/

/-- A range of indices. -/
structure Range where
  fromInclusive : ℕ
  toExclusive : ℕ
  ordered : fromInclusive ≤ toExclusive

namespace Range

def taskSize (range : Range) : ℕ :=
  range.toExclusive - range.fromInclusive

def middle (range : Range) : ℕ :=
  range.fromInclusive + range.taskSize / 2

theorem le_middle (range : Range) : range.fromInclusive ≤ range.middle :=
  Nat.le_add_right _ _

theorem middle_le (range : Range) : range.middle ≤ range.toExclusive := by
  have ordered := range.ordered
  unfold middle taskSize
  omega

def leftHalf (range : Range) : Range :=
  ⟨range.fromInclusive, range.middle, range.le_middle⟩

def rightHalf (range : Range) : Range :=
  ⟨range.middle, range.toExclusive, range.middle_le⟩

/-- The subtasks of a range, unless it is smaller than the threshold. -/
def forks (forkThreshold : ℤ) (range : Range) : Option (Range × Range) :=
  if (range.taskSize : ℤ) < forkThreshold then none else some (range.leftHalf, range.rightHalf)

/-- The elements of a range in a list. -/
def slice {α : Type} (range : Range) (xs : List α) : List α :=
  (xs.drop range.fromInclusive).take range.taskSize

/-- The range of a whole list. -/
def whole {α : Type} (xs : List α) : Range :=
  ⟨0, xs.length, Nat.zero_le _⟩

variable {range first second : Range} {forkThreshold : ℤ}

theorem forks_eq_some (forked : range.forks forkThreshold = some (first, second)) :
    forkThreshold ≤ range.taskSize ∧ first = range.leftHalf ∧ second = range.rightHalf := by
  unfold forks at forked
  split at forked
  · cases forked
  · next large =>
    obtain ⟨rfl, rfl⟩ := Prod.mk.inj (Option.some.inj forked)
    exact ⟨not_lt.mp large, rfl, rfl⟩

theorem taskSize_halves (range : Range) :
    range.leftHalf.taskSize = range.taskSize / 2 ∧
      range.leftHalf.taskSize + range.rightHalf.taskSize = range.taskSize := by
  have ordered := range.ordered
  unfold leftHalf rightHalf middle taskSize
  dsimp only
  omega

/-- The elements of both halves are those of the range, in their order. -/
theorem slice_halves {α : Type} (range : Range) (xs : List α) :
    range.leftHalf.slice xs ++ range.rightHalf.slice xs = range.slice xs := by
  obtain ⟨half, sum⟩ := range.taskSize_halves
  have right : range.rightHalf.fromInclusive = range.fromInclusive + range.leftHalf.taskSize := by
    rw [half]
    rfl
  unfold slice
  rw [right, ← List.drop_drop, ← sum, List.take_add]
  rfl

@[simp] theorem slice_whole {α : Type} (xs : List α) : (whole xs).slice xs = xs := by
  simp [slice, whole, taskSize]

/-- The steps that a task for a range takes. -/
def cost (range : Range) : ℕ :=
  max 1 (3 * range.taskSize - 2)

/-- From the threshold 2 on, both halves are smaller than the range. -/
theorem shrinks {ν δ : Type} {code : Code Range ν δ} (two : 2 ≤ forkThreshold)
    (forked : code.forks = forks forkThreshold) {limit : ℕ} :
    Shrinks code (fun range => range.toExclusive ≤ limit) cost where
  valid range first second inside parts := by
    obtain ⟨large, rfl, rfl⟩ := forks_eq_some (forked ▸ parts)
    obtain ⟨half, sum⟩ := range.taskSize_halves
    have middle := range.middle_le
    refine ⟨middle.trans inside, inside, ?_⟩
    unfold cost
    omega
  positive range _ := by
    unfold cost
    omega

variable {ν δ : Type} {code : Code Range ν δ}

theorem subtask_lt (two : 2 ≤ forkThreshold) (forked : code.forks = forks forkThreshold)
    {child parent : Range} (sub : code.Subtask child parent) : child.taskSize < parent.taskSize := by
  obtain ⟨first, second, parts, half⟩ := sub
  obtain ⟨large, rfl, rfl⟩ := forks_eq_some (forked ▸ parts)
  obtain ⟨left, sum⟩ := parent.taskSize_halves
  rcases half with rfl | rfl
  · omega
  · omega

/-- The right half of one element is the same range again. -/
theorem subtask_self (one : forkThreshold ≤ 1) (forked : code.forks = forks forkThreshold)
    (single : range.taskSize = 1) : code.Subtask range range := by
  have middle : range.middle = range.fromInclusive := by
    rw [Range.middle, single]
    rfl
  refine ⟨range.leftHalf, range.rightHalf, ?_, .inr ?_⟩
  · rw [forked, forks, single, Nat.cast_one, if_neg (not_lt.mpr one)]
  · rw [rightHalf]
    simp only [middle]

/-- Below the threshold 2, a result of anything but an empty range is never reached. -/
theorem taskSize_of_invokes (one : forkThreshold ≤ 1) (forked : code.forks = forks forkThreshold)
    {next next' : ℕ} {result : ν} (invokes : Invokes code range next result next')
    (later : ∀ draw part next result next', code.direct draw part next = some (result, next') →
      next ≤ next') : range.taskSize = 0 := by
  refine result_of_reachable (fun part _ => part.taskSize = 0) ?_ ?_ invokes
  · intro draw part next result next' whole computed
    refine ⟨later _ _ _ _ _ computed, ?_⟩
    rw [forked, forks, ite_eq_left_iff] at whole
    by_contra some'
    exact absurd (whole (by omega)) (Option.some_ne_none _)
  · intro part first second a b parts left right
    obtain ⟨-, rfl, rfl⟩ := forks_eq_some (forked ▸ parts)
    obtain ⟨-, sum⟩ := part.taskSize_halves
    rw [← sum, left, right]

end Range

end ForkJoin
