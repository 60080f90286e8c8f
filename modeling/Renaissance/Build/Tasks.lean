import Mathlib.Data.List.Basic
import Mathlib.Logic.Function.Iterate

/-!
# Collecting tasks

`collect` and `collectSequentially` make one task of a sequence of tasks. Both take the sequence apart with
the patterns of a list, which no other sequence matches unless it is empty.

`collect_and_collectSequentially_iff` says for which sequences this succeeds.
-/

namespace Renaissance.Tasks

/-- Which classes of sequences are lists, and what class the parts of a sequence have. -/
structure SeqClasses (κ : Type) where
  isList : κ → Bool
  part : κ → κ
  part_isList : ∀ c, isList c → isList (part c)

structure Seq (κ τ : Type) where
  seqClass : κ
  elements : List τ

def Seq.splitAt {κ τ : Type} (classes : SeqClasses κ) (n : ℕ) (tasks : Seq κ τ) :
    Seq κ τ × Seq κ τ :=
  let part := classes.part tasks.seqClass
  (⟨part, tasks.elements.take n⟩, ⟨part, tasks.elements.drop n⟩)

inductive MatchError
  | matchError

/-- A task that depends on tasks `τ` with results `α`. A run says what it depended on, and the result. -/
@[ext] structure Initialize (τ α β : Type) where
  run : (τ → α) → Except MatchError (List τ × β)

namespace Initialize

variable {τ α β : Type}

instance : Monad (Initialize τ α) where
  pure result := ⟨fun _ => .ok ([], result)⟩
  bind task next := ⟨fun results => do
    let (before, result) ← task.run results
    let (after, result') ← (next result).run results
    .ok (before ++ after, result')⟩

def value (task : τ) : Initialize τ α α :=
  ⟨fun results => .ok ([task], results task)⟩

/-- A task that is built when it is run. -/
def taskDyn (built : Except MatchError (Initialize τ α β)) : Initialize τ α β :=
  ⟨fun results => do (← built).run results⟩

end Initialize

open Initialize

section Collect

variable {κ τ α : Type} (classes : SeqClasses κ)

/-- The calls may be nested to some depth. -/
def collect : ℕ → Seq κ τ → Option (Initialize τ α (List α))
  | 0, _ => none
  | depth + 1, tasks =>
      match tasks.elements, classes.isList tasks.seqClass with
      | [], _ => some (pure [])
      | [x], true => some do
          pure [← value x]
      | [x, y], true => some do
          pure ([← value x] ++ [← value y])
      | [x, y, z], true => some do
          pure ([← value x] ++ [← value y] ++ [← value z])
      | _, _ => do
          let (xs, ys) := tasks.splitAt classes (tasks.elements.length / 2)
          let first ← collect depth xs
          let second ← collect depth ys
          some do pure ((← first) ++ (← second))

/-- The rest of a list is a list again. -/
def collectSequentially (seqClass : κ) : List τ → Except MatchError (Initialize τ α (List α))
  | [] => .ok (pure [])
  | x :: xs =>
      if classes.isList seqClass then .ok do
        let first ← value x
        taskDyn do
          let rest ← collectSequentially seqClass xs
          pure ((first :: ·) <$> rest)
      else .error .matchError

end Collect

/-! ## What is collected -/

variable {κ τ α : Type} {classes : SeqClasses κ} {tasks : Seq κ τ}

/-- The task depends on every task once and has all results in order. -/
def Collects (task : Initialize τ α (List α)) (elements : List τ) : Prop :=
  ∀ results, task.run results = .ok (elements, elements.map results)

def collected (elements : List τ) : Initialize τ α (List α) :=
  ⟨fun results => .ok (elements, elements.map results)⟩

theorem collects_collected (elements : List τ) :
    Collects (collected elements : Initialize τ α (List α)) elements :=
  fun _ => rfl

def append (first second : Initialize τ α (List α)) : Initialize τ α (List α) := do
  pure ((← first) ++ (← second))

theorem append_collected (first second : List τ) :
    append (collected first) (collected second) =
      (collected (first ++ second) : Initialize τ α (List α)) := by
  ext results
  simp [append, collected, bind, pure, Except.bind]

theorem value_collected (x : τ) (rest : List τ) :
    (do
      let first ← value x
      taskDyn (pure ((first :: ·) <$> collected rest))) =
      (collected (x :: rest) : Initialize τ α (List α)) := by
  ext results
  simp [value, taskDyn, collected, bind, pure, Except.bind, Functor.map, Except.pure]

theorem collectSequentially_eq {c : κ} (list : classes.isList c) (elements : List τ) :
    collectSequentially classes c elements =
      .ok (collected elements : Initialize τ α (List α)) := by
  induction elements with
  | nil => rfl
  | cons x xs ih =>
      rw [collectSequentially, if_pos list, ih, ← value_collected]
      rfl

/-- The halves of a sequence, which are collected first. -/
def halves (classes : SeqClasses κ) (tasks : Seq κ τ) : Seq κ τ × Seq κ τ :=
  tasks.splitAt classes (tasks.elements.length / 2)

/-- A sequence is a special case or is split. -/
theorem collect_succ (classes : SeqClasses κ) (depth : ℕ) (tasks : Seq κ τ) :
    (tasks.elements = [] ∨ classes.isList tasks.seqClass) ∧
        collect classes (depth + 1) tasks =
          some (collected tasks.elements : Initialize τ α (List α)) ∨
      tasks.elements ≠ [] ∧ (classes.isList tasks.seqClass → 2 ≤ tasks.elements.length) ∧
        collect classes (depth + 1) tasks =
          (collect classes depth (halves classes tasks).1).bind fun first =>
            (collect classes depth (halves classes tasks).2).bind fun second =>
              some (append first second : Initialize τ α (List α)) := by
  rw [collect]
  split
  · next empty => exact .inl ⟨.inl empty, by rw [empty]; rfl⟩
  · next x single list => exact .inl ⟨.inr list, by rw [single]; rfl⟩
  · next x y pair list => exact .inl ⟨.inr list, by rw [pair]; rfl⟩
  · next x y z triple list => exact .inl ⟨.inr list, by rw [triple]; rfl⟩
  · next nonempty single _ _ =>
    refine .inr ⟨nonempty, fun list => ?_, rfl⟩
    match elements : tasks.elements with
    | [] => exact absurd elements nonempty
    | [x] => exact (single x elements list).elim
    | x :: y :: rest => exact Nat.le_add_left 2 rest.length

theorem halves_append (classes : SeqClasses κ) (tasks : Seq κ τ) :
    (halves classes tasks).1.elements ++ (halves classes tasks).2.elements = tasks.elements :=
  List.take_append_drop _ _

theorem collect_eq (depth d : ℕ) (reaches : classes.isList (classes.part^[d] tasks.seqClass))
    (enough : d + tasks.elements.length < depth) :
    collect classes depth tasks = some (collected tasks.elements : Initialize τ α (List α)) := by
  induction depth generalizing d tasks with
  | zero => exact absurd enough (Nat.not_lt_zero _)
  | succ depth ih =>
      rcases collect_succ (α := α) classes depth tasks with ⟨-, special⟩ | ⟨nonempty, long, split⟩
      · exact special
      · -- The parts are shorter than a list, and nearer to lists than another sequence.
        obtain ⟨d', reaches', first, second⟩ : ∃ d',
            classes.isList (classes.part^[d'] (classes.part tasks.seqClass)) ∧
              d' + (halves classes tasks).1.elements.length < depth ∧
              d' + (halves classes tasks).2.elements.length < depth := by
          simp only [halves, Seq.splitAt, List.length_take, List.length_drop]
          cases d with
          | zero =>
              have several := long reaches
              exact ⟨0, classes.part_isList _ reaches, by omega, by omega⟩
          | succ d => exact ⟨d, reaches, by omega, by omega⟩
        rw [split, ih d' reaches' first, ih d' reaches' second, Option.bind_some, Option.bind_some,
          append_collected, halves_append]

theorem collect_of_empty (empty : tasks.elements = []) (depth : ℕ) :
    collect classes (depth + 1) tasks =
      some (collected tasks.elements : Initialize τ α (List α)) := by
  rcases collect_succ (α := α) classes depth tasks with ⟨-, special⟩ | ⟨nonempty, -, -⟩
  · exact special
  · exact absurd empty nonempty

theorem collect_eq_none (other : ∀ d, ¬classes.isList (classes.part^[d] tasks.seqClass))
    (nonempty : tasks.elements ≠ []) (depth : ℕ) :
    (collect classes depth tasks : Option (Initialize τ α (List α))) = none := by
  induction depth generalizing tasks with
  | zero => rfl
  | succ depth ih =>
      rcases collect_succ (α := α) classes depth tasks with ⟨special, -⟩ | ⟨-, -, split⟩
      · rcases special with empty | list
        · exact absurd empty nonempty
        · exact absurd list (other 0)
      · -- The second half is not shorter than the first one, so it is not empty.
        have rest : (halves classes tasks).2.elements ≠ [] := by
          have positive := List.length_pos_of_ne_nil nonempty
          rw [← List.length_pos_iff, halves, Seq.splitAt, List.length_drop]
          omega
        have second : collect classes depth (halves classes tasks).2 = none :=
          ih (fun d => other (d + 1)) rest
        rw [split, second]
        simp only [Option.bind_none, Option.bind_fun_none]

/-- Every sequence that is empty is collected. Another one is collected by `collectSequentially` exactly if
it is a list, and by `collect` exactly if splitting it comes to lists. -/
theorem collect_and_collectSequentially_iff (classes : SeqClasses κ) (tasks : Seq κ τ) :
    ((∃ task : Initialize τ α (List α),
        (∃ enough, ∀ depth ≥ enough, collect classes depth tasks = some task) ∧
          Collects task tasks.elements) ↔
      tasks.elements = [] ∨ ∃ d, classes.isList (classes.part^[d] tasks.seqClass)) ∧
    ((∃ task : Initialize τ α (List α),
        collectSequentially classes tasks.seqClass tasks.elements = .ok task ∧
          Collects task tasks.elements) ↔
      tasks.elements = [] ∨ classes.isList tasks.seqClass) := by
  refine ⟨⟨?_, fun matched => ⟨collected tasks.elements, ?_, collects_collected _⟩⟩,
    ⟨?_, fun matched => ⟨collected tasks.elements, ?_, collects_collected _⟩⟩⟩
  · rintro ⟨task, ⟨enough, collects⟩, -⟩
    by_contra fails
    obtain ⟨nonempty, other⟩ := not_or.mp fails
    have endless := collect_eq_none (α := α) (not_exists.mp other) nonempty enough
    rw [collects enough (Nat.le_refl enough)] at endless
    cases endless
  · rcases matched with empty | ⟨d, reaches⟩
    · refine ⟨1, fun depth enough => ?_⟩
      rw [← Nat.sub_add_cancel enough]
      exact collect_of_empty empty _
    · exact ⟨d + tasks.elements.length + 1, fun depth enough => collect_eq depth d reaches enough⟩
  · rintro ⟨task, built, -⟩
    obtain ⟨c, elements⟩ := tasks
    cases elements with
    | nil => exact .inl rfl
    | cons x xs =>
        rw [collectSequentially] at built
        split at built
        · next list => exact .inr list
        · cases built
  · rcases matched with empty | list
    · rw [empty]
      rfl
    · exact collectSequentially_eq list tasks.elements

/-- Classes of sequences that the library has. -/
inductive StandardClass
  | list
  | vector
  | wrappedArray
  deriving DecidableEq

def standard : SeqClasses StandardClass where
  isList c := c = .list
  part c := c
  part_isList _ list := list

theorem vector_not_collected :
    ¬∀ tasks : Seq StandardClass ℕ,
      (∃ task : Initialize ℕ ℕ (List ℕ),
        (∃ enough, ∀ depth ≥ enough, collect standard depth tasks = some task) ∧
          Collects task tasks.elements) ∧
      ∃ task : Initialize ℕ ℕ (List ℕ),
        collectSequentially standard tasks.seqClass tasks.elements = .ok task ∧
          Collects task tasks.elements := by
  intro all
  obtain ⟨-, task, built, -⟩ := all ⟨.vector, [0]⟩
  cases built

end Renaissance.Tasks
