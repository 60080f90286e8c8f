import Renaissance.Lib.Fallible
import Renaissance.ScalaSat.FormulaSolver

/-!
# Sudokus and the SAT solver

`solveWithCafeSat` is `Solver.solve` of the benchmark together with the solver that it calls. It completes every
board that has a completion (`solveWithCafeSat_returns`): all of the variables that it asks the model for have a
value there.
-/

namespace Renaissance.ScalaDoku

open JavaCollections
open CafeSat (Literal Model solveForSatisfiability solveForSatisfiability_answers)
open CafeSat.Formula (Everywhere Proper Occurs)
open Propositional (Formula)

variable {model : ℕ → Bool} {sudoku : List (List (Option Int))}

mutual

/-- The formula that the operators of `cafesat.api` build. -/
def build : Formula ℕ → CafeSat.Formula ℕ
  | .var v => .var v
  | .not f => .not (build f)
  | .or fs => .or (buildAll fs)
  | .and fs => .and (buildAll fs)

def buildAll : List (Formula ℕ) → List (CafeSat.Formula ℕ)
  | [] => []
  | f :: fs => build f :: buildAll fs

end

/-- `vs.indexWhere(v => model(v))`, from an index on. A variable that is not in the model throws. -/
def indexInModel (model : Model ℕ) : ℕ → List ℕ → Option Int
  | _, [] => some (-1)
  | i, v :: vs => do
      if ← model.lookup v then some i
      else indexInModel model (i + 1) vs

def decodeModel (model : Model ℕ) : Option (List (List Int)) :=
  (upTo 0 8).mapM fun r => (upTo 0 8).mapM fun c =>
    (indexInModel model 0 ((upTo 0 8).map (vars r c))).map (· + 1)

def solveWithCafeSat (litOrder : IterationOrder ℕ) (clauseOrder : IterationOrder (List Literal)) (fuel : ℕ)
    (sudoku : List (List (Option Int))) : Except String (Option (List (List Int))) :=
  if sudoku.length = 9 ∧ ∀ row ∈ sudoku, row.length = 9 then do
    let forcedEntries ← forcedEntries sudoku
    let allConstraints := onePerEntry ++ uniqueInColumns ++ uniqueInRows ++ uniqueInGrid1 ++
      uniqueInGrid2 ++ forcedEntries
    match solveForSatisfiability litOrder clauseOrder fuel (build (.and allConstraints)) with
    | none => .error "sys.error"
    | some none => .ok none
    | some (some model) =>
        match decodeModel model with
        | none => .error "NoSuchElementException"
        | some grid => .ok (some grid)
  else
    .error "requirement failed"

section Build

theorem buildAll_eq {fs : List (Formula ℕ)} : buildAll fs = fs.map build := by
  induction fs with
  | nil => rw [buildAll, List.map_nil]
  | cons f fs ih => rw [buildAll, List.map_cons, ih]

mutual

theorem eval_build (f : Formula ℕ) : (build f).eval model = f.eval model := by
  cases f with
  | var v => rw [build, CafeSat.Formula.eval_var, Formula.eval]
  | not f => rw [build, CafeSat.Formula.eval_not, Formula.eval, eval_build f]
  | or fs => rw [build, CafeSat.Formula.eval_or, Formula.eval, any_buildAll fs]
  | and fs => rw [build, CafeSat.Formula.eval_and, Formula.eval, all_buildAll fs]

theorem any_buildAll (fs : List (Formula ℕ)) :
    (buildAll fs).any (CafeSat.Formula.eval model) = Formula.evalAny model fs := by
  cases fs with
  | nil => rw [buildAll, List.any_nil, Formula.evalAny]
  | cons f fs => rw [buildAll, List.any_cons, Formula.evalAny, eval_build f, any_buildAll fs]

theorem all_buildAll (fs : List (Formula ℕ)) :
    (buildAll fs).all (CafeSat.Formula.eval model) = Formula.evalAll model fs := by
  cases fs with
  | nil => rw [buildAll, List.all_nil, Formula.evalAll]
  | cons f fs => rw [buildAll, List.all_cons, Formula.evalAll, eval_build f, all_buildAll fs]

end

mutual

theorem noIf_build (f : Formula ℕ) : Everywhere (fun g => g.isIfThenElse = false) (build f) := by
  cases f with
  | var v =>
      rw [build]
      exact .intro rfl (List.forall_mem_nil _)
  | not f =>
      rw [build]
      exact CafeSat.Formula.everywhere_not.mpr ⟨rfl, noIf_build f⟩
  | or fs =>
      rw [build]
      exact CafeSat.Formula.everywhere_or.mpr ⟨rfl, noIf_buildAll fs⟩
  | and fs =>
      rw [build]
      exact CafeSat.Formula.everywhere_and.mpr ⟨rfl, noIf_buildAll fs⟩

theorem noIf_buildAll (fs : List (Formula ℕ)) :
    ∀ f ∈ buildAll fs, Everywhere (fun g => g.isIfThenElse = false) f := by
  cases fs with
  | nil =>
      rw [buildAll]
      exact List.forall_mem_nil _
  | cons f fs =>
      rw [buildAll]
      exact List.forall_mem_cons.mpr ⟨noIf_build f, noIf_buildAll fs⟩

end

/-- A disjunction of variables and negated variables. -/
def IsClause (f : Formula ℕ) : Prop :=
  ∃ gs, f = .or gs ∧ gs ≠ [] ∧ ∀ g ∈ gs, ∃ v, g = .var v ∨ g = .not (.var v)

theorem isClause_notBoth {r c k r' c' k' : ℕ} : IsClause (notBoth (propVar r c k) (propVar r' c' k')) :=
  ⟨_, rfl, List.cons_ne_nil _ _, List.forall_mem_cons.mpr
    ⟨⟨_, .inr rfl⟩, List.forall_mem_singleton.mpr ⟨_, .inr rfl⟩⟩⟩

theorem isClause_constraints : ∀ f ∈ constraints sudoku, IsClause f := by
  have slot : ∀ r c, IsClause (.or ((upTo 0 8).map (propVar r c))) := fun r c =>
    ⟨_, rfl, by simp [upTo], List.forall_mem_map.mpr fun k _ => ⟨_, .inl rfl⟩⟩
  have forced : ∀ r c k, IsClause (.or [propVar r c k]) := fun r c k =>
    ⟨_, rfl, List.cons_ne_nil _ _, List.forall_mem_singleton.mpr ⟨_, .inl rfl⟩⟩
  simp only [constraints, onePerEntry, uniqueInColumns, uniqueInRows, uniqueInGrid1, uniqueInGrid2,
    List.forall_mem_append, List.forall_mem_flatMap, List.forall_mem_map, isClause_notBoth, slot, forced,
    implies_true, and_self]

theorem proper_build {f : Formula ℕ} (isClause : IsClause f) : Everywhere Proper (build f) := by
  obtain ⟨gs, rfl, some, literals⟩ := isClause
  rw [build, buildAll_eq, CafeSat.Formula.everywhere_or, CafeSat.Formula.proper_or]
  refine ⟨by simpa using some, List.forall_mem_map.mpr fun g member => ?_⟩
  have variable' : ∀ v : ℕ, Everywhere Proper (CafeSat.Formula.var v) := fun v =>
    .intro ⟨rfl, nofun, nofun⟩ (List.forall_mem_nil _)
  obtain ⟨v, rfl | rfl⟩ := literals g member
  · rw [build]
    exact variable' v
  · rw [build, build]
    exact CafeSat.Formula.everywhere_not.mpr ⟨CafeSat.Formula.proper_not, variable' v⟩

theorem slot_mem_constraints {r c : ℕ} (hr : r ≤ 8) (hc : c ≤ 8) :
    Formula.or ((upTo 0 8).map (propVar r c)) ∈ constraints sudoku := by
  simp only [constraints, onePerEntry, List.mem_append, List.mem_flatMap, List.mem_map, mem_upTo]
  exact .inl (.inl (.inl (.inl (.inl ⟨r, ⟨Nat.zero_le _, hr⟩, c, ⟨Nat.zero_le _, hc⟩, rfl⟩))))

theorem proper_constraints : Everywhere Proper (build (.and (constraints sudoku))) := by
  rw [build, buildAll_eq, CafeSat.Formula.everywhere_and, CafeSat.Formula.proper_and]
  refine ⟨?_, List.forall_mem_map.mpr fun f member => proper_build (isClause_constraints f member)⟩
  exact List.ne_nil_of_mem (List.mem_map_of_mem (slot_mem_constraints (Nat.zero_le 8) (Nat.zero_le 8)))

theorem occurs_constraints {r c k : ℕ} (hr : r ≤ 8) (hc : c ≤ 8) (hk : k ≤ 8) :
    Occurs (vars r c k) (build (.and (constraints sudoku))) := by
  intro absent
  rw [build, buildAll_eq, CafeSat.Formula.everywhere_and] at absent
  have absent := absent.2 _ (List.mem_map_of_mem (slot_mem_constraints hr hc))
  rw [build, buildAll_eq, CafeSat.Formula.everywhere_or] at absent
  have literal : propVar r c k ∈ (upTo 0 8).map (propVar r c) :=
    List.mem_map_of_mem (mem_upTo.mpr ⟨Nat.zero_le _, hk⟩)
  have absent := absent.2 _ (List.mem_map_of_mem literal)
  rw [propVar, build] at absent
  exact (CafeSat.Formula.everywhere_iff.mp absent).1 rfl

end Build

section Decode

variable {read : Model ℕ}

/-- The values of the model. -/
def valueOf (read : Model ℕ) (v : ℕ) : Bool :=
  (read.lookup v).getD false

theorem indexInModel_eq {vs : List ℕ} (known : ∀ v ∈ vs, ∃ value, read.lookup v = some value) (i : ℕ) :
    indexInModel read i vs = some (match vs.findIdx? (valueOf read) with
      | some j => (i + j : ℕ)
      | none => -1) := by
  induction vs generalizing i with
  | nil => rfl
  | cons v vs ih =>
      obtain ⟨⟨value, here⟩, there⟩ := List.forall_mem_cons.mp known
      have same : valueOf read v = value := by rw [valueOf, here, Option.getD_some]
      cases value with
      | true => simp [indexInModel, here, List.findIdx?_cons, same]
      | false =>
          simp only [indexInModel, here, List.findIdx?_cons, same, Option.bind_eq_bind, Option.bind_some,
            Bool.false_eq_true, if_false, ih there]
          cases vs.findIdx? (valueOf read) with
          | none => rfl
          | some j => simp [Nat.add_assoc, Nat.add_comm 1 j]

theorem decodeModel_eq
    (known : ∀ r c k, r ≤ 8 → c ≤ 8 → k ≤ 8 → ∃ value, read.lookup (vars r c k) = some value) :
    decodeModel read = some (decode (valueOf read)) := by
  refine Fallible.mapM_some fun r inRows => Fallible.mapM_some fun c inRow => ?_
  have slot : ∀ v ∈ (upTo 0 8).map (vars r c), ∃ value, read.lookup v = some value :=
    List.forall_mem_map.mpr fun k digit => known r c k (mem_upTo.mp inRows).2 (mem_upTo.mp inRow).2
      (mem_upTo.mp digit).2
  rw [indexInModel_eq slot, Option.map_some, indexWhere]
  cases ((upTo 0 8).map (vars r c)).findIdx? (valueOf read) <;> simp

end Decode

theorem solveWithCafeSat_eq (litOrder : IterationOrder ℕ) (clauseOrder : IterationOrder (List Literal))
    (fuel : ℕ)
    (board : Board sudoku) {answer : Option (Model ℕ)}
    (result :
      solveForSatisfiability litOrder clauseOrder fuel (build (.and (constraints sudoku))) = some answer)
    (known : ∀ read ∈ answer, ∀ r c k, r ≤ 8 → c ≤ 8 → k ≤ 8 → ∃ value, read.lookup (vars r c k) = some value) :
    solveWithCafeSat litOrder clauseOrder fuel sudoku = .ok (answer.map fun read => decode (valueOf read)) := by
  rw [constraints] at result
  rw [solveWithCafeSat, if_pos ⟨board.rows, board.columns⟩, board.forcedEntries_eq]
  simp only [bind, Except.bind, result]
  cases answer with
  | none => rfl
  | some read => simp only [decodeModel_eq (known read rfl), Option.map_some]

/-- With enough rounds the solver completes a board that has a completion, and says so of one that has none. -/
theorem solveWithCafeSat_returns (litOrder : IterationOrder ℕ) (clauseOrder : IterationOrder (List Literal))
    (board : Board sudoku) : ∃ enough, ∀ fuel ≥ enough,
      (∃ grid, solveWithCafeSat litOrder clauseOrder fuel sudoku = .ok (some grid) ∧ Completes sudoku grid) ∨
      (solveWithCafeSat litOrder clauseOrder fuel sudoku = .ok none ∧ ∀ grid, ¬ Completes sudoku grid) := by
  refine ⟨CafeSat.Solver.rounds (build (.and (constraints sudoku))).weight 0, fun fuel enough => ?_⟩
  obtain ⟨answer, result, answered⟩ := solveForSatisfiability_answers litOrder clauseOrder (noIf_build _) enough
  cases answer with
  | some read =>
      have holds := answered.1 (valueOf read) fun v value found => by rw [valueOf, found, Option.getD_some]
      rw [eval_build] at holds
      refine .inl ⟨_, solveWithCafeSat_eq litOrder clauseOrder fuel board result ?_,
        (eval_constraints.mp holds).completes board⟩
      rintro _ ⟨rfl⟩ r c k hr hc hk
      exact answered.2 proper_constraints _ (occurs_constraints hr hc hk)
  | none =>
      refine .inr ⟨solveWithCafeSat_eq litOrder clauseOrder fuel board result nofun, fun grid completes => ?_⟩
      have holds := eval_constraints.mpr (completes.encodes board)
      rw [← eval_build, answered] at holds
      cases holds

theorem solveWithCafeSat_returns_puzzle : ∃ enough, ∀ fuel ≥ enough,
    (∃ grid, solveWithCafeSat (.insertion _) (.insertion _) fuel puzzle = .ok (some grid) ∧
      Completes puzzle grid) ∨
    (solveWithCafeSat (.insertion _) (.insertion _) fuel puzzle = .ok none ∧
      ∀ grid, ¬ Completes puzzle grid) :=
  solveWithCafeSat_returns _ _ board_puzzle

end Renaissance.ScalaDoku
