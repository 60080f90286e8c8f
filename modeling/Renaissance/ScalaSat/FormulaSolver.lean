import Renaissance.ScalaSat.ConjunctiveNormalForm
import Renaissance.ScalaSat.SudokuEncoding

/-!
# Solving formulas

`solveForSatisfiability` of `cafesat.api`: the formula is simplified, turned into clauses, and given to the
solver. `solveForSatisfiability_returns` is about all of it; the benchmark that uses it follows in
`SudokuSolver`.
-/

namespace Renaissance.CafeSat

open JavaCollections Formula

variable {ν : Type}

/-- What simplification keeps. -/
structure Kept (f g : Formula ν) : Prop where
  eval : ∀ σ, g.eval σ = f.eval σ
  weight : g.weight ≤ f.weight
  keeps : KeepsVariables f g

theorem Kept.round {f g : Formula ν} (kept : Kept f g) : Kept f (mapPostorder simplifyOne g) where
  eval σ := (eval_mapPostorder eval_simplifyOne g).trans (kept.eval σ)
  weight := by
    rcases progresses g with less | ⟨same, _⟩
    · exact less.le.trans kept.weight
    · exact (congrArg Formula.weight same).le.trans kept.weight
  keeps proper := by
    obtain ⟨proper', absent⟩ := kept.keeps proper
    obtain ⟨proper'', absent'⟩ := keepsVariables_mapPostorder g proper'
    exact ⟨proper'', fun v missing => absent v (absent' v missing)⟩

variable [DecidableEq ν]

/-- The map from the variables to their values. -/
abbrev Model (ν : Type) := List (ν × Bool)

/-- `Some(mapping.map(p => (new PropVar(p._1), model(p._2))))`. -/
def readModel (mapping : List (ν × ℕ)) (model : List Bool) : Option (Model ν) :=
  mapping.mapM fun p => model[p.2]?.map fun value => (p.1, value)

def readResult (mapping : List (ν × ℕ)) : Result → Option (Option (Model ν))
  | .satisfiable model => (readModel mapping model).map some
  | .unsatisfiable => some none
  | .unknown => none

/-- `none` is an error, `some none` an unsatisfiable formula. -/
def solveForSatisfiability (litOrder : IterationOrder ℕ) (clauseOrder : IterationOrder (List Literal))
    (fuel : ℕ)
    (f : Formula ν) : Option (Option (Model ν)) := do
  match ← simplify fuel f with
  | .true => pure (some [])
  | .false => pure none
  | _ => do
      let (clauses, nbVars, mapping) ← ConjunctiveNormalForm.apply clauseOrder (← simplify fuel f)
      let s := Solver.addClauses litOrder clauses (Solver.initial nbVars)
      let (_, solveRes) ← s.solve litOrder fuel []
      readResult mapping solveRes

/-- An assignment that agrees with the model. -/
def Agrees (σ : ν → Bool) (model : Model ν) : Prop :=
  ∀ v value, model.lookup v = some value → σ v = value

/-- What the answer to a formula should be. If there are no constants, the model has a value for each of its
variables. -/
def Answered (f : Formula ν) : Option (Model ν) → Prop
  | some model => (∀ σ, Agrees σ model → f.eval σ = true) ∧
      (Everywhere Proper f → ∀ v, Occurs v f → ∃ value, model.lookup v = some value)
  | none => ∀ σ, f.eval σ = false

section ReadModel

variable {mapping : List (ν × ℕ)} {model : List Bool}

theorem readModel_returns (inside : ∀ p ∈ mapping, p.2 < model.length) :
    ∃ read, readModel mapping model = some read ∧
      ∀ v, read.lookup v = (mapping.lookup v).map (Solver.assignment model) := by
  induction mapping with
  | nil => exact ⟨[], rfl, fun _ => rfl⟩
  | cons p mapping ih =>
      obtain ⟨here, there⟩ := List.forall_mem_cons.mp inside
      obtain ⟨read, rest, lookups⟩ := ih there
      have value : model[p.2]? = some (Solver.assignment model p.2) := by
        rw [Solver.assignment, List.getD_eq_getElem?_getD, List.getElem?_eq_getElem here, Option.getD_some]
      rw [readModel] at rest
      refine ⟨(p.1, Solver.assignment model p.2) :: read, by simp [readModel, value, rest], fun v => ?_⟩
      obtain ⟨w, r⟩ := p
      cases same : v == w <;> simp [List.lookup_cons, same, lookups]

end ReadModel

section Answers

variable {f : Formula ν} {fuel : ℕ} (litOrder : IterationOrder ℕ) (clauseOrder : IterationOrder (List Literal))

theorem rounds_mono {n m : ℕ} (le : n ≤ m) : Solver.rounds n 0 ≤ Solver.rounds m 0 := by
  unfold Solver.rounds
  have power : (n + 1) ^ (0 + n) ≤ (m + 1) ^ (0 + m) :=
    Nat.pow_le_pow_left (by omega) _ |>.trans (Nat.pow_le_pow_right (by omega) (by omega))
  have product := Nat.mul_le_mul le power
  omega

/-- The clauses of a formula that the solver can handle. -/
theorem solve_clauses {clauses : List (List Literal)} {nbVars : ℕ} {mapping : List (ν × ℕ)}
    (equisatisfiable : ConjunctiveNormalForm.Equisatisfiable f clauses nbVars mapping)
    (enough : Solver.rounds nbVars 0 ≤ fuel) :
    ∃ s' result,
      (Solver.addClauses litOrder clauses (Solver.initial nbVars)).solve litOrder fuel [] = some (s', result) ∧
      Correct nbVars clauses [] result := by
  have session := Solver.session_addClauses litOrder .new equisatisfiable.accepted
  obtain ⟨s', result, returns, _, correct⟩ := Solver.solve_returns litOrder (Solver.ready_of_session session)
    (List.forall_mem_nil _) enough
  refine ⟨s', result, returns, ?_⟩
  -- The session has the last clause first.
  have same : ∀ τ, SatisfiesAll τ (clauses.reverse ++ []) ↔ SatisfiesAll τ clauses := fun τ => by
    simp [SatisfiesAll]
  cases result with
  | satisfiable model => exact ⟨correct.1, (same _).mp correct.2.1, correct.2.2⟩
  | unsatisfiable => exact fun σ satisfies => correct σ ((same σ).mpr satisfies)
  | unknown => exact correct

theorem answered_of_correct {g : Formula ν} {clauses : List (List Literal)} {nbVars : ℕ}
    {mapping : List (ν × ℕ)}
    (kept : Kept f g) (equisatisfiable : ConjunctiveNormalForm.Equisatisfiable g clauses nbVars mapping)
    {result : Result} (correct : Correct nbVars clauses [] result) :
    ∃ answer, readResult mapping result = some answer ∧ Answered f answer := by
  cases result with
  | satisfiable model =>
      obtain ⟨read, result, lookups⟩ := readModel_returns fun p member =>
        (equisatisfiable.inside p member).trans_eq correct.1.symm
      refine ⟨some read, by rw [readResult, result, Option.map_some], fun σ agrees => ?_,
        fun proper v occurs => ?_⟩
      · rw [← kept.eval σ]
        refine equisatisfiable.sound σ _ correct.2.1 fun v r found => (agrees v _ ?_).symm
        rw [lookups, found, Option.map_some]
      -- A variable that the mapping does not know occurs neither after simplification nor before it.
      · rw [← Option.ne_none_iff_exists', lookups, Ne, Option.map_eq_none_iff]
        exact fun missing => occurs ((kept.keeps proper).2 v (equisatisfiable.occurring v missing))
  | unsatisfiable =>
      refine ⟨none, rfl, fun σ => ?_⟩
      rw [← kept.eval, Bool.eq_false_iff]
      intro holds
      obtain ⟨τ, satisfies, _⟩ := equisatisfiable.complete σ holds
      exact correct τ satisfies (List.forall_mem_nil _)
  | unknown => cases correct

theorem answered_of_simplified {g : Formula ν} (simplified : simplify fuel f = some g) (kept : Kept f g)
    (simple : Everywhere Simple g) (noIf : Everywhere (fun g => g.isIfThenElse = false) g)
    (enough : Solver.rounds f.weight 0 ≤ fuel) :
    ∃ answer, solveForSatisfiability litOrder clauseOrder fuel f = some answer ∧ Answered f answer := by
  by_cases constant : g.isConstant
  · cases g with
    | true =>
        refine ⟨some [], by simp [solveForSatisfiability, simplified], fun σ _ => ?_, fun proper => ?_⟩
        · rw [← kept.eval, eval_true]
        · exact absurd (kept.keeps proper).1 not_proper_true
    | false =>
        refine ⟨none, by simp [solveForSatisfiability, simplified], fun σ => ?_⟩
        rw [← kept.eval, eval_false]
    | _ => cases constant
  · have encodable := encodable_of_simple simple noIf (Bool.eq_false_iff.mpr constant)
    obtain ⟨clauses, nbVars, mapping, encoded, equisatisfiable⟩ :=
      ConjunctiveNormalForm.apply_equisatisfiable clauseOrder encodable
    have enough' := (rounds_mono (equisatisfiable.size.trans kept.weight)).trans enough
    obtain ⟨s', result, solved, correct⟩ := solve_clauses litOrder equisatisfiable enough'
    obtain ⟨answer, read, answered⟩ := answered_of_correct kept equisatisfiable correct
    refine ⟨answer, ?_, answered⟩
    cases g with
    | true => exact absurd rfl constant
    | false => exact absurd rfl constant
    | _ => simpa [solveForSatisfiability, simplified, encoded, solved] using read

theorem error_of_ifThenElse {g : Formula ν} (simplified : simplify fuel f = some g)
    (isLeft : ¬ Everywhere (fun g => g.isIfThenElse = false) g) :
    solveForSatisfiability litOrder clauseOrder fuel f = none := by
  have other : ¬ Everywhere Encodable g := fun encodable => isLeft (encodable.mono fun _ node => node.2)
  have fails := ConjunctiveNormalForm.encode_none other .initial
  cases g with
  | true => exact absurd (.intro rfl (List.forall_mem_nil _)) isLeft
  | false => exact absurd (.intro rfl (List.forall_mem_nil _)) isLeft
  | _ => simp [solveForSatisfiability, simplified, ConjunctiveNormalForm.apply, fails]

theorem simplify_kept (enough : Solver.rounds f.weight 0 ≤ fuel) :
    ∃ g, simplify fuel f = some g ∧ Kept f g ∧ Everywhere Simple g := by
  have rounds : f.weight ≤ fuel := by
    unfold Solver.rounds at enough
    omega
  obtain ⟨g, simplified, kept, _, simple⟩ := simplify_keeps (Kept f) (fun _ kept => kept.round)
    ⟨fun _ => rfl, le_refl _, fun proper => ⟨proper, fun _ => id⟩⟩ rounds
  exact ⟨g, simplified, kept, simple⟩

/-- A formula without `ifThenElse` has an answer, and it is right. -/
theorem solveForSatisfiability_answers (noIf : Everywhere (fun g => g.isIfThenElse = false) f)
    (enough : Solver.rounds f.weight 0 ≤ fuel) :
    ∃ answer, solveForSatisfiability litOrder clauseOrder fuel f = some answer ∧ Answered f answer := by
  have rounds : f.weight ≤ fuel := by
    unfold Solver.rounds at enough
    omega
  obtain ⟨g, simplified, kept, simple⟩ := simplify_kept enough
  obtain ⟨g', simplified', noIf', _⟩ := simplify_keeps (Everywhere fun g => g.isIfThenElse = false)
    (fun _ => everywhere_mapPostorder harmless_isIfThenElse) noIf rounds
  rw [simplified] at simplified'
  cases simplified'
  exact answered_of_simplified litOrder clauseOrder simplified kept simple noIf' enough

/-- The answer is right. There is one as long as simplification leaves no `ifThenElse`. -/
theorem solveForSatisfiability_returns (enough : Solver.rounds f.weight 0 ≤ fuel) :
    ∃ g, simplify fuel f = some g ∧
      (Everywhere (fun g => g.isIfThenElse = false) g →
        ∃ answer, solveForSatisfiability litOrder clauseOrder fuel f = some answer ∧ Answered f answer) ∧
      (¬ Everywhere (fun g => g.isIfThenElse = false) g →
        solveForSatisfiability litOrder clauseOrder fuel f = none) := by
  obtain ⟨g, simplified, kept, simple⟩ := simplify_kept enough
  exact ⟨g, simplified,
    fun noIf => answered_of_simplified litOrder clauseOrder simplified kept simple noIf enough,
    error_of_ifThenElse litOrder clauseOrder simplified⟩

/-- The example of the documentation, `a && (!a || b)`. -/
theorem solveForSatisfiability_returns_two :
    let f : Formula ℕ := .and [.var 0, .or [.not (.var 0), .var 1]]
    ∃ g, simplify (Solver.rounds f.weight 0) f = some g ∧
      (Everywhere (fun g => g.isIfThenElse = false) g →
        ∃ answer,
          solveForSatisfiability (.insertion _) (.insertion _) (Solver.rounds f.weight 0) f = some answer ∧
          Answered f answer) ∧
      (¬ Everywhere (fun g => g.isIfThenElse = false) g →
        solveForSatisfiability (.insertion _) (.insertion _) (Solver.rounds f.weight 0) f = none) :=
  solveForSatisfiability_returns _ _ (le_refl _)

end Answers

end Renaissance.CafeSat
