import Renaissance.ScalaSat.InitClauses

/-!
# Sessions with the SAT solver

A client adds clauses to a solver and calls `solve`, as often as it likes and in any order. A later call
starts with the clauses that the earlier ones have learnt.

* `solve_of_session`: each call of `solve` comes to an end, without a failed assertion, and its answer is
  right for the clauses that were added until then and the assumptions of the call.
* `learnt_of_session`: what the solver keeps as learnt follows from the clauses that were added.

Both are about the default `Settings`, and about sessions whose counters do not overflow (see `Solver`).
-/

namespace Renaissance.CafeSat

open Clauses ImplicationGraph JavaCollections
open Solver (Answers Fresh Given Pending assignment initClauses_returns search_returns)

namespace Literal

variable {σ : ℕ → Bool} {lit : Literal} {n : ℕ}

def Holds (σ : ℕ → Bool) (lit : Literal) : Prop :=
  σ lit.id = lit.polarity

/-- The number that stands for the literal in the solver. -/
def code (lit : Literal) : ℕ :=
  2 * lit.id + (1 - lit.polInt)

@[simp] theorem code_var (lit : Literal) : lit.code / 2 = lit.id := by
  unfold code polInt
  split_ifs <;> omega

theorem holds_code : holds σ lit.code ↔ lit.Holds σ := by
  have parity : decide (lit.code % 2 = 0) = lit.polarity := by
    unfold code polInt
    cases lit.polarity <;> simp
  rw [holds, code_var, parity, Holds]

/-- The number that `solve` makes of an assumption. -/
theorem neg_eq_code (lit : Literal) : neg (2 * lit.id + lit.polInt) = lit.code := by
  unfold neg code polInt
  split_ifs <;> omega

end Literal

/-- The clauses hold. -/
def SatisfiesAll (σ : ℕ → Bool) (F : List (List Literal)) : Prop :=
  ∀ c ∈ F, ∃ lit ∈ c, lit.Holds σ

/-- What `solve` should answer. -/
def Correct (nbVars : ℕ) (F : List (List Literal)) (assumps : List Literal) : Result → Prop
  | .satisfiable model => model.length = nbVars ∧ SatisfiesAll (assignment model) F ∧
      ∀ lit ∈ assumps, lit.Holds (assignment model)
  | .unsatisfiable => ∀ σ, SatisfiesAll σ F → ¬ ∀ lit ∈ assumps, lit.Holds σ
  | .unknown => False

namespace Solver

variable {nbVars fuel : ℕ} {F : List (List Literal)} {s s' : Solver}
  {assumps : List Literal}

/-- Rounds of the loops that are enough. -/
def rounds (nbVars assumptions : ℕ) : ℕ :=
  nbVars * (nbVars + 1) ^ (assumptions + nbVars) + nbVars + assumptions + 2

/-- The literals of the clauses that the solver keeps as learnt, from the last call of `solve` or before.
Learnt clauses of one literal are not kept, nor are those that `reduceLearntClauses` has dropped. -/
def learntLits (s : Solver) : List (List ℕ) :=
  (s.cnfFormula.map fun f => f.learntClauses.map s.lits).getD [] ++ s.learntClauses

/-- Between two calls. -/
structure Ready (nbVars : ℕ) (F : List (List Literal)) (s : Solver) : Prop where
  nbVars_eq : s.nbVars = nbVars
  given : ∀ c ∈ s.incrementallyAddedClauses, Given nbVars c
  added : ∀ σ, Models σ s.incrementallyAddedClauses ↔ SatisfiesAll σ F
  learnt : ∀ c ∈ s.learntLits, Given nbVars c ∧ Entails s.incrementallyAddedClauses c
  first : s.nbSolveCalls = 0 → Fresh s
  later : 0 < s.nbSolveCalls → ∃ f, s.cnfFormula = some f

theorem initial_ready (nbVars : ℕ) : Ready nbVars [] (initial nbVars) where
  nbVars_eq := rfl
  given _ member := nomatch member
  added _ := ⟨fun _ _ member => (nomatch member), fun _ _ member => nomatch member⟩
  learnt _ member := nomatch member
  first _ := ⟨rfl, rfl, rfl, fun _ => rfl, fun _ => rfl, fun _ => rfl, rfl, rfl⟩
  later positive := absurd positive (lt_irrefl 0)

theorem addClause_ready (order : IterationOrder ℕ) (ready : Ready nbVars F s) {c : List Literal}
    (notEmpty : c ≠ [])
    (inside : ∀ lit ∈ c, lit.id < nbVars) : Ready nbVars (c :: F) (s.addClause order c) := by
  let lits := order.arrange (c.map Literal.code).dedup
  have mem : ∀ l, l ∈ lits ↔ ∃ lit ∈ c, lit.code = l := fun l => by
    rw [order.mem_arrange, List.mem_dedup, List.mem_map]
  have more : ∀ d, Entails s.incrementallyAddedClauses d → Entails (lits :: s.incrementallyAddedClauses) d :=
    fun d entails σ models => entails σ fun c' member => models c' (List.mem_cons_of_mem _ member)
  have first := ready.first
  constructor
  · exact ready.nbVars_eq
  · refine List.forall_mem_cons.mpr ⟨⟨?_, fun l member => ?_⟩, ready.given⟩
    · obtain ⟨lit, member⟩ := List.exists_mem_of_ne_nil c notEmpty
      exact List.ne_nil_of_mem ((mem lit.code).mpr ⟨lit, member, rfl⟩)
    · obtain ⟨lit, inClause, rfl⟩ := (mem l).mp member
      rw [Literal.code_var]
      exact inside lit inClause
  · intro σ
    show Models σ (lits :: s.incrementallyAddedClauses) ↔ _
    rw [Models, List.forall_mem_cons, SatisfiesAll, List.forall_mem_cons]
    refine and_congr ⟨?_, ?_⟩ (ready.added σ)
    · rintro ⟨l, member, sat⟩
      obtain ⟨lit, inClause, rfl⟩ := (mem l).mp member
      exact ⟨lit, inClause, Literal.holds_code.mp sat⟩
    · rintro ⟨lit, inClause, sat⟩
      exact ⟨lit.code, (mem _).mpr ⟨lit, inClause, rfl⟩, Literal.holds_code.mpr sat⟩
  · exact fun d member => (ready.learnt d member).imp_right (more d)
  · exact fun none => ⟨(first none).level, (first none).trail, (first none).qHead, (first none).model,
      (first none).watched, (first none).unseen, (first none).noRestart, (first none).status⟩
  · exact ready.later

/-- A later call keeps the clauses that were learnt. -/
theorem beginSolve_returns (ready : Ready nbVars F s) :
    ∃ t, s.beginSolve = some t ∧ Fresh t ∧ t.nbVars = nbVars ∧ 0 < t.nbSolveCalls ∧
      t.incrementallyAddedClauses = s.incrementallyAddedClauses ∧
      ∀ c ∈ t.learntClauses, Given nbVars c ∧ Entails s.incrementallyAddedClauses c := by
  by_cases again : 0 < s.nbSolveCalls
  · obtain ⟨f, formula⟩ := ready.later again
    have learnt := ready.learnt
    rw [learntLits, formula] at learnt
    have several : 1 < s.nbSolveCalls + 1 := by omega
    refine ⟨{ ({ s with nbSolveCalls := s.nbSolveCalls + 1 } : Solver).resetSolver with
        learntClauses := f.learntClauses.map s.lits ++ s.learntClauses }, ?_,
      ⟨rfl, rfl, rfl, fun _ => rfl, fun _ => rfl, fun _ => rfl, rfl, rfl⟩, ready.nbVars_eq, Nat.succ_pos _, rfl,
      learnt⟩
    simp only [beginSolve, several, if_true, formula, Option.bind_eq_bind, Option.bind_some, resetSolver]
    rfl
  · have fresh := ready.first (Nat.eq_zero_of_not_pos again)
    have single : ¬ 1 < s.nbSolveCalls + 1 := by omega
    refine ⟨{ s with nbSolveCalls := s.nbSolveCalls + 1 }, ?_,
      ⟨fresh.level, fresh.trail, fresh.qHead, fresh.model,
      fresh.watched, fresh.unseen, fresh.noRestart, fresh.status⟩, ready.nbVars_eq, Nat.succ_pos _, rfl,
      fun c member => ready.learnt c (List.mem_append_right _ member)⟩
    simp only [beginSolve, single, if_false]
    rfl

theorem solve_returns (order : IterationOrder ℕ) (ready : Ready nbVars F s)
    (inside : ∀ lit ∈ assumps, lit.id < nbVars)
    (enough : rounds nbVars assumps.length ≤ fuel) :
    ∃ s' result, s.solve order fuel assumps = some (s', result) ∧ Ready nbVars F s' ∧
      Correct nbVars F assumps result := by
  obtain ⟨t, begins, fresh, vars, positive, added, learnt⟩ := beginSolve_returns ready
  have givenAll : ∀ c ∈ t.learntClauses ++ t.incrementallyAddedClauses, Given t.nbVars c := by
    intro c member
    rw [vars]
    rcases List.mem_append.mp member with isLearnt | isAdded
    · exact (learnt c isLearnt).1
    · exact ready.given c (added ▸ isAdded)
  -- the clauses learnt earlier are added again, which changes no model
  have models : ∀ σ, Models σ (t.learntClauses ++ t.incrementallyAddedClauses) ↔ SatisfiesAll σ F := by
    intro σ
    rw [added, models_append_of_entails fun c member => (learnt c member).2]
    exact ready.added σ
  have codes : ∀ p ∈ assumps.map Literal.code, p / 2 < t.nbVars := by
    intro p member
    obtain ⟨lit, isAssumption, rfl⟩ := List.mem_map.mp member
    rw [Literal.code_var, vars]
    exact inside lit isAssumption
  obtain ⟨s₁, f, init, constants₁, formula, database, pending, level, status⟩ := initClauses_returns order fresh
    givenAll codes
  have vars₁ : s₁.nbVars = nbVars := constants₁.nbVars.trans vars
  let s₂ : Solver := { s₁ with assumptions := assumps.map Literal.code }
  have pending₂ : Pending (t.learntClauses ++ t.incrementallyAddedClauses) f s₂ :=
    ⟨pending.assigned.congr ⟨rfl, rfl, rfl, rfl, rfl, fun _ _ => rfl⟩, pending.split⟩
  have width : s₂.nbVars < nbVars + 1 := vars₁ ▸ Nat.lt_succ_self _
  have depth : s₂.assumptions.length + s₂.nbVars ≤ assumps.length + nbVars := by
    rw [show s₂.nbVars = nbVars from vars₁, List.length_map]
  have most : s₂.nbVars + s₂.assumptions.length + 1 ≤ fuel := by
    rw [show s₂.nbVars = nbVars from vars₁, List.length_map]
    unfold rounds at enough
    omega
  have all : s₂.nbVars * (nbVars + 1) ^ (assumps.length + nbVars) + 2 ≤ fuel := by
    rw [show s₂.nbVars = nbVars from vars₁]
    unfold rounds at enough
    omega
  obtain ⟨s', result, searched, constants₂, ⟨f', formula', database'⟩, answers⟩ := search_returns pending₂
    (database.congr rfl rfl (le_refl _) rfl) formula level status width depth most all
  refine ⟨s', result, ?_, ?_, ?_⟩
  · simp only [solve, begins, init, Literal.neg_eq_code, Option.bind_eq_bind, Option.bind_some]
    exact searched
  · have added' : s'.incrementallyAddedClauses = s.incrementallyAddedClauses :=
      constants₂.incrementallyAddedClauses.trans (constants₁.incrementallyAddedClauses.trans added)
    have learnt' : s'.learntClauses = t.learntClauses := constants₂.learntClauses.trans constants₁.learntClauses
    have calls : 0 < s'.nbSolveCalls := by
      rw [constants₂.nbSolveCalls, show s₂.nbSolveCalls = _ from constants₁.nbSolveCalls]
      exact positive
    have vars' : s'.nbVars = nbVars := constants₂.nbVars.trans vars₁
    constructor
    · exact vars'
    · exact added' ▸ ready.given
    · exact added' ▸ ready.added
    · rw [learntLits, formula', learnt', added']
      intro c member
      -- learnt in this call, or in an earlier one
      rcases List.mem_append.mp member with new | old
      · obtain ⟨r, isLearnt, rfl⟩ := List.mem_map.mp new
        have formed := database'.formed r (List.mem_append_right _ isLearnt)
        refine ⟨⟨fun none => ?_, fun l inClause => vars' ▸ formed.inside l inClause⟩, fun σ isModel => ?_⟩
        · have long := formed.long
          rw [none] at long
          cases long
        · exact formed.entails σ ((models σ).mpr ((ready.added σ).mp isModel))
      · exact learnt c old
    · exact fun none => absurd none calls.ne'
    · exact fun _ => ⟨f', formula'⟩
  · cases result with
    | satisfiable model =>
        obtain ⟨length, isModel, hold⟩ := answers
        exact ⟨length.trans vars₁, (models _).mp isModel, fun lit member =>
          Literal.holds_code.mp (hold _ (List.mem_map_of_mem member))⟩
    | unsatisfiable =>
        intro σ satisfies hold
        refine answers σ ((models σ).mpr satisfies) fun p member => ?_
        obtain ⟨lit, isAssumption, rfl⟩ := List.mem_map.mp member
        exact Literal.holds_code.mpr (hold lit isAssumption)
    | unknown => exact answers

/-- What a client can do with a new solver: the clauses that it has added, and the solver. Clauses are not
empty, and there are `nbVars` variables. -/
inductive Session (nbVars : ℕ) : List (List Literal) → Solver → Prop
  | new : Session nbVars [] (initial nbVars)
  | addClause {F : List (List Literal)} {s : Solver} {c : List Literal} (order : IterationOrder ℕ)
      (session : Session nbVars F s) (notEmpty : c ≠ []) (inside : ∀ lit ∈ c, lit.id < nbVars) :
      Session nbVars (c :: F) (s.addClause order c)
  | solve {F : List (List Literal)} {s s' : Solver} {assumps : List Literal} {fuel : ℕ} {result : Result}
      (order : IterationOrder ℕ) (session : Session nbVars F s) (inside : ∀ lit ∈ assumps, lit.id < nbVars)
      (enough : rounds nbVars assumps.length ≤ fuel)
      (returns : s.solve order fuel assumps = some (s', result)) : Session nbVars F s'

theorem session_addClauses (order : IterationOrder ℕ) {clauses : List (List Literal)}
    (session : Session nbVars F s)
    (given : ∀ c ∈ clauses, c ≠ [] ∧ ∀ lit ∈ c, lit.id < nbVars) :
    Session nbVars (clauses.reverse ++ F) (addClauses order clauses s) := by
  induction clauses generalizing F s with
  | nil => exact session
  | cons c clauses ih =>
      have ⟨notEmpty, inside⟩ := given c List.mem_cons_self
      rw [List.reverse_cons, List.append_assoc]
      exact ih (.addClause order session notEmpty inside) fun d member =>
        given d (List.mem_cons_of_mem c member)

theorem ready_of_session (session : Session nbVars F s) : Ready nbVars F s := by
  induction session with
  | new => exact initial_ready nbVars
  | addClause order _ notEmpty inside ready => exact addClause_ready order ready notEmpty inside
  | solve order _ inside enough returns ready =>
      obtain ⟨s', result, returns', ready', _⟩ := solve_returns order ready inside enough
      rw [returns] at returns'
      cases returns'
      exact ready'

/-- A call of `solve` ends, and its answer is right, whatever the client did before. -/
theorem solve_of_session (order : IterationOrder ℕ) (session : Session nbVars F s)
    (inside : ∀ lit ∈ assumps, lit.id < nbVars)
    (enough : rounds nbVars assumps.length ≤ fuel) :
    ∃ s' result, s.solve order fuel assumps = some (s', result) ∧ Correct nbVars F assumps result := by
  obtain ⟨s', result, returns, _, correct⟩ := solve_returns order (ready_of_session session) inside enough
  exact ⟨s', result, returns, correct⟩

/-- A call that an assumption makes unsatisfiable, and a second one after another clause. -/
theorem solve_of_session_two : ∃ s first s' result,
    (addClauses (.insertion ℕ) [[⟨0, true⟩, ⟨1, true⟩], [⟨0, false⟩, ⟨1, true⟩]] (initial 2)).solve
      (.insertion ℕ) 59 [⟨1, false⟩] = some (s, first) ∧
    (s.addClause (.insertion ℕ) [⟨0, true⟩, ⟨1, false⟩]).solve (.insertion ℕ) 59 [] = some (s', result) ∧
    Correct 2 [[⟨0, true⟩, ⟨1, false⟩], [⟨0, false⟩, ⟨1, true⟩], [⟨0, true⟩, ⟨1, true⟩]] [] result := by
  let clauses : List (List Literal) := [[⟨0, true⟩, ⟨1, true⟩], [⟨0, false⟩, ⟨1, true⟩]]
  have given : ∀ c ∈ clauses, c ≠ [] ∧ ∀ lit ∈ c, lit.id < 2 := by decide
  have session := session_addClauses (.insertion ℕ) .new given
  have assumption : ∀ lit ∈ [(⟨1, false⟩ : Literal)], lit.id < 2 := by decide
  have enough : rounds 2 [(⟨1, false⟩ : Literal)].length ≤ 59 := by decide
  obtain ⟨s, first, returns, _⟩ := solve_returns (.insertion ℕ) (ready_of_session session) assumption enough
  have again : Session 2 _ (s.addClause (.insertion ℕ) [⟨0, true⟩, ⟨1, false⟩]) :=
    .addClause _ (.solve _ session assumption enough returns) (by decide) (by decide)
  obtain ⟨s', result, returns', correct⟩ :=
    solve_of_session (.insertion ℕ) again (List.forall_mem_nil _) (by decide : rounds 2 0 ≤ 59)
  exact ⟨s, first, s', result, returns, returns', correct⟩

/-- What is kept as learnt follows from what was added. -/
theorem learnt_of_session (session : Session nbVars F s) :
    ∀ c ∈ s.learntLits, ∀ σ, SatisfiesAll σ F → Sat σ c := by
  have ready := ready_of_session session
  intro c member σ satisfies
  exact (ready.learnt c member).2 σ ((ready.added σ).mpr satisfies)

theorem learnt_of_session_three : ∃ s : Solver, s.learntLits = [[5, 0]] ∧ ∀ c ∈ s.learntLits, ∀ σ,
    SatisfiesAll σ [[⟨0, true⟩, ⟨1, false⟩, ⟨2, false⟩], [⟨0, true⟩, ⟨1, false⟩, ⟨2, true⟩],
      [⟨0, true⟩, ⟨1, true⟩, ⟨2, false⟩], [⟨0, true⟩, ⟨1, true⟩, ⟨2, true⟩]] → Sat σ c := by
  let clauses : List (List Literal) := [[⟨0, true⟩, ⟨1, true⟩, ⟨2, true⟩], [⟨0, true⟩, ⟨1, true⟩, ⟨2, false⟩],
    [⟨0, true⟩, ⟨1, false⟩, ⟨2, true⟩], [⟨0, true⟩, ⟨1, false⟩, ⟨2, false⟩]]
  have given : ∀ c ∈ clauses, c ≠ [] ∧ ∀ lit ∈ c, lit.id < 3 := by decide
  have session := session_addClauses (.insertion ℕ) .new given
  have noAssumption : ∀ lit ∈ ([] : List Literal), lit.id < 3 := List.forall_mem_nil _
  have enough : rounds 3 ([] : List Literal).length ≤ 197 := by decide
  obtain ⟨s, result, returns, _⟩ := solve_returns (.insertion ℕ) (ready_of_session session) noAssumption enough
  have learnt := congrArg (Option.map fun after => learntLits after.1) returns
  refine ⟨s, Option.some.inj (learnt.symm.trans ?_),
    learnt_of_session (.solve _ session noAssumption enough returns)⟩
  decide +kernel

end Solver

end Renaissance.CafeSat
