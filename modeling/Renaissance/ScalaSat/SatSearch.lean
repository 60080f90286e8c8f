import Mathlib.Data.Int.Interval
import Renaissance.ScalaSat.Backtracking
import Renaissance.ScalaSat.QueueRuns

/-!
# The search of the SAT solver

`search` decides on literals, the assumptions first, and propagates, until all variables have a value or
the clauses and the assumptions contradict each other. `search_returns`: it comes to an end, and then
either `Solved` or `Refuted` holds.
-/

namespace Renaissance.CafeSat.Solver

open Clauses FixedIntDoublePriorityQueue ImplicationGraph WhileLoop

variable {F : List (List ℕ)} {s s' : Solver} {f f' : CNFFormula} {l p : ℕ} {C : Set ℕ} {B K fuel : ℕ}

/-- The assumptions cannot hold. -/
structure Refuted (F : List (List ℕ)) (s : Solver) : Prop where
  status : s.status = .unsatisfiable
  qHead : s.qHead = s.trail.length
  stored : ∃ f, s.cnfFormula = some f ∧ Database F s f
  none : ∀ σ, Models σ F → ¬ ∀ p ∈ s.assumptions, holds σ p

/-- The trail is a model. -/
structure Solved (F : List (List ℕ)) (s : Solver) (f : CNFFormula) : Prop where
  status : s.status = .satisfiable
  going : Going F s f
  complete : Complete F f s
  all : ∀ v < s.nbVars, s.model v ≠ none
  enough : s.assumptions.length ≤ s.decisionLevel

section NextVariable

variable {queue : FixedIntDoublePriorityQueue}

/-- The queue gives a variable without a value, unless there is none. -/
theorem nextVariable_returns (holding : Holding { f with vsidsQueue := queue } s.nbVars C)
    (inQueue : ∀ v < s.nbVars, s.model v = none → v ∈ C) (notEmpty : queue.isEmpty = false)
    (enough : s.nbVars ≤ fuel) :
    ∃ queue' next, s.nextVariable fuel queue = some (queue', next) ∧ next < s.nbVars ∧
      (∃ C', Holding { f with vsidsQueue := queue' } s.nbVars C' ∧
        ∀ v < s.nbVars, s.model v = none → v ∈ C' ∨ v = next) ∧
      (s.model next ≠ none → ∀ v < s.nbVars, s.model v ≠ none) := by
  let inv (state : FixedIntDoublePriorityQueue × ℕ) : Prop := state.2 < s.nbVars ∧
    ∃ C', Holding { f with vsidsQueue := state.1 } s.nbVars C' ∧
      ∀ v < s.nbVars, s.model v = none → v ∈ C' ∨ v = state.2
  -- what one `deleteMax` does, before the loop and in each of its rounds
  have pop : ∀ (queue : FixedIntDoublePriorityQueue) C, Holding { f with vsidsQueue := queue } s.nbVars C →
      (∀ v < s.nbVars, s.model v = none → v ∈ C) → queue.isEmpty = false →
      inv queue.deleteMax ∧ queue.deleteMax.1.size < queue.size := by
    rintro queue C ⟨⟨g, represents⟩, size, nonneg⟩ inQueue notEmpty
    have some' : queue.size ≠ 0 := by simpa [isEmpty] using notEmpty
    obtain ⟨isMax, member, size', represents'⟩ := deleteMax_represents represents some'
    refine ⟨⟨?_, C \ {queue.max}, ⟨⟨g, represents'⟩, size'.trans size, nonneg⟩, fun v inside free => ?_⟩, ?_⟩
    · rw [isMax, ← size]
      exact represents.below _ member
    · rw [isMax]
      by_cases same : v = queue.max
      · exact .inr same
      · exact .inl ⟨inQueue v inside free, same⟩
    · rw [deleteMax_size some']
      omega
  have step : ∀ state, inv state → ((s.model state.2).isSome && !state.1.isEmpty) = true →
      ∃ state', some state.1.deleteMax = some state' ∧ inv state' ∧ state'.1.size < state.1.size := by
    rintro ⟨queue, next⟩ ⟨inside, C', holding', inQueue'⟩ goes
    simp only [Bool.and_eq_true, Bool.not_eq_true', Option.isSome_iff_ne_none] at goes
    refine ⟨_, rfl, pop queue C' holding' (fun v inside free => ?_) goes.2⟩
    have free' : ∀ w, v = w → s.model w = none := fun w same => same ▸ free
    exact (inQueue' v inside free).resolve_right fun same => goes.1 (free' next same)
  obtain ⟨start, shorter⟩ := pop queue C holding inQueue notEmpty
  have few : queue.deleteMax.1.size ≤ fuel := by
    obtain ⟨⟨g, represents⟩, size, _⟩ := holding
    have := represents.size_le
    simp only at size this
    omega
  obtain ⟨⟨queue', next⟩, result, ⟨inside, C', holding', inQueue'⟩, stops⟩ :=
    loop_returns _ _ inv (fun state => state.1.size) step start few
  refine ⟨queue', next, result, inside, ⟨C', holding', inQueue'⟩, fun assigned v within free => ?_⟩
  have empty : queue'.isEmpty = true := by
    simpa [Option.isSome_iff_ne_none, assigned] using stops
  obtain ⟨g, represents⟩ := holding'.represents
  rcases inQueue' v within free with member | same
  · rw [represents.isEmpty_iff.mp empty] at member
    cases member
  · have same : v = next := same
    exact assigned (same ▸ free)

end NextVariable

section NextAssumption

/-- The solver at another level. -/
def atLevel (s : Solver) (nbDecisions : ℕ) (level : ℤ) (status : Status) : Solver :=
  { s with nbDecisions := nbDecisions, decisionLevel := level, status := status }

/-- What the loop over the assumptions has found. -/
inductive Found (s : Solver) (level : ℤ) : Status → Option ℕ → Prop
  | nothing : Found s level .unknown none
  | unassigned (p : ℕ) (inside : level < s.assumptions.length)
      (isNext : s.assumptions[level.toNat]? = some p) (free : s.model (p / 2) = none) :
      Found s level .unknown (some p)
  | contradiction (p : ℕ) (inside : level < s.assumptions.length) (isNext : p ∈ s.assumptions)
      (fails : neg p ∈ s.trail) : Found s level .unsatisfiable none

/-- The state of the loop over the assumptions. -/
def Assuming (s : Solver) (state : Solver × Option ℕ) : Prop :=
  ∃ n level status, state.1 = s.atLevel n level status ∧ s.decisionLevel ≤ level ∧
    Assumed (s.atLevel n level .unknown) ∧ Found s level status state.2

/-- The assumption is true already. -/
theorem Assumed.skip {n : ℕ} {level : ℤ} (assumed : Assumed (s.atLevel n level .unknown))
    (assigned : Assigned F s) (reached : s.decisionLevel ≤ level) (inside : level < s.assumptions.length)
    (isNext : s.assumptions[level.toNat]? = some p) (holds : p ∈ s.trail) :
    Assumed (s.atLevel (n + 1) (level + 1) .unknown) where
  inside := assumed.inside
  held i p' isAssumption within := by
    have within : (i : ℤ) < level + 1 := within
    by_cases same : (i : ℤ) = level
    · have isAssumption : s.assumptions[i]? = some p' := isAssumption
      rw [show level.toNat = i by omega, isAssumption, Option.some.injEq] at isNext
      subst isNext
      have below := assigned.level_le p' holds
      exact ⟨holds, show s.levels (p' / 2) ≤ i + 1 by omega⟩
    · exact assumed.held i p' isAssumption (show (i : ℤ) < level by omega)
  decisions := assumed.decisions
  filled j high low := by
    have high : (s.assumptions.length : ℤ) < j := high
    have low : j ≤ level + 1 := low
    omega

/-- One assumption less is left, or the loop ends. -/
theorem nextAssumptionRound_returns (assigned : Assigned F s) {state : Solver × Option ℕ}
    (assuming : Assuming s state) (inside : state.1.decisionLevel < state.1.assumptions.length)
    (isNone : state.2 = none) (isUnknown : state.1.status = .unknown) :
    ∃ state', state.1.nextAssumptionRound = some state' ∧ Assuming s state' ∧
      ((state'.1.decisionLevel = state.1.decisionLevel ∧ ¬ (state'.2 = none ∧ state'.1.status = .unknown)) ∨
        state'.1.decisionLevel = state.1.decisionLevel + 1) := by
  obtain ⟨_, next⟩ := state
  obtain ⟨n, level, status, rfl, reached, assumed, found⟩ := assuming
  have inside : level < s.assumptions.length := inside
  have nonneg := assigned.nonneg
  have within : level.toNat < s.assumptions.length := by omega
  have isNext := List.getElem?_eq_getElem within
  have isAssumption := List.getElem_mem within
  generalize s.assumptions[level.toNat] = p at isNext isAssumption
  have isNext' : (s.atLevel n level status).assumptions[(s.atLevel n level status).decisionLevel.toNat]? = some p :=
    isNext
  cases isNone
  cases isUnknown
  simp only [nextAssumptionRound, isNext', Option.bind_eq_bind, Option.bind_some]
  split_ifs with sat unsat
  · have holds : p ∈ s.trail := (assigned.model p).mp sat
    exact ⟨_, rfl, ⟨n + 1, level + 1, .unknown, rfl, by omega,
      assumed.skip assigned reached inside isNext holds,
      .nothing⟩, .inr rfl⟩
  · have fails : neg p ∈ s.trail := assigned.isUnsat_iff.mp unsat
    exact ⟨_, rfl, ⟨n, level, .unsatisfiable, rfl, reached, assumed,
      .contradiction p inside isAssumption fails⟩, .inl ⟨rfl, fun ⟨_, same⟩ => nomatch same⟩⟩
  · have free : s.model (p / 2) = none :=
      assigned.free_iff.mpr ⟨fun holds => sat ((assigned.model p).mpr holds),
        fun fails => unsat (assigned.isUnsat_iff.mpr fails)⟩
    exact ⟨_, rfl, ⟨n, level, .unknown, rfl, reached, assumed, .unassigned p inside isNext free⟩,
      .inl ⟨rfl, fun ⟨same, _⟩ => nomatch same⟩⟩

theorem nextAssumption_returns (assigned : Assigned F s) (assumed : Assumed s) (status : s.status = .unknown)
    (enough : s.assumptions.length + 1 ≤ fuel) :
    ∃ n level status next, s.nextAssumption fuel = some (s.atLevel n level status, next) ∧
      s.decisionLevel ≤ level ∧ Assumed (s.atLevel n level .unknown) ∧ Found s level status next ∧
      (status = .unknown → next = none → s.assumptions.length ≤ level) := by
  let todo (state : Solver × Option ℕ) : ℕ := (s.assumptions.length - state.1.decisionLevel).toNat +
    if state.2 = none ∧ state.1.status = .unknown then 1 else 0
  have step : ∀ state, Assuming s state → decide (state.1.decisionLevel < state.1.assumptions.length ∧
      state.2 = none ∧ state.1.status = .unknown) = true →
      ∃ state', state.1.nextAssumptionRound = some state' ∧ Assuming s state' ∧ todo state' < todo state := by
    intro state assuming goes
    obtain ⟨inside, isNone, isUnknown⟩ := of_decide_eq_true goes
    obtain ⟨state', result, assuming', progress⟩ := nextAssumptionRound_returns assigned assuming inside isNone
      isUnknown
    refine ⟨state', result, assuming', ?_⟩
    obtain ⟨_, _, _, same, _⟩ := assuming
    rw [same] at inside progress isUnknown
    have inside : _ < (s.assumptions.length : ℤ) := inside
    simp only [todo, same, isNone, isUnknown, and_self, if_true]
    rcases progress with ⟨level, ends⟩ | level
    · rw [if_neg ends, level]
      omega
    · rw [level]
      split_ifs <;> omega
  have start : Assuming s (s, none) :=
    ⟨s.nbDecisions, s.decisionLevel, .unknown, by simp [atLevel, ← status], le_refl _,
      ⟨assumed.inside, assumed.held,
      assumed.decisions, assumed.filled⟩, .nothing⟩
  have few : todo (s, none) ≤ fuel := by
    have nonneg := assigned.nonneg
    simp only [todo]
    split_ifs <;> omega
  obtain ⟨⟨_, next⟩, result, ⟨n, level, status', rfl, reached, assumed', found⟩, stops⟩ :=
    loop_returns _ _ (Assuming s) todo step start few
  refine ⟨n, level, status', next, result, reached, assumed', found, fun isUnknown isNone => ?_⟩
  by_contra inside
  exact of_decide_eq_false stops ⟨not_le.mp inside, isNone, isUnknown⟩

end NextAssumption

section Decide

/-- A literal is put on the trail as the first one of a new level. -/
def openLevel (s : Solver) (l : ℕ) : Solver :=
  { s with nbDecisions := s.nbDecisions + 1, decisionLevel := s.decisionLevel + 1 }.assign l none

theorem openLevel_levels_self : (s.openLevel l).levels (l / 2) = s.decisionLevel + 1 :=
  Function.update_self _ _ _

theorem openLevel_reasons_self : (s.openLevel l).reasons (l / 2) = none :=
  Function.update_self _ _ _

variable (assigned : Assigned F s) (free : s.model (l / 2) = none)
include assigned free

theorem openLevel_other {k : ℕ} (member : k ∈ s.trail) :
    (s.openLevel l).levels (k / 2) = s.levels (k / 2) ∧
      (s.openLevel l).reasons (k / 2) = s.reasons (k / 2) := by
  have new : k / 2 ≠ l / 2 := fun same => (assigned.free_iff.mp (same ▸ free : s.model (k / 2) = none)).1 member
  exact ⟨Function.update_of_ne new _ _, Function.update_of_ne new _ _⟩

theorem Assumed.openLevel (assumed : Assumed s)
    (isNext : ∀ i : ℕ, i = s.decisionLevel → i < s.assumptions.length → s.assumptions[i]? = some l) :
    Assumed (s.openLevel l) where
  inside := assumed.inside
  held i p isAssumption within := by
    have isAssumption : s.assumptions[i]? = some p := isAssumption
    have within : (i : ℤ) < s.decisionLevel + 1 := within
    by_cases last : (i : ℤ) = s.decisionLevel
    · have bound := (List.getElem?_eq_some_iff.mp isAssumption).1
      have same := isNext i last bound
      rw [isAssumption, Option.some.injEq] at same
      subst same
      exact ⟨List.mem_cons_self, by rw [openLevel_levels_self, last]⟩
    · have ⟨holds, low⟩ := assumed.held i p isAssumption (by omega)
      exact ⟨List.mem_cons_of_mem l holds, (openLevel_other assigned free holds).1.trans_le low⟩
  decisions k member none positive low := by
    rcases List.mem_cons.mp member with rfl | early
    · have low : (s.openLevel k).levels (k / 2) ≤ s.assumptions.length := low
      rw [openLevel_levels_self] at low
      have nonneg := assigned.nonneg
      exact List.mem_of_getElem? (isNext s.decisionLevel.toNat (by omega) (by omega))
    · have ⟨level, reason⟩ := openLevel_other assigned free early
      rw [level] at positive low
      exact assumed.decisions k early (reason.symm.trans none) positive low
  filled j high low := by
    have low : j ≤ s.decisionLevel + 1 := low
    by_cases last : j = s.decisionLevel + 1
    · exact ⟨l, List.mem_cons_self, openLevel_levels_self.trans last.symm⟩
    · obtain ⟨k, member, level⟩ := assumed.filled j high (by omega)
      exact ⟨k, List.mem_cons_of_mem l member, (openLevel_other assigned free member).1.trans level⟩

omit assigned in
/-- The solver decides on a literal, which is the next assumption if there is one. The literal's variable may
have left the queue. -/
theorem decideOn_returns (going : Going F s f) (complete : Complete F f s) (same : SameClauses f f')
    (holding : Holding f' s.nbVars C)
    (inQueue : ∀ v < s.nbVars, s.model v = none → v ∈ C ∨ v = l / 2)
    (notEmpty : f'.vsidsQueue.isEmpty = true → s.assumptions.length ≤ s.decisionLevel)
    (inside : l / 2 < s.nbVars) (wide : 0 < B)
    (isNext : ∀ i : ℕ, i = s.decisionLevel → i < s.assumptions.length → s.assumptions[i]? = some l) :
    ∃ s', (s.setFormula f').decideOn l = some s' ∧ Constants s s' ∧ s'.status = s.status ∧ Going F s' f' ∧
      Pending F f' s' ∧ potential B K s.levels s.trail < potential B K s'.levels s'.trail := by
  have assigned := complete.assigned
  have nonneg := assigned.nonneg
  have higher : Assigned F { s with nbDecisions := s.nbDecisions + 1, decisionLevel := s.decisionLevel + 1 } :=
    ⟨assigned.graph, assigned.model, assigned.inside,
      fun k member => (assigned.level_le k member).trans (show s.decisionLevel ≤ s.decisionLevel + 1 by omega),
      show 0 ≤ s.decisionLevel + 1 by omega⟩
  have assigned' : Assigned F (s.openLevel l) := higher.assign free inside (.decision
    (show 0 < s.decisionLevel + 1 by omega)
    fun k member => (assigned.level_le k member).trans_lt (show _ < s.decisionLevel + 1 by omega))
  have other := fun k (member : k ∈ s.trail) => openLevel_other assigned free member
  have stays : ∀ k ∈ s.trail, k ∈ (s.openLevel l).trail := fun k member => List.mem_cons_of_mem l member
  refine ⟨(s.setFormula f').openLevel l, ?_, ⟨rfl, rfl, rfl, rfl, rfl⟩, rfl, ?_, ?_, ?_⟩
  · simp [decideOn, enqueueLiteral, free, openLevel, setFormula]
  · constructor
    · rfl
    · exact (going.database.sameClauses same).congr rfl rfl (le_refl _) rfl
    · exact fun c member => (going.covers c member).mono
        (fun k holds low => ⟨stays k holds, (other k holds).1.trans_le low⟩) same.original
        fun r _ => List.Subset.refl _
    · refine ⟨C, holding, fun v within unassigned => ?_⟩
      -- the variable that was taken from the queue has a value from now on
      have notHere : v ≠ l / 2 := by
        rintro rfl
        have value : ((s.setFormula f').openLevel l).model (l / 2) = some _ := Function.update_self _ _ _
        rw [unassigned] at value
        cases value
      have before : s.model v = none := (Function.update_of_ne notHere _ _).symm.trans unassigned
      exact (inQueue v within before).resolve_right notHere
    · exact going.unseen
    · exact going.noRestart
    · intro k member r isReason
      rcases List.mem_cons.mp member with rfl | early
      · rw [openLevel_reasons_self] at isReason
        cases isReason
      · exact going.known k early r ((other k early).2.symm.trans isReason)
    · have assumed := going.assumed.openLevel assigned free isNext
      exact ⟨assumed.inside, assumed.held, assumed.decisions, assumed.filled⟩
    · exact fun empty => (notEmpty empty).trans (show s.decisionLevel ≤ s.decisionLevel + 1 by omega)
  · refine ⟨assigned'.congr ⟨rfl, rfl, rfl, rfl, rfl, fun _ _ => rfl⟩, [l], s.trail, rfl, complete.qHead.symm,
      fun k member => ?_, fun r original => ?_⟩
    · rw [List.mem_singleton.mp member]
      exact openLevel_levels_self
    · exact (complete.quiet r (same.original ▸ original)).grow (List.Subset.refl _) stays fun k member =>
        (other k member).1
  · show _ < potential B K (s.openLevel l).levels (l :: s.trail)
    rw [potential_cons, potential_congr fun k member => (other k member).1]
    exact Nat.lt_add_of_pos_left (Nat.pow_pos wide)

end Decide

section Level

variable {n : ℕ} {level : ℤ} {status : Status}

/-- Assumptions that hold already raise the level. -/
theorem Going.atLevel (going : Going F s f) (reached : s.decisionLevel ≤ level)
    (assumed : Assumed (s.atLevel n level .unknown)) : Going F (s.atLevel n level status) f where
  formula := going.formula
  database := going.database.congr rfl rfl (le_refl _) rfl
  covers c member := (going.covers c member).mono (fun _ holds low => ⟨holds, low⟩) rfl
    fun _ _ => List.Subset.refl _
  queued := going.queued
  unseen := going.unseen
  noRestart := going.noRestart
  known := going.known
  assumed := ⟨assumed.inside, assumed.held, assumed.decisions, assumed.filled⟩
  notEmpty empty := (going.notEmpty empty).trans reached

theorem Complete.atLevel (complete : Complete F f s) (reached : s.decisionLevel ≤ level) :
    Complete F f (s.atLevel n level status) where
  assigned := ⟨complete.assigned.graph, complete.assigned.model, complete.assigned.inside,
    fun l member => (complete.assigned.level_le l member).trans reached, complete.assigned.nonneg.trans reached⟩
  qHead := complete.qHead
  quiet r original := (complete.quiet r original).congr rfl rfl

/-- The queue is another one. -/
theorem Going.requeue (going : Going F s f) (same : SameClauses f f') (queued : s.Queued f')
    (notEmpty : f'.vsidsQueue.isEmpty = true → s.assumptions.length ≤ s.decisionLevel) :
    Going F (s.setFormula f') f' where
  formula := rfl
  database := (going.database.sameClauses same).congr rfl rfl (le_refl _) rfl
  covers c member := (going.covers c member).mono (fun _ holds low => ⟨holds, low⟩) same.original
    fun _ _ => List.Subset.refl _
  queued := queued
  unseen := going.unseen
  noRestart := going.noRestart
  known := going.known
  assumed := ⟨going.assumed.inside, going.assumed.held, going.assumed.decisions, going.assumed.filled⟩
  notEmpty := notEmpty

/-- An assumption is false. -/
theorem refuted_of_fails (going : Going F s f) (complete : Complete F f s) (reached : s.decisionLevel ≤ level)
    (assumed : Assumed (s.atLevel n level .unknown)) (inside : level < s.assumptions.length)
    (isNext : p ∈ s.assumptions) (fails : neg p ∈ s.trail) :
    Refuted F (s.atLevel n level .unsatisfiable) where
  status := rfl
  qHead := complete.qHead
  stored := ⟨f, going.formula, going.database.congr rfl rfl (le_refl _) rfl⟩
  none σ models all := by
    have low : s.levels (neg p / 2) ≤ level := (complete.assigned.level_le _ fails).trans reached
    refine holds_neg.mp (complete.assigned.graph.holds_of_decisions models
      (fun l member below positive reason => ?_)
      (neg p) fails low) (all p isNext)
    exact all l (assumed.decisions l member (Option.map_eq_none_iff.mp reason) positive
      (show s.levels (l / 2) ≤ s.assumptions.length by omega))

end Level

section Decide

theorem Queued.all_of_isEmpty (queued : s.Queued f) (empty : f.vsidsQueue.isEmpty = true) :
    ∀ v < s.nbVars, s.model v ≠ none := by
  obtain ⟨C, ⟨⟨g, represents⟩, _, _⟩, inQueue⟩ := queued
  intro v inside free
  have member := inQueue v inside free
  rw [represents.isEmpty_iff.mp empty] at member
  cases member

/-- The solver decides, unless the assumptions are refuted or all variables have a value. -/
theorem decide_returns (going : Going F s f) (complete : Complete F f s) (isUnknown : s.status = .unknown)
    (wide : 0 < B) (enough : s.nbVars + s.assumptions.length + 1 ≤ fuel) :
    ∃ s', s.decide fuel = some s' ∧ Constants s s' ∧ (Refuted F s' ∨ (∃ f', Solved F s' f') ∨
      ∃ f', s'.status = .unknown ∧ Going F s' f' ∧ Pending F f' s' ∧
        potential B K s.levels s.trail < potential B K s'.levels s'.trail) := by
  have formula := going.formula
  by_cases empty : f.vsidsQueue.isEmpty = true
  · have assumed : Assumed (s.atLevel s.nbDecisions s.decisionLevel .unknown) :=
      ⟨going.assumed.inside, going.assumed.held, going.assumed.decisions, going.assumed.filled⟩
    refine ⟨s.atLevel s.nbDecisions s.decisionLevel .satisfiable, ?_, ⟨rfl, rfl, rfl, rfl, rfl⟩,
      .inr (.inl ⟨f, rfl, going.atLevel (le_refl _) assumed, complete.atLevel (le_refl _),
        going.queued.all_of_isEmpty empty, going.notEmpty empty⟩)⟩
    simp [Solver.decide, formula, empty, Solver.atLevel]
  obtain ⟨n, level, status, next, assume, reached, assumed, found, passed⟩ := nextAssumption_returns
    complete.assigned going.assumed isUnknown (show s.assumptions.length + 1 ≤ fuel by omega)
  have known : (s.atLevel n level .unknown).status ≠ .unsatisfiable := fun same => nomatch same
  have going' : Going F (s.atLevel n level .unknown) f := going.atLevel reached assumed
  have complete' : Complete F f (s.atLevel n level .unknown) := complete.atLevel reached
  have raise : Constants s (s.atLevel n level .unknown) := ⟨rfl, rfl, rfl, rfl, rfl⟩
  obtain ⟨C, holding, inQueue⟩ := going.queued
  cases found with
  | contradiction p inside isNext fails =>
      refine ⟨s.atLevel n level .unsatisfiable, ?_, ⟨rfl, rfl, rfl, rfl, rfl⟩,
        .inl (refuted_of_fails going complete reached assumed inside isNext fails)⟩
      simp [Solver.decide, formula, empty, assume, Solver.atLevel]
  | unassigned p inside isNext free =>
      have isAssumption : p ∈ s.assumptions := List.mem_of_getElem? isNext
      obtain ⟨s', result, constants, kept, after⟩ := decideOn_returns (B := B) (K := K) (l := p)
        (show (s.atLevel n level .unknown).model (p / 2) = none from free) going' complete' ⟨rfl, rfl⟩ holding
        (fun v within unassigned => .inl (inQueue v within unassigned)) going'.notEmpty
        (going.assumed.inside p isAssumption) wide fun i here _ => by
          have here : (i : ℤ) = level := here
          rw [show i = level.toNat by omega]
          exact isNext
      have same : (s.atLevel n level .unknown).setFormula f = s.atLevel n level .unknown := by
        simp [Solver.atLevel, setFormula, formula]
      rw [same] at result
      refine ⟨s', ?_, raise.trans constants, .inr (.inr ⟨f, kept, after⟩)⟩
      simp [Solver.decide, formula, empty, assume, known, result]
  | nothing =>
      have passed := passed rfl rfl
      obtain ⟨queue, next, taken, inside, ⟨C', holding', inQueue'⟩, noneFree⟩ := nextVariable_returns
        (s := s.atLevel n level .unknown) holding inQueue (Bool.eq_false_iff.mpr empty)
        (show s.nbVars ≤ fuel by omega)
      by_cases free : s.model next = none
      · have variable' : ∀ b, b < 2 → (2 * next + b) / 2 = next := fun b bit => by omega
        let lit := 2 * next + (n + 1) % 2
        have isVariable : lit / 2 = next := variable' _ (Nat.mod_lt _ Nat.two_pos)
        have same : SameClauses f { f with vsidsQueue := queue } := ⟨rfl, rfl⟩
        obtain ⟨s', result, constants, kept, after⟩ := decideOn_returns (B := B) (K := K) (l := lit)
          (show (s.atLevel n level .unknown).model (lit / 2) = none from isVariable.symm ▸ free)
          going' complete'
          same holding' (isVariable.symm ▸ inQueue') (fun _ => passed) (isVariable.symm ▸ inside) wide
          fun i here low => absurd low (not_lt.mpr (by
            have here : (i : ℤ) = level := here
            show s.assumptions.length ≤ i
            omega))
        refine ⟨s', ?_, raise.trans constants, .inr (.inr ⟨_, kept, after⟩)⟩
        have free' :
            ((s.atLevel n level .unknown).setFormula { f with vsidsQueue := queue }).model next = none := free
        simp only [Solver.decide, formula, empty, assume, known, taken, free', Option.bind_eq_bind,
          Option.bind_some, if_true, if_false, Bool.false_eq_true]
        exact result
      -- the queue has run out of variables without a value
      · have full := noneFree free
        have assigned' : ¬ ((s.atLevel n level .unknown).setFormula { f with vsidsQueue := queue }).model next =
          none := free
        refine ⟨(s.atLevel n level .satisfiable).setFormula { f with vsidsQueue := queue }, ?_,
          ⟨rfl, rfl, rfl, rfl, rfl⟩, .inr (.inl ⟨{ f with vsidsQueue := queue }, rfl, ?_, ?_, full, passed⟩)⟩
        · simp only [Solver.decide, formula, empty, assume, known, taken, assigned', Option.bind_eq_bind,
            Option.bind_some, if_false, Bool.false_eq_true]
          rfl
        · exact Going.requeue (going.atLevel reached assumed) ⟨rfl, rfl⟩
            ⟨C', holding', fun v within unassigned => absurd unassigned (full v within)⟩ fun _ => passed
        · exact ⟨complete'.assigned.congr ⟨rfl, rfl, rfl, rfl, rfl, fun _ _ => rfl⟩,
            complete.qHead, complete.quiet⟩

end Decide

section Propagate

theorem Propagated.potential_le (propagated : Propagated s s') :
    potential B K s.levels s.trail ≤ potential B K s'.levels s'.trail := by
  obtain ⟨new, trail, _⟩ := propagated.grown
  rw [trail, potential_append, potential_congr propagated.levels]
  exact Nat.le_add_left _ _

theorem Assigned.potential_le (assigned : Assigned F s) (wide : 0 < B) :
    potential B K s.levels s.trail ≤ s.nbVars * B ^ K :=
  (ImplicationGraph.potential_le wide).trans (Nat.mul_le_mul_right _ assigned.length_le)

/-- Each level after those of the assumptions has a literal. -/
theorem Assumed.level_le (assumed : Assumed s) (assigned : Assigned F s) :
    s.decisionLevel ≤ s.assumptions.length + s.nbVars := by
  have covered : Finset.Ioc (s.assumptions.length : ℤ) s.decisionLevel ⊆
      (s.trail.map fun l => s.levels (l / 2)).toFinset := by
    intro level member
    obtain ⟨high, low⟩ := Finset.mem_Ioc.mp member
    obtain ⟨l, inTrail, same⟩ := assumed.filled level high low
    exact List.mem_toFinset.mpr (List.mem_map.mpr ⟨l, inTrail, same⟩)
  have few := (Finset.card_le_card covered).trans (List.toFinset_card_le _)
  rw [Int.card_Ioc, List.length_map] at few
  have short := assigned.length_le
  omega

/-- A conflict without decisions. -/
theorem Clash.refuted (clash : Clash F f s) (database : Database F s f) (formula : s.cnfFormula = some f)
    (none : ∀ σ, ¬ Models σ F) : Refuted F { s with status := .unsatisfiable } where
  status := rfl
  qHead := clash.qHead
  stored := ⟨f, formula, database.congr rfl rfl (le_refl _) rfl⟩
  none σ models _ := none σ models

theorem deduce_of_done (done : s.qHead = s.trail.length) : s.deduce fuel = some s :=
  loop_of_not (by simp [done])

/-- Before a round of `propagate` if `cont`, and after the last one otherwise. -/
def Propagating (F : List (List ℕ)) (B K : ℕ) (s : Solver) (state : Solver × Bool) : Prop :=
  Constants s state.1 ∧ (Refuted F state.1 ∨ ∃ f, state.1.status = .unknown ∧ Going F state.1 f ∧
    potential B K s.levels s.trail ≤ potential B K state.1.levels state.1.trail ∧
    (if state.2 then Pending F f state.1 else Complete F f state.1))

/-- The rounds that are left. -/
def roundsLeft (B K : ℕ) (state : Solver × Bool) : ℕ :=
  if state.2 then
    if state.1.status = .unknown then
      state.1.nbVars * B ^ K + 2 - potential B K state.1.levels state.1.trail
    else 1
  else 0

theorem propagateRound_returns {cont : Bool} (propagating : Propagating F B K s (s', cont))
    (isCont : cont = true)
    (wide : s.nbVars < B) (deep : s.assumptions.length + s.nbVars ≤ K) (enough : s.nbVars + 1 ≤ fuel) :
    ∃ state, s'.propagateRound fuel = some state ∧ Propagating F B K s state ∧
      roundsLeft B K state < roundsLeft B K (s', cont) := by
  subst isCont
  obtain ⟨constants, state⟩ := propagating
  have vars : s'.nbVars = s.nbVars := constants.nbVars
  rcases state with refuted | ⟨f, isUnknown, going, progress, pending⟩
  · have status : s'.status = .unsatisfiable := refuted.status
    refine ⟨(s', false), ?_, ⟨constants, .inl refuted⟩, ?_⟩
    · simp [propagateRound, deduce_of_done refuted.qHead, status]
    · simp [roundsLeft, status]
  · have isUnknown : s'.status = .unknown := isUnknown
    have pending : Pending F f s' := pending
    have bound := pending.assigned.potential_le (B := B) (K := K) (by omega)
    have before : roundsLeft B K (s', true) = s'.nbVars * B ^ K + 2 - potential B K s'.levels s'.trail := by
      simp [roundsLeft, isUnknown]
    obtain ⟨s₁, deduced, propagated, database, outcome⟩ := deduce_returns pending going.database
      (show s'.nbVars ≤ fuel by omega)
    have going₁ := going.propagated propagated database
    have constants₁ := constants.trans propagated.constants
    rcases outcome with clash | ⟨complete, status⟩
    · have level := going₁.assumed.level_le clash.assigned
      rw [constants₁.assumptions, constants₁.nbVars] at level
      have vars₁ := constants₁.nbVars
      obtain ⟨s₂, result, constants₂, outcome⟩ := backtrack_returns (B := B) (K := K) going₁ clash
        (show s₁.nbVars + 1 ≤ fuel by omega) (show s₁.nbVars < B by omega) (by omega)
      refine ⟨(s₂, true), by simp [propagateRound, deduced, clash.status, result],
        ⟨constants₁.trans constants₂, ?_⟩,
        ?_⟩
      · rcases outcome with ⟨rfl, none⟩ | ⟨f₂, isUnknown₂, going₂, pending₂, more⟩
        · exact .inl (clash.refuted database going₁.formula none)
        · exact .inr ⟨f₂, isUnknown₂, going₂, progress.trans (propagated.potential_le.trans more.le), pending₂⟩
      · rw [before]
        rcases outcome with ⟨rfl, none⟩ | ⟨f₂, isUnknown₂, going₂, pending₂, more⟩
        -- without a decision to take back this was the last but one round
        · simp only [roundsLeft]
          simp
          omega
        · have bound₂ := pending₂.assigned.potential_le (B := B) (K := K) (by omega)
          have grown := propagated.potential_le (B := B) (K := K)
          rw [constants₂.nbVars, vars₁, ← vars] at bound₂
          simp only [roundsLeft, isUnknown₂, if_true, constants₂.nbVars, vars₁, ← vars]
          omega
    · refine ⟨(s₁, false), by simp [propagateRound, deduced, status, isUnknown], ⟨constants₁, .inr ⟨f,
        status.trans isUnknown, going₁, progress.trans propagated.potential_le, complete⟩⟩, ?_⟩
      rw [before]
      simp only [roundsLeft, Bool.false_eq_true, if_false]
      omega

theorem propagate_returns (going : Going F s f) (pending : Pending F f s) (isUnknown : s.status = .unknown)
    (wide : s.nbVars < B) (deep : s.assumptions.length + s.nbVars ≤ K) (enough : s.nbVars + 1 ≤ fuel)
    (rounds : s.nbVars * B ^ K + 2 ≤ fuel) :
    ∃ s', s.propagate fuel = some s' ∧ Constants s s' ∧ (Refuted F s' ∨ ∃ f', s'.status = .unknown ∧
      Going F s' f' ∧ Complete F f' s' ∧
        potential B K s.levels s.trail ≤ potential B K s'.levels s'.trail) := by
  have start : Propagating F B K s (s, true) :=
    ⟨.refl s, .inr ⟨f, isUnknown, going, le_refl _, pending⟩⟩
  have few : roundsLeft B K (s, true) ≤ fuel := by
    simp only [roundsLeft, isUnknown, if_true]
    omega
  obtain ⟨⟨s', cont⟩, result, ⟨constants, state⟩, stops⟩ :=
    loop_returns (fun state : Solver × Bool => state.2) _
    (Propagating F B K s) (roundsLeft B K)
    (fun state propagating goes => propagateRound_returns propagating goes wide deep enough) start few
  have stops : cont = false := stops
  subst stops
  refine ⟨s', ?_, constants, state.imp_right fun ⟨f', isUnknown', going', more, complete⟩ =>
    ⟨f', isUnknown', going', complete, more⟩⟩
  rw [propagate, result]
  rfl

theorem propagate_of_done (done : s.qHead = s.trail.length) (noConflict : s.status ≠ .conflict)
    (enough : 1 ≤ fuel) : s.propagate fuel = some s := by
  obtain ⟨fuel, rfl⟩ := Nat.exists_eq_add_of_le' enough
  have round : s.propagateRound (fuel + 1) = some (s, false) := by
    simp [propagateRound, deduce_of_done done, noConflict]
  rw [propagate, loop_succ rfl round, loop_of_not rfl]
  rfl

end Propagate

section Search

/-- The values that the trail gives. -/
def values (s : Solver) (v : ℕ) : Bool :=
  s.model v = some true

theorem Assigned.holds_values (assigned : Assigned F s) (member : l ∈ s.trail) : holds s.values l := by
  have sat := (assigned.model l).mpr member
  rw [isSat, decide_eq_true_iff] at sat
  rw [holds, values, sat]
  cases decide (l % 2 = 0) <;> rfl

theorem Solved.models (solved : Solved F s f) : Models s.values F := by
  have assigned := solved.complete.assigned
  intro c member
  rcases solved.going.covers c member with always | ⟨l, inClause, holds, _⟩ | ⟨r, original, inside⟩
  · exact always s.values
  · exact ⟨l, inClause, assigned.holds_values holds⟩
  · have formed := solved.going.database.formed r (List.mem_append_left _ original)
    obtain ⟨a, b, rest, lits⟩ := formed.split
    have quiet := solved.complete.quiet r original
    rw [lits] at quiet inside
    have bound := formed.inside a (lits ▸ List.mem_cons_self)
    -- all variables have a value, so one of the two watched literals is true
    have value : a ∈ s.trail ∨ neg a ∈ s.trail := by
      rw [← assigned.isAssigned_iff, isAssigned, Option.isSome_iff_ne_none]
      exact solved.all _ bound
    rcases value with holds | fails
    · exact ⟨a, inside List.mem_cons_self, assigned.holds_values holds⟩
    · obtain ⟨holds, _⟩ := quiet.1 fails
      exact ⟨b, inside (List.mem_cons_of_mem _ List.mem_cons_self), assigned.holds_values holds⟩

theorem Solved.holds_assumption (solved : Solved F s f) (member : p ∈ s.assumptions) : holds s.values p := by
  obtain ⟨i, isNext⟩ := List.getElem?_of_mem member
  have bound := (List.getElem?_eq_some_iff.mp isNext).1
  have enough := solved.enough
  exact solved.complete.assigned.holds_values (solved.going.assumed.held i p isNext (by omega)).1

/-- The assignment that a list of values stands for. -/
def assignment (model : List Bool) (v : ℕ) : Bool :=
  model.getD v false

theorem assignment_values (assigned : Assigned F s) :
    assignment ((List.range s.nbVars).map fun v => decide (s.model v = some true)) = s.values := by
  funext v
  unfold assignment
  by_cases inside : v < s.nbVars
  · simp [inside, values]
  · have none : s.values v = false := by
      by_contra isTrue
      rw [Bool.not_eq_false, values, decide_eq_true_iff] at isTrue
      have sat : s.isSat (2 * v) = true := by simp [isSat, isTrue]
      have within := assigned.inside _ ((assigned.model _).mp sat)
      omega
    simp [inside, none]

/-- What an answer says about the clauses and the assumptions. -/
def Answers (F : List (List ℕ)) (assumptions : List ℕ) (nbVars : ℕ) : Result → Prop
  | .satisfiable model => model.length = nbVars ∧ Models (assignment model) F ∧
      ∀ p ∈ assumptions, holds (assignment model) p
  | .unsatisfiable => ∀ σ, Models σ F → ¬ ∀ p ∈ assumptions, holds σ p
  | .unknown => False

/-- Before a round of `search`, or after the last one. -/
def Searched (F : List (List ℕ)) (B K : ℕ) (s s' : Solver) : Prop :=
  Constants s s' ∧ (Refuted F s' ∨ (∃ f, Solved F s' f) ∨ ∃ f, s'.status = .unknown ∧ Going F s' f ∧
    Complete F f s' ∧ potential B K s.levels s.trail ≤ potential B K s'.levels s'.trail)

theorem searchRound_returns (searched : Searched F B K s s') (isUnknown : s'.status = .unknown)
    (wide : s.nbVars < B) (deep : s.assumptions.length + s.nbVars ≤ K)
    (enough : s.nbVars + s.assumptions.length + 1 ≤ fuel) (rounds : s.nbVars * B ^ K + 2 ≤ fuel) :
    ∃ s₁, s'.searchRound fuel = some s₁ ∧ Searched F B K s s₁ ∧
      (s₁.status = .unknown → potential B K s'.levels s'.trail < potential B K s₁.levels s₁.trail) := by
  obtain ⟨constants, refuted | ⟨f, solved⟩ | ⟨f, _, going, complete, progress⟩⟩ := searched
  · exact absurd (isUnknown.symm.trans refuted.status) (fun same => nomatch same)
  · exact absurd (isUnknown.symm.trans solved.status) (fun same => nomatch same)
  have vars := constants.nbVars
  have assumptions := constants.assumptions
  obtain ⟨t, decided, constants₁, outcome⟩ := decide_returns (B := B) (K := K) going complete isUnknown
    (show 0 < B by omega)
      (show s'.nbVars + s'.assumptions.length + 1 ≤ fuel by rw [vars, assumptions]; exact enough)
  have constants' := constants.trans constants₁
  rcases outcome with refuted | ⟨f', solved⟩ | ⟨f', unknown, going', pending, more⟩
  · refine ⟨t, ?_, ⟨constants', .inl refuted⟩, fun same => ?_⟩
    · rw [searchRound, decided]
      exact propagate_of_done refuted.qHead (by rw [refuted.status]; exact fun same => nomatch same) (by omega)
    · rw [refuted.status] at same
      cases same
  · refine ⟨t, ?_, ⟨constants', .inr (.inl ⟨f', solved⟩)⟩, fun same => ?_⟩
    · rw [searchRound, decided]
      exact propagate_of_done solved.complete.qHead (by rw [solved.status]; exact fun same => nomatch same)
        (by omega)
    · rw [solved.status] at same
      cases same
  · have smaller : t.nbVars + 1 ≤ fuel := by
      rw [constants'.nbVars]
      omega
    obtain ⟨s₁, propagated, constants₂, outcome⟩ := propagate_returns (B := B) (K := K) going' pending unknown
      (by rw [constants'.nbVars]; exact wide) (by rw [constants'.nbVars, constants'.assumptions]; exact deep)
      smaller (by rw [constants'.nbVars]; exact rounds)
    refine ⟨s₁, ?_, ⟨constants'.trans constants₂, ?_⟩, fun isUnknown₁ => ?_⟩
    · rw [searchRound, decided]
      exact propagated
    · refine outcome.imp_right fun ⟨f₁, unknown₁, going₁, complete₁, more₁⟩ => .inr ⟨f₁, unknown₁, going₁,
        complete₁, progress.trans (more.le.trans more₁)⟩
    · rcases outcome with refuted | ⟨_, _, _, _, more₁⟩
      · rw [refuted.status] at isUnknown₁
        cases isUnknown₁
      · exact more.trans_le more₁

theorem Searched.potential_le (searched : Searched F B K s s') (isUnknown : s'.status = .unknown)
    (wide : 0 < B) : potential B K s'.levels s'.trail ≤ s.nbVars * B ^ K := by
  obtain ⟨constants, refuted | ⟨f, solved⟩ | ⟨f, _, _, complete, _⟩⟩ := searched
  · exact absurd (isUnknown.symm.trans refuted.status) (fun same => nomatch same)
  · exact absurd (isUnknown.symm.trans solved.status) (fun same => nomatch same)
  · rw [← constants.nbVars]
    exact complete.assigned.potential_le wide

/-- What the loop of `search` starts with: after a conflict, or a contradiction of two facts, there is nothing
to search for. -/
theorem searched_of_deduce (propagated : Propagated s s') (database : Database F s' f)
    (formula : s.cnfFormula = some f) (level : s.decisionLevel = 0)
    (status : (s.status = .unknown ∧ Going F s f) ∨ (s.status = .unsatisfiable ∧ ∀ σ, ¬ Models σ F))
    (outcome : Clash F f s' ∨ (Complete F f s' ∧ s'.status = s.status)) :
    Searched F B K s' (if s'.status = .conflict then { s' with status := .unsatisfiable } else s') := by
  have formula' := propagated.cnfFormula.trans formula
  rcases outcome with clash | ⟨complete, same⟩
  -- the solver has made no decision, so a conflict refutes the clauses
  · rw [if_pos clash.status]
    exact ⟨⟨rfl, rfl, rfl, rfl, rfl⟩,
      .inl (clash.refuted database formula' (clash.unsat database (propagated.decisionLevel.trans level)))⟩
  · rcases status with ⟨isUnknown, going⟩ | ⟨isUnsat, none⟩
    · rw [if_neg (by rw [same, isUnknown]; exact fun same => nomatch same)]
      exact ⟨.refl s', .inr (.inr ⟨f, same.trans isUnknown, going.propagated propagated database, complete,
        le_refl _⟩)⟩
    · rw [if_neg (by rw [same, isUnsat]; exact fun same => nomatch same)]
      exact ⟨.refl s', .inl ⟨same.trans isUnsat, complete.qHead, ⟨f, formula', database⟩,
        fun σ models _ => none σ models⟩⟩

/-- With enough fuel the search ends, and its answer is right. -/
theorem search_returns (pending : Pending F f s) (database : Database F s f) (formula : s.cnfFormula = some f)
    (level : s.decisionLevel = 0)
    (status : (s.status = .unknown ∧ Going F s f) ∨ (s.status = .unsatisfiable ∧ ∀ σ, ¬ Models σ F))
    (wide : s.nbVars < B) (deep : s.assumptions.length + s.nbVars ≤ K)
    (enough : s.nbVars + s.assumptions.length + 1 ≤ fuel) (rounds : s.nbVars * B ^ K + 2 ≤ fuel) :
    ∃ s' result, s.search fuel = some (s', result) ∧ Constants s s' ∧
      (∃ f', s'.cnfFormula = some f' ∧ Database F s' f') ∧ Answers F s.assumptions s.nbVars result := by
  obtain ⟨s₁, deduced, propagated, database₁, outcome⟩ := deduce_returns pending database
    (show s.nbVars ≤ fuel by omega)
  have start := searched_of_deduce (B := B) (K := K) propagated database₁ formula level status outcome
  have constants := propagated.constants
  have vars := constants.nbVars
  have assumptions := constants.assumptions
  -- the potential grows from round to round and is bounded
  let todo (t : Solver) : ℕ :=
    if t.status = .unknown then s.nbVars * B ^ K + 1 - potential B K t.levels t.trail else 0
  have step : ∀ t, Searched F B K s₁ t → decide (t.status = .unknown) = true →
      ∃ t', t.searchRound fuel = some t' ∧ Searched F B K s₁ t' ∧ todo t' < todo t := by
    intro t searched goes
    have isUnknown := of_decide_eq_true goes
    have enough₁ : s₁.nbVars + s₁.assumptions.length + 1 ≤ fuel := by rwa [vars, assumptions]
    obtain ⟨t', result, searched', more⟩ := searchRound_returns searched isUnknown (by rw [vars]; exact wide)
      (by rw [vars, assumptions]; exact deep) enough₁ (by rw [vars]; exact rounds)
    refine ⟨t', result, searched', ?_⟩
    have bound := searched.potential_le isUnknown (show 0 < B by omega)
    rw [vars] at bound
    simp only [todo, isUnknown, if_true]
    split_ifs with isUnknown'
    · have more := more isUnknown'
      have bound' := searched'.potential_le isUnknown' (show 0 < B by omega)
      rw [vars] at bound'
      omega
    · omega
  have few : ∀ t, todo t ≤ fuel := by
    intro t
    simp only [todo]
    split_ifs <;> omega
  obtain ⟨s', result, searched, stops⟩ := loop_returns
    (fun t : Solver => decide (t.status = .unknown)) (searchRound fuel)
    (Searched F B K s₁) todo step start (few _)
  have notUnknown : s'.status ≠ .unknown := of_decide_eq_false stops
  obtain ⟨constants', refuted | ⟨f', solved⟩ | ⟨_, isUnknown, _⟩⟩ := searched
  · refine ⟨s', .unsatisfiable, ?_, constants.trans constants', refuted.stored, ?_⟩
    · simp [search, deduced, result, refuted.status]
    · rw [← assumptions, ← constants'.assumptions]
      exact refuted.none
  · have assigned := solved.complete.assigned
    have same := assignment_values assigned
    refine ⟨s', .satisfiable ((List.range s'.nbVars).map fun v => decide (s'.model v = some true)), ?_,
      constants.trans constants', ⟨f', solved.going.formula, solved.going.database⟩, ?_⟩
    · simp [search, deduced, result, solved.status]
    · refine ⟨?_, ?_, ?_⟩
      · rw [List.length_map, List.length_range, constants'.nbVars, vars]
      · rw [same]
        exact solved.models
      · intro p member
        rw [same]
        rw [← assumptions, ← constants'.assumptions] at member
        exact solved.holds_assumption member
  · exact absurd isUnknown notUnknown

end Search

end Renaissance.CafeSat.Solver
