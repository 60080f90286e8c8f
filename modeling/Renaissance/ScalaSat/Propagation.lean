import Renaissance.ScalaSat.SatInvariant

/-!
# Unit propagation

`deduce` goes through the literals of the trail that it has not seen yet. It moves the watches of the
clauses where the negation of such a literal is watched, and puts the last literal of a clause on the
trail, until there are no new literals or a clause is false.

* `visit_returns`: one clause.
* `deduce_returns`: the loop over the trail. In the end the clauses are quiet about all of the trail, or
  there is a conflict in which the last level takes part.
-/

namespace Renaissance.CafeSat.Solver

open Clauses ImplicationGraph WhileLoop

variable {F : List (List ℕ)} {s s' : Solver} {f : CNFFormula} {l : ℕ} {r : ClauseRef}

/-- What propagation does to the solver, whatever it finds. -/
structure Propagated (s s' : Solver) : Prop where
  constants : Constants s s'
  nbObjects : s'.nbObjects = s.nbObjects
  decisionLevel : s'.decisionLevel = s.decisionLevel
  cnfFormula : s'.cnfFormula = s.cnfFormula
  seen : s'.seen = s.seen
  nextRestart : s'.nextRestart = s.nextRestart
  grown : ∃ new, s'.trail = new ++ s.trail ∧
    ∀ l ∈ new, s'.levels (l / 2) = s.decisionLevel ∧ ∃ r < s.nbObjects, s'.reasons (l / 2) = some r
  levels : ∀ l ∈ s.trail, s'.levels (l / 2) = s.levels (l / 2)
  reasons : ∀ l ∈ s.trail, s'.reasons (l / 2) = s.reasons (l / 2)
  model : ∀ v, s'.model v = none → s.model v = none
  perm : ∀ r, (s'.lits r).Perm (s.lits r)

theorem Propagated.refl (s : Solver) : Propagated s s where
  constants := .refl s
  nbObjects := rfl
  decisionLevel := rfl
  cnfFormula := rfl
  seen := rfl
  nextRestart := rfl
  grown := ⟨[], rfl, fun _ member => nomatch member⟩
  levels _ _ := rfl
  reasons _ _ := rfl
  model _ := id
  perm _ := List.Perm.refl _

theorem Propagated.subset (propagated : Propagated s s') : s.trail ⊆ s'.trail := by
  obtain ⟨new, trail, _⟩ := propagated.grown
  exact trail ▸ List.subset_append_right new s.trail

theorem Propagated.trans {s'' : Solver} (first : Propagated s s') (second : Propagated s' s'') :
    Propagated s s'' where
  constants := first.constants.trans second.constants
  nbObjects := second.nbObjects.trans first.nbObjects
  decisionLevel := second.decisionLevel.trans first.decisionLevel
  cnfFormula := second.cnfFormula.trans first.cnfFormula
  seen := second.seen.trans first.seen
  nextRestart := second.nextRestart.trans first.nextRestart
  grown := by
    obtain ⟨new, trail, level⟩ := first.grown
    obtain ⟨new', trail', level'⟩ := second.grown
    refine ⟨new' ++ new, by rw [trail', trail, List.append_assoc], fun l member => ?_⟩
    rcases List.mem_append.mp member with late | early
    · rw [← first.decisionLevel, ← first.nbObjects]
      exact level' l late
    · have known : l ∈ s'.trail := trail ▸ List.mem_append_left _ early
      rw [second.levels l known, second.reasons l known]
      exact level l early
  levels l member := (second.levels l (first.subset member)).trans (first.levels l member)
  reasons l member := (second.reasons l (first.subset member)).trans (first.reasons l member)
  model v free := first.model v (second.model v free)
  perm r := (second.perm r).trans (first.perm r)

/-- Only the trail and what is said about it count. -/
theorem Propagated.update (propagated : Propagated s s') (watched : ℕ → List ClauseRef) (qHead : ℕ)
    (status : Status) (conflict : Option ClauseRef) : Propagated s { s' with
      watched := watched
      qHead := qHead
      status := status
      conflict := conflict } where
  constants := propagated.constants.trans ⟨rfl, rfl, rfl, rfl, rfl⟩
  nbObjects := propagated.nbObjects
  decisionLevel := propagated.decisionLevel
  cnfFormula := propagated.cnfFormula
  seen := propagated.seen
  nextRestart := propagated.nextRestart
  grown := propagated.grown
  levels := propagated.levels
  reasons := propagated.reasons
  model := propagated.model
  perm := propagated.perm

theorem Assigned.propagated_assign (assigned : Assigned F s) (free : s.model (l / 2) = none)
    (known : r < s.nbObjects) : Propagated s (s.assign l (some r)) where
  constants := ⟨rfl, rfl, rfl, rfl, rfl⟩
  nbObjects := rfl
  decisionLevel := rfl
  cnfFormula := rfl
  seen := rfl
  nextRestart := rfl
  grown := by
    refine ⟨[l], rfl, fun k member => ?_⟩
    rw [List.mem_singleton.mp member, assign_levels, assign_reasons, Function.update_self,
      Function.update_self]
    exact ⟨rfl, r, known, rfl⟩
  levels k member := by
    have other : k / 2 ≠ l / 2 := fun same => (assigned.free_iff.mp (same ▸ free)).1 member
    rw [assign_levels, Function.update_of_ne other]
  reasons k member := by
    have other : k / 2 ≠ l / 2 := fun same => (assigned.free_iff.mp (same ▸ free)).1 member
    rw [assign_reasons, Function.update_of_ne other]
  model v unassigned := by
    by_cases same : v = l / 2
    · exact same ▸ free
    · rwa [assign_model, Function.update_of_ne same] at unassigned
  perm r' := by rw [lits_assign]

theorem Assumed.propagated (assumed : Assumed s) (propagated : Propagated s s') : Assumed s' where
  inside := by
    rw [propagated.constants.assumptions, propagated.constants.nbVars]
    exact assumed.inside
  held i p isNext inside := by
    rw [propagated.constants.assumptions] at isNext
    rw [propagated.decisionLevel] at inside
    have ⟨holds, level⟩ := assumed.held i p isNext inside
    rw [propagated.levels p holds]
    exact ⟨propagated.subset holds, level⟩
  decisions l member none positive low := by
    rw [propagated.constants.assumptions] at low ⊢
    obtain ⟨new, trail, isNew⟩ := propagated.grown
    rw [trail] at member
    rcases List.mem_append.mp member with late | early
    · obtain ⟨_, r, _, isReason⟩ := isNew l late
      rw [none] at isReason
      cases isReason
    · rw [propagated.levels l early] at positive low
      rw [propagated.reasons l early] at none
      exact assumed.decisions l early none positive low
  filled level high low := by
    rw [propagated.constants.assumptions] at high
    rw [propagated.decisionLevel] at low
    obtain ⟨l, member, same⟩ := assumed.filled level high low
    exact ⟨l, propagated.subset member, (propagated.levels l member).trans same⟩

/-- Propagation keeps all of this. -/
theorem Going.propagated (going : Going F s f) (propagated : Propagated s s') (database : Database F s' f) :
    Going F s' f where
  formula := propagated.cnfFormula.trans going.formula
  database := database
  covers c member := (going.covers c member).mono
    (fun l holds low => ⟨propagated.subset holds, (propagated.levels l holds).trans_le low⟩) rfl
    fun r _ => (propagated.perm r).subset
  queued := by
    obtain ⟨C, holding, inQueue⟩ := going.queued
    have vars := propagated.constants.nbVars
    exact ⟨C, vars ▸ holding, fun v inside free => inQueue v (vars ▸ inside) (propagated.model v free)⟩
  unseen v := (congrFun propagated.seen v).trans (going.unseen v)
  noRestart := propagated.nextRestart.trans going.noRestart
  known l member r isReason := by
    rw [propagated.nbObjects]
    obtain ⟨new, trail, isNew⟩ := propagated.grown
    rw [trail] at member
    rcases List.mem_append.mp member with late | early
    · obtain ⟨_, r', known, isReason'⟩ := isNew l late
      rw [isReason] at isReason'
      cases isReason'
      exact known
    · rw [propagated.reasons l early] at isReason
      exact going.known l early r isReason
  assumed := going.assumed.propagated propagated
  notEmpty empty := by
    rw [propagated.constants.assumptions, propagated.decisionLevel]
    exact going.notEmpty empty

section Visit

variable {forced first : ℕ} {early rest : List ℕ} {kept ws : List ClauseRef}

theorem newWatcher_some {negatedLit : ℕ} {rest rest' : List ℕ}
    (found : s.newWatcher negatedLit rest = some (l, rest')) :
    l ∈ rest ∧ (l :: rest').Perm (negatedLit :: rest) ∧ (s.isUnassigned l = true ∨ s.isSat l = true) := by
  induction rest generalizing rest' with
  | nil => cases found
  | cons k rest ih =>
      rw [newWatcher] at found
      split at found
      next usable =>
        cases found
        exact ⟨List.mem_cons_self, List.Perm.swap _ _ _, by simpa using usable⟩
      next =>
        obtain ⟨⟨watcher, others⟩, inner, same⟩ := Option.map_eq_some_iff.mp found
        cases same
        have ⟨member, perm, usable⟩ := ih inner
        refine ⟨List.mem_cons_of_mem _ member, ?_, usable⟩
        exact (List.Perm.swap k l others).trans ((perm.cons k).trans (List.Perm.swap negatedLit k rest))

theorem newWatcher_none (assigned : Assigned F s) {negatedLit : ℕ} {rest : List ℕ}
    (nothing : s.newWatcher negatedLit rest = none) : ∀ l ∈ rest, neg l ∈ s.trail := by
  induction rest with
  | nil => exact fun l member => nomatch member
  | cons k rest ih =>
      rw [newWatcher] at nothing
      split at nothing
      next => cases nothing
      next useless =>
        rw [Option.map_eq_none_iff] at nothing
        rw [Bool.or_eq_true, not_or, isUnassigned_iff, assigned.model, assigned.model] at useless
        refine List.forall_mem_cons.mpr ⟨?_, ih nothing⟩
        tauto

/-- In the middle of the list of clauses where the negation of `forced` is watched. -/
structure Visiting (F : List (List ℕ)) (f : CNFFormula) (forced : ℕ) (early : List ℕ) (s : Solver)
    (kept ws : List ClauseRef) : Prop where
  assigned : Assigned F s
  database : Database F (s.withList (neg forced) (kept ++ ws)) f
  trail : ∃ late, s.trail = late ++ forced :: early ∧ ∀ l ∈ late, s.levels (l / 2) = s.decisionLevel
  level : s.levels (forced / 2) = s.decisionLevel
  before : ∀ r ∈ f.originalClauses, s.Quiet early (s.lits r)
  after : ∀ r ∈ f.originalClauses, r ∉ ws → s.Quiet (forced :: early) (s.lits r)

/-- The clause `r` is false. -/
structure Clash (F : List (List ℕ)) (f : CNFFormula) (s : Solver) : Prop where
  assigned : Assigned F s
  settled : s.Settled f
  status : s.status = .conflict
  qHead : s.qHead = s.trail.length
  clause : ∃ r ∈ f.originalClauses ++ f.learntClauses, s.conflict = some r ∧
    (∀ l ∈ s.lits r, neg l ∈ s.trail) ∧ ∃ l ∈ s.lits r, s.levels (l / 2) = s.decisionLevel

/-- How the visit of the clause at the front of `ws` may end. -/
def Visited (F : List (List ℕ)) (f : CNFFormula) (forced : ℕ) (early : List ℕ) (s : Solver)
    (kept : List ClauseRef) (r : ClauseRef) (ws : List ClauseRef) : Visit → Prop
  | .keep s' => Visiting F f forced early s' (kept ++ [r]) ws ∧ Propagated s s' ∧ s'.qHead = s.qHead ∧
      s'.status = s.status
  | .drop s' => Visiting F f forced early s' kept ws ∧ Propagated s s' ∧ s'.qHead = s.qHead ∧
      s'.status = s.status
  | .conflict s' => Clash F f s' ∧ Propagated s s' ∧
      Database F (s'.withList (neg forced) (kept ++ r :: ws)) f

theorem Visiting.forced_mem (visiting : Visiting F f forced early s kept ws) : forced ∈ s.trail := by
  obtain ⟨late, trail, _⟩ := visiting.trail
  simp [trail]

theorem Visiting.early_subset (visiting : Visiting F f forced early s kept ws) :
    forced :: early ⊆ s.trail := by
  obtain ⟨late, trail, _⟩ := visiting.trail
  exact trail ▸ List.subset_append_right late _

theorem Visiting.formed (visiting : Visiting F f forced early s kept (r :: ws)) :
    r ∈ f.originalClauses ++ f.learntClauses ∧ Formed F s r := by
  have listed : r ∈ (s.withList (neg forced) (kept ++ r :: ws)).watched (neg forced) := by
    simp [withList]
  have inBase := (visiting.database.watching _ r listed).1
  exact ⟨inBase, (visiting.database.formed r inBase).perm (le_refl _) rfl (List.Perm.refl _)⟩

/-- The first literal is true, so the clause stays. -/
theorem Visiting.keep (visiting : Visiting F f forced early s kept (r :: ws))
    (lits : s.lits r = first :: neg forced :: rest) (sat : first ∈ s.trail) :
    Visiting F f forced early s (kept ++ [r]) ws where
  assigned := visiting.assigned
  database := by
    rw [List.append_assoc]
    exact visiting.database
  trail := visiting.trail
  level := visiting.level
  before := visiting.before
  after r' member notLater := by
    by_cases same : r' = r
    · subst same
      rw [lits]
      constructor
      · intro fails
        exact absurd (visiting.early_subset fails) (visiting.assigned.graph.neg_notMem sat)
      · intro _
        rw [var_neg, visiting.level]
        exact ⟨sat, visiting.assigned.level_le first sat⟩
    · exact visiting.after r' member (by simp [same, notLater])

/-- A clause with a literal that is not true is not a reason. -/
theorem Assigned.not_reason (assigned : Assigned F s) (lits : s.lits r = first :: rest)
    (notTrue : first ∉ s.trail) : ∀ k ∈ s.trail, s.reasons (k / 2) ≠ some r := by
  intro k member isReason
  obtain ⟨late, early, trail⟩ := List.append_of_mem member
  have same : s.reasonLits (k / 2) = some (first :: rest) := by rw [reasonLits, isReason, ← lits]; rfl
  cases assigned.graph.cause k early (trail ▸ List.suffix_append late _) with
  | fact _ none _ | decision _ none _ => rw [none] at same; cases same
  | implied others some _ _ =>
      rw [some] at same
      cases same
      exact notTrue member

/-- Changing the literals of a clause that is not a reason. -/
theorem Assigned.sameTrail_setLits (assigned : Assigned F s) (lits : s.lits r = first :: rest)
    (notTrue : first ∉ s.trail) (lits' : List ℕ) : SameTrail s (s.setLits r lits') where
  trail := rfl
  model := rfl
  nbVars := rfl
  level := rfl
  levels := rfl
  reasons k member := by
    have notReason := assigned.not_reason lits notTrue k member
    have reasons : (s.setLits r lits').reasons = s.reasons := rfl
    rw [reasonLits, reasonLits, reasons]
    cases same : s.reasons (k / 2) with
    | none => rfl
    | some r' =>
        have other : r' ≠ r := fun equal => notReason (equal ▸ same)
        simp [other]

theorem Propagated.setLits {lits' : List ℕ} (perm : lits'.Perm (s.lits r)) :
    Propagated s (s.setLits r lits') where
  constants := ⟨rfl, rfl, rfl, rfl, rfl⟩
  nbObjects := rfl
  decisionLevel := rfl
  cnfFormula := rfl
  seen := rfl
  nextRestart := rfl
  grown := ⟨[], rfl, fun _ member => nomatch member⟩
  levels _ _ := rfl
  reasons _ _ := rfl
  model _ := id
  perm r' := by
    rw [lits_setLits]
    split_ifs with same
    · exact same ▸ perm
    · exact List.Perm.refl _

/-- The clause gets another literal to watch. -/
theorem Visiting.drop (visiting : Visiting F f forced early s kept (r :: ws))
    (lits : s.lits r = first :: neg forced :: rest) (notTrue : first ∉ s.trail) {rest' : List ℕ}
    (inRest : l ∈ rest) (perm : (l :: rest').Perm (neg forced :: rest)) (notFalse : neg l ∉ s.trail) :
    Visiting F f forced early ((s.setLits r (first :: l :: rest')).watch l r) kept ws := by
  have ⟨inBase, formed⟩ := visiting.formed
  have distinct := formed.nodup
  rw [lits] at distinct
  have notForced : first ≠ neg forced := fun same => by simp [same] at distinct
  have newLits : ∀ r', ((s.setLits r (first :: l :: rest')).watch l r).lits r' =
      if r' = r then first :: l :: rest' else s.lits r' := fun r' => lits_setLits s r r' _
  have others : ∀ early' r', r' ≠ r → s.Quiet early' (s.lits r') →
      Quiet ((s.setLits r (first :: l :: rest')).watch l r) early'
        (((s.setLits r (first :: l :: rest')).watch l r).lits r') := by
    intro early' r' other quiet
    rw [newLits, if_neg other]
    exact quiet.congr rfl rfl
  have moved : r ∈ f.originalClauses →
      Quiet ((s.setLits r (first :: l :: rest')).watch l r) (forced :: early)
        (((s.setLits r (first :: l :: rest')).watch l r).lits r) := by
    intro original
    have quiet := visiting.before r original
    rw [lits] at quiet
    rw [newLits, if_pos rfl]
    constructor
    · intro fails
      -- if `first` was false before `forced`, then `neg forced` would be true
      rcases List.mem_cons.mp fails with same | inEarly
      · exact absurd (by rw [← same, neg_twice]) notForced
      · exact absurd (quiet.1 inEarly).1 (visiting.assigned.graph.neg_notMem visiting.forced_mem)
    · intro fails
      exact absurd (visiting.early_subset fails) notFalse
  constructor
  · exact (visiting.assigned.congr (visiting.assigned.sameTrail_setLits lits notTrue _)).congr
      ⟨rfl, rfl, rfl, rfl, rfl, fun _ _ => rfl⟩
  · exact visiting.database.move lits inRest perm
  · exact visiting.trail
  · exact visiting.level
  · intro r' original
    by_cases same : r' = r
    · subst same
      exact (moved original).shrink (List.subset_cons_self _ _)
    · exact others early r' same (visiting.before r' original)
  · intro r' original notLater
    by_cases same : r' = r
    · subst same
      exact moved original
    · exact others _ r' same (visiting.after r' original (by simp [same, notLater]))

/-- The first literal is the only one that is not false. -/
theorem Visiting.assign (visiting : Visiting F f forced early s kept (r :: ws))
    (lits : s.lits r = first :: neg forced :: rest) (free : s.model (first / 2) = none)
    (fails : ∀ k ∈ rest, neg k ∈ s.trail) :
    Visiting F f forced early (s.assign first (some r)) (kept ++ [r]) ws := by
  have ⟨inBase, formed⟩ := visiting.formed
  have propagated := visiting.assigned.propagated_assign free formed.known
  have negated : ∀ k ∈ neg forced :: rest, neg k ∈ s.trail :=
    List.forall_mem_cons.mpr ⟨by simpa using visiting.forced_mem, fails⟩
  have inside := formed.inside first (lits ▸ List.mem_cons_self)
  have assigned := visiting.assigned.assign free inside
    (.implied r (neg forced :: rest) lits negated (lits ▸ formed.entails))
  have forcedLevel : (s.assign first (some r)).levels (forced / 2) = s.decisionLevel :=
    (propagated.levels forced visiting.forced_mem).trans visiting.level
  constructor
  · exact assigned
  · rw [List.append_assoc]
    have lits : (s.assign first (some r)).lits = s.lits := lits_assign
    exact visiting.database.congr lits rfl (le_refl _) rfl
  · obtain ⟨late, trail, level⟩ := visiting.trail
    refine ⟨first :: late, by rw [assign_trail, trail]; rfl, List.forall_mem_cons.mpr ⟨?_, ?_⟩⟩
    · rw [assign_levels, Function.update_self, assign_decisionLevel]
    · intro k member
      rw [propagated.levels k (trail ▸ List.mem_append_left _ member), propagated.decisionLevel]
      exact level k member
  · exact forcedLevel
  · intro r' original
    rw [lits_assign]
    exact (visiting.before r' original).grow
      (List.Subset.trans (List.subset_cons_self _ _) visiting.early_subset) propagated.subset
      propagated.levels
  · intro r' original notLater
    rw [lits_assign]
    by_cases same : r' = r
    · subst same
      rw [lits]
      have here : first ∈ (s.assign first (some r')).trail := by simp
      constructor
      · intro fails
        exact absurd (propagated.subset (visiting.early_subset fails)) (assigned.graph.neg_notMem here)
      · intro _
        rw [var_neg, forcedLevel]
        exact ⟨here, assigned.level_le first here⟩
    · exact (visiting.after r' original (by simp [same, notLater])).grow visiting.early_subset
        propagated.subset propagated.levels

theorem Visiting.clash (visiting : Visiting F f forced early s kept (r :: ws))
    (lits : s.lits r = first :: neg forced :: rest) (fails : ∀ k ∈ s.lits r, neg k ∈ s.trail) :
    Clash F f { s with status := .conflict, qHead := s.trail.length, conflict := some r } where
  assigned := visiting.assigned.congr ⟨rfl, rfl, rfl, rfl, rfl, fun _ _ => rfl⟩
  settled := by
    obtain ⟨late, trail, level⟩ := visiting.trail
    refine ⟨late ++ [forced], early, by simp [trail], fun l member => ?_, fun r' original => ?_⟩
    · rcases List.mem_append.mp member with inLate | last
      · exact level l inLate
      · rw [List.mem_singleton.mp last]
        exact visiting.level
    · exact (visiting.before r' original).congr rfl rfl
  status := rfl
  qHead := rfl
  clause := by
    refine ⟨r, visiting.formed.1, rfl, fails, neg forced, ?_, ?_⟩
    · show neg forced ∈ s.lits r
      simp [lits]
    · rw [var_neg]
      exact visiting.level

theorem moveWatch_returns (visiting : Visiting F f forced early s kept (r :: ws))
    (lits : s.lits r = first :: neg forced :: rest) :
    ∃ v, s.moveWatch (neg forced) r first rest = some v ∧ Visited F f forced early s kept r ws v := by
  unfold moveWatch
  have assigned := visiting.assigned
  by_cases sat : s.isSat first = true
  · have isAssigned := assigned.isAssigned_iff.mpr (.inl ((assigned.model first).mp sat))
    rw [if_pos (by simp [isAssigned, sat])]
    exact ⟨_, rfl, visiting.keep lits ((assigned.model first).mp sat), .refl s, rfl, rfl⟩
  · rw [if_neg (by simp [sat])]
    have notTrue : first ∉ s.trail := fun member => sat ((assigned.model first).mpr member)
    match found : s.newWatcher (neg forced) rest with
    | some (l, rest') =>
        obtain ⟨inRest, perm, usable⟩ := newWatcher_some found
        have notFalse : neg l ∉ s.trail := by
          rw [isUnassigned_iff, assigned.model, assigned.model] at usable
          rcases usable with ⟨_, free⟩ | holds
          · exact free
          · exact assigned.graph.neg_notMem holds
        refine ⟨_, rfl, visiting.drop lits notTrue inRest perm notFalse, ?_, rfl, rfl⟩
        have propagated : Propagated s (s.setLits r (first :: l :: rest')) :=
          .setLits (lits ▸ perm.cons first)
        exact propagated.update _ _ _ _
    | none =>
        have fails := newWatcher_none assigned found
        by_cases free : s.model (first / 2) = none
        · have unassigned : s.isUnassigned first = true := by simp [isUnassigned, free]
          simp only [unassigned, if_true, enqueueLiteral, free]
          exact ⟨_, rfl, visiting.assign lits free fails,
            assigned.propagated_assign free visiting.formed.2.known, rfl, rfl⟩
        · have notFree : s.isUnassigned first = false := by
            rw [isUnassigned, Option.isNone_eq_false_iff, Option.isSome_iff_ne_none]
            exact free
          have unsat : neg first ∈ s.trail := by
            rw [assigned.free_iff] at free
            tauto
          have all : ∀ k ∈ s.lits r, neg k ∈ s.trail := by
            rw [lits]
            refine List.forall_mem_cons.mpr ⟨unsat, List.forall_mem_cons.mpr ⟨?_, fails⟩⟩
            rw [neg_twice]
            exact visiting.forced_mem
          have checked : (s.lits r).all s.isUnsat = true :=
            List.all_eq_true.mpr fun k member => assigned.isUnsat_iff.mpr (all k member)
          have isUnsat := assigned.isUnsat_iff.mpr unsat
          simp only [notFree, isUnsat, checked, if_true, Bool.false_eq_true, if_false]
          refine ⟨_, rfl, visiting.clash lits all, ?_, ?_⟩
          · exact (Propagated.refl s).update _ _ _ _
          · exact visiting.database.congr rfl rfl (le_refl _) rfl

/-- The first two literals of the clause change places. -/
theorem Visiting.swap {a : ℕ} (visiting : Visiting F f forced early s kept (r :: ws))
    (lits : s.lits r = neg forced :: a :: rest) :
    Visiting F f forced early (s.setLits r (a :: neg forced :: rest)) kept (r :: ws) := by
  have notTrue : neg forced ∉ s.trail := visiting.assigned.graph.neg_notMem visiting.forced_mem
  have quiet : ∀ early' r', s.Quiet early' (s.lits r') →
      Quiet (s.setLits r (a :: neg forced :: rest)) early'
        ((s.setLits r (a :: neg forced :: rest)).lits r') := by
    intro early' r' before
    rw [lits_setLits]
    split_ifs with same
    · subst same
      rw [lits] at before
      exact Quiet.congr before.swap rfl rfl
    · exact before.congr rfl rfl
  constructor
  · exact visiting.assigned.congr (visiting.assigned.sameTrail_setLits lits notTrue _)
  · exact Database.swap (s := s.withList (neg forced) (kept ++ r :: ws)) visiting.database lits
  · exact visiting.trail
  · exact visiting.level
  · exact fun r' original => quiet early r' (visiting.before r' original)
  · exact fun r' original notLater => quiet _ r' (visiting.after r' original notLater)

theorem Visited.of_propagated {v : Visit} {s₁ : Solver} (propagated : Propagated s s₁)
    (qHead : s₁.qHead = s.qHead) (status : s₁.status = s.status)
    (visited : Visited F f forced early s₁ kept r ws v) : Visited F f forced early s kept r ws v := by
  match v, visited with
  | .keep s', ⟨visiting, later, head, state⟩ =>
      exact ⟨visiting, propagated.trans later, head.trans qHead, state.trans status⟩
  | .drop s', ⟨visiting, later, head, state⟩ =>
      exact ⟨visiting, propagated.trans later, head.trans qHead, state.trans status⟩
  | .conflict s', ⟨clash, later, database⟩ => exact ⟨clash, propagated.trans later, database⟩

theorem visit_returns (visiting : Visiting F f forced early s kept (r :: ws)) :
    ∃ v, s.visit (neg forced) r = some v ∧ Visited F f forced early s kept r ws v := by
  obtain ⟨a, b, rest, lits⟩ := visiting.formed.2.split
  have listed : r ∈ (s.withList (neg forced) (kept ++ r :: ws)).watched (neg forced) := by
    simp [withList]
  have watches := (watches_iff lits).mp (visiting.database.watching _ r listed).2
  simp only [visit, lits]
  -- the source wants the false literal in the second position
  by_cases second : b = neg forced
  · rw [if_pos second]
    exact moveWatch_returns visiting (second ▸ lits)
  · have first : a = neg forced := (watches.resolve_right (Ne.symm second)).symm
    rw [if_neg second, if_pos first]
    have swapped := visiting.swap (first ▸ lits)
    have lits' : (s.setLits r (b :: neg forced :: rest)).lits r = b :: neg forced :: rest := by simp
    obtain ⟨v, same, visited⟩ := moveWatch_returns swapped lits'
    refine ⟨v, same, visited.of_propagated (.setLits ?_) rfl rfl⟩
    rw [lits, first]
    exact List.Perm.swap _ _ _

/-- What is known after all clauses were visited. -/
def AllVisited (F : List (List ℕ)) (f : CNFFormula) (forced : ℕ) (early : List ℕ) (s s' : Solver) : Prop :=
  Propagated s s' ∧ Database F s' f ∧ (Clash F f s' ∨
    (Visiting F f forced early s' (s'.watched (neg forced)) [] ∧ s'.qHead = s.qHead ∧ s'.status = s.status))

theorem AllVisited.of_propagated {s₁ : Solver} (propagated : Propagated s s₁) (qHead : s₁.qHead = s.qHead)
    (status : s₁.status = s.status) (all : AllVisited F f forced early s₁ s') :
    AllVisited F f forced early s s' := by
  obtain ⟨later, database, outcome⟩ := all
  refine ⟨propagated.trans later, database, outcome.imp_right ?_⟩
  rintro ⟨visiting, head, state⟩
  exact ⟨visiting, head.trans qHead, state.trans status⟩

theorem visitAll_returns (visiting : Visiting F f forced early s kept ws) :
    ∃ s', visitAll (neg forced) kept ws s = some s' ∧ AllVisited F f forced early s s' := by
  induction ws generalizing s kept with
  | nil =>
      have database := visiting.database
      rw [List.append_nil] at database
      refine ⟨s.withList (neg forced) kept, rfl, ?_, database, .inr ⟨?_, rfl, rfl⟩⟩
      · exact (Propagated.refl s).update _ _ _ _
      · have same : ((s.withList (neg forced) kept).withList (neg forced)
            ((s.withList (neg forced) kept).watched (neg forced) ++ [])) =
            s.withList (neg forced) kept := by simp [withList]
        exact ⟨visiting.assigned.congr ⟨rfl, rfl, rfl, rfl, rfl, fun _ _ => rfl⟩,
          by rw [same]; exact database, visiting.trail, visiting.level, fun r original =>
            (visiting.before r original).congr rfl rfl,
          fun r original notLater => (visiting.after r original notLater).congr rfl rfl⟩
  | cons r ws ih =>
      obtain ⟨v, visit, visited⟩ := visit_returns visiting
      simp only [visitAll, visit, Option.bind_eq_bind, Option.bind_some]
      cases v with
      | keep s₁ =>
          obtain ⟨next, propagated, qHead, status⟩ := visited
          obtain ⟨s', result, all⟩ := ih next
          exact ⟨s', result, all.of_propagated propagated qHead status⟩
      | drop s₁ =>
          obtain ⟨next, propagated, qHead, status⟩ := visited
          obtain ⟨s', result, all⟩ := ih next
          exact ⟨s', result, all.of_propagated propagated qHead status⟩
      | conflict s₁ =>
          obtain ⟨clash, propagated, database⟩ := visited
          refine ⟨s₁.withList (neg forced) (kept ++ r :: ws), rfl, ?_, database, .inl ?_⟩
          · exact propagated.update _ _ _ _
          · obtain ⟨late, early', trail, level, quiet⟩ := clash.settled
            exact ⟨clash.assigned.congr ⟨rfl, rfl, rfl, rfl, rfl, fun _ _ => rfl⟩,
              ⟨late, early', trail, level, fun r original => (quiet r original).congr rfl rfl⟩,
              clash.status, clash.qHead, clash.clause⟩

end Visit

theorem Assigned.length_le (assigned : Assigned F s) : s.trail.length ≤ s.nbVars := by
  have inRange : s.trail.map (· / 2) ⊆ List.range s.nbVars := fun v member => by
    obtain ⟨l, inTrail, rfl⟩ := List.mem_map.mp member
    exact List.mem_range.mpr (assigned.inside l inTrail)
  simpa using (assigned.graph.distinct.subperm inRange).length_le

/-- The literals from `qHead` on are still to be looked at. All of them are of the last level. -/
structure Pending (F : List (List ℕ)) (f : CNFFormula) (s : Solver) : Prop where
  assigned : Assigned F s
  split : ∃ late early, s.trail = late ++ early ∧ early.length = s.qHead ∧
    (∀ l ∈ late, s.levels (l / 2) = s.decisionLevel) ∧ ∀ r ∈ f.originalClauses, s.Quiet early (s.lits r)

theorem deduceRound_returns (pending : Pending F f s) (database : Database F s f)
    (more : s.qHead < s.trail.length) :
    ∃ s', s.deduceRound = some s' ∧ Propagated s s' ∧ Database F s' f ∧
      (Clash F f s' ∨ (Pending F f s' ∧ s'.qHead = s.qHead + 1 ∧ s'.status = s.status)) := by
  obtain ⟨assigned, late, early, trail, processed, level, quiet⟩ := pending
  obtain ⟨late, forced, rfl⟩ : ∃ late' forced, late = late' ++ [forced] := by
    rcases List.eq_nil_or_concat late with rfl | ⟨late', forced, same⟩
    · rw [trail, List.nil_append, processed] at more
      omega
    · exact ⟨late', forced, by rw [same, List.concat_eq_append]⟩
  rw [List.append_assoc, List.singleton_append] at trail
  have inTrail : forced ∈ s.trail := by simp [trail]
  have here : s.trail.reverse[s.qHead]? = some forced := by
    rw [trail, List.reverse_append, List.reverse_cons, List.append_assoc, ← processed,
      List.getElem?_append_right (by simp)]
    simp
  have isAssigned : s.isAssigned (neg forced) = true :=
    assigned.isAssigned_iff.mpr (.inr (by rwa [neg_twice]))
  have visiting : Visiting F f forced early { s with qHead := s.qHead + 1 } []
      (s.watched (neg forced)) := by
    constructor
    · exact assigned.congr ⟨rfl, rfl, rfl, rfl, rfl, fun _ _ => rfl⟩
    · have same : ({ s with qHead := s.qHead + 1 }).withList (neg forced) ([] ++ s.watched (neg forced)) =
          { s with qHead := s.qHead + 1 } := by simp [withList]
      rw [same]
      exact database.congr rfl rfl (le_refl _) rfl
    · exact ⟨late, trail, fun l member => level l (List.mem_append_left _ member)⟩
    · exact level forced (by simp)
    · exact fun r original => (quiet r original).congr rfl rfl
    -- a clause that is not in the list does not watch `neg forced`, so nothing changes for it
    · intro r original notListed
      obtain ⟨a, b, rest, lits⟩ := (database.formed r (List.mem_append_left _ original)).split
      have notWatched : ¬ s.Watches r (neg forced) := fun watches =>
        notListed (database.attached r original _ watches)
      rw [watches_iff lits, not_or] at notWatched
      have before := quiet r original
      show Quiet _ (forced :: early) (s.lits r)
      rw [lits] at before ⊢
      refine Quiet.congr (before.cons_other ?_ ?_) rfl rfl
      · exact fun same => notWatched.1 (by rw [← same, neg_twice])
      · exact fun same => notWatched.2 (by rw [← same, neg_twice])
  obtain ⟨s', result, propagated, database', outcome⟩ := visitAll_returns visiting
  have first : Propagated s { s with qHead := s.qHead + 1 } := (Propagated.refl s).update _ _ _ _
  refine ⟨s', by simp [deduceRound, here, isAssigned, result], first.trans propagated, database',
    outcome.imp_right ?_⟩
  rintro ⟨done, qHead, status⟩
  refine ⟨⟨done.assigned, ?_⟩, qHead, status⟩
  obtain ⟨late', trail', level'⟩ := done.trail
  refine ⟨late', forced :: early, trail', by rw [qHead, List.length_cons, processed], level', ?_⟩
  exact fun r original => done.after r original List.not_mem_nil

/-- The clauses are quiet about all of the trail. -/
structure Complete (F : List (List ℕ)) (f : CNFFormula) (s : Solver) : Prop where
  assigned : Assigned F s
  qHead : s.qHead = s.trail.length
  quiet : ∀ r ∈ f.originalClauses, s.Quiet s.trail (s.lits r)

theorem deduce_returns (pending : Pending F f s) (database : Database F s f) {fuel : ℕ}
    (enough : s.nbVars ≤ fuel) :
    ∃ s', s.deduce fuel = some s' ∧ Propagated s s' ∧ Database F s' f ∧
      (Clash F f s' ∨ (Complete F f s' ∧ s'.status = s.status)) := by
  let inv (s' : Solver) : Prop := Propagated s s' ∧ Database F s' f ∧
    (Clash F f s' ∨ (Pending F f s' ∧ s'.status = s.status))
  have step : ∀ s₁, inv s₁ → decide (s₁.qHead < s₁.trail.length) = true →
      ∃ s₂, s₁.deduceRound = some s₂ ∧ inv s₂ ∧ s.nbVars - s₂.qHead < s.nbVars - s₁.qHead := by
    rintro s₁ ⟨before, base, outcome⟩ goes
    have more : s₁.qHead < s₁.trail.length := by simpa using goes
    rcases outcome with clash | ⟨pending, status⟩
    · exact absurd clash.qHead more.ne
    · obtain ⟨s₂, round, propagated, base', outcome⟩ := deduceRound_returns pending base more
      have short := pending.assigned.length_le
      rw [before.constants.nbVars] at short
      refine ⟨s₂, round, ⟨before.trans propagated, base', ?_⟩, ?_⟩
      · exact outcome.imp_right fun ⟨next, _, state⟩ => ⟨next, state.trans status⟩
      -- after a conflict `qHead` is at the end of the trail
      · rcases outcome with clash | ⟨_, qHead, _⟩
        · obtain ⟨new, trail, _⟩ := propagated.grown
          rw [clash.qHead, trail, List.length_append]
          omega
        · rw [qHead]
          omega
  obtain ⟨s', result, ⟨propagated, database', outcome⟩, stops⟩ := loop_returns _ _ inv _ step
    ⟨.refl s, database, .inr ⟨pending, rfl⟩⟩ ((Nat.sub_le _ _).trans enough)
  refine ⟨s', result, propagated, database', outcome.imp_right fun ⟨done, status⟩ => ⟨?_, status⟩⟩
  obtain ⟨assigned, late, early, trail, processed, level, quiet⟩ := done
  have all : s'.trail.length ≤ s'.qHead := by simpa using stops
  have noMore : late = [] := by
    rw [trail, List.length_append, processed] at all
    exact List.eq_nil_of_length_eq_zero (by omega)
  subst noMore
  rw [List.nil_append] at trail
  refine ⟨assigned, by rw [← processed, trail], fun r original => ?_⟩
  rw [trail]
  exact quiet r original

end Renaissance.CafeSat.Solver
