import Renaissance.ScalaSat.LearntClauses

/-!
# Going back after a conflict

`backtrackTo` takes the literals above a level from the trail, and their variables come back to the queue.
`backtrack_returns`: after a conflict the solver knows that the clauses cannot be satisfied, or it has
learnt a clause, has gone back to an earlier level, and has a literal more there.
-/

namespace Renaissance.CafeSat.Solver

open Clauses FixedIntDoublePriorityQueue ImplicationGraph WhileLoop

variable {F : List (List ℕ)} {s s' : Solver} {f : CNFFormula} {l : ℕ} {r : ClauseRef} {lvl : ℤ}

section BacktrackTo

/-- What is left of `s` when some literals above `lvl` are gone. -/
structure BackAt (f : CNFFormula) (lvl : ℤ) (s s' : Solver) : Prop where
  constants : Constants s s'
  nbObjects : s'.nbObjects = s.nbObjects
  watched : s'.watched = s.watched
  seen : s'.seen = s.seen
  status : s'.status = s.status
  nextRestart : s'.nextRestart = s.nextRestart
  lits : s'.lits = s.lits
  trail : ∃ late, s.trail = late ++ s'.trail ∧ ∀ l ∈ late, lvl < s.levels (l / 2)
  levels : ∀ l ∈ s'.trail, s'.levels (l / 2) = s.levels (l / 2)
  reasons : ∀ l ∈ s'.trail, s'.reasons (l / 2) = s.reasons (l / 2)
  model : ∀ l, s'.isSat l = true ↔ l ∈ s'.trail
  queue : ∃ q, s'.cnfFormula = some { f with vsidsQueue := q } ∧ s'.Queued { f with vsidsQueue := q }

theorem BackAt.suffix (back : BackAt f lvl s s') : s'.trail <:+ s.trail := by
  obtain ⟨late, trail, _⟩ := back.trail
  exact trail ▸ List.suffix_append late _

theorem BackAt.stays (back : BackAt f lvl s s') (member : l ∈ s.trail) (low : s.levels (l / 2) ≤ lvl) :
    l ∈ s'.trail := by
  obtain ⟨late, trail, above⟩ := back.trail
  rw [trail] at member
  rcases List.mem_append.mp member with inLate | inEarly
  · have := above l inLate
    omega
  · exact inEarly

/-- The solver that `undo` leaves. -/
def undone (s : Solver) (v : ℕ) (clauses : ℕ → Clause) (f : CNFFormula) : Solver :=
  { s with
    clauses := clauses
    cnfFormula := some { f with vsidsQueue := f.vsidsQueue.insert v }
    model := Function.update s.model v none
    levels := Function.update s.levels v (-1)
    reasons := Function.update s.reasons v none }

theorem isSat_undone {v : ℕ} {clauses : ℕ → Clause} :
    (s.undone v clauses f).isSat l = true ↔ l / 2 ≠ v ∧ s.isSat l = true := by
  by_cases same : l / 2 = v <;> simp [undone, isSat, same]

theorem undo_eq (sat : s.isSat l = true) (formula : s.cnfFormula = some f) :
    ∃ clauses, s.undo l = some (s.undone (l / 2) clauses f) ∧ ∀ r, (clauses r).lits = s.lits r := by
  cases reason : s.reasons (l / 2) with
  | none =>
      have same : Function.update s.reasons (l / 2) none = s.reasons :=
        Function.update_eq_self_iff.mpr reason.symm
      refine ⟨s.clauses, ?_, fun r => rfl⟩
      simp [undo, sat, formula, reason, undone, same]
  | some r =>
      refine ⟨(s.setLocked r false).clauses, ?_, fun r' => congrFun (lits_setLocked s r false) r'⟩
      simp [undo, sat, formula, reason, undone, setLocked, setClause]

theorem undo_returns {head : ℕ} {rest : List ℕ} (assigned : Assigned F s) (back : BackAt f lvl s s')
    (trail : s'.trail = head :: rest) (above : lvl < s.levels (head / 2)) (level : ℤ) :
    ∃ s₂, { s' with trail := rest, decisionLevel := level }.undo head = some s₂ ∧ BackAt f lvl s s₂ ∧
      s₂.trail = rest ∧ s₂.decisionLevel = level := by
  obtain ⟨q, formula, C, ⟨⟨g, represents⟩, size, nonneg⟩, inQueue⟩ := back.queue
  have sat : s'.isSat head = true := (back.model head).mpr (by simp [trail])
  obtain ⟨clauses, result, lits⟩ := undo_eq
    (s := { s' with trail := rest, decisionLevel := level }) sat formula
  have suffix : head :: rest <:+ s.trail := trail ▸ back.suffix
  have distinct := assigned.graph.distinct.sublist (suffix.sublist.map (· / 2))
  have others : ∀ l ∈ rest, l / 2 ≠ head / 2 := fun l member same =>
    (List.nodup_cons.mp distinct).1 (List.mem_map.mpr ⟨l, member, same⟩)
  have before : ∀ l ∈ rest, l ∈ s'.trail := fun l member => trail ▸ List.mem_cons_of_mem head member
  refine ⟨_, result, ?_, rfl, rfl⟩
  constructor
  · exact back.constants.trans ⟨rfl, rfl, rfl, rfl, rfl⟩
  · exact back.nbObjects
  · exact back.watched
  · exact back.seen
  · exact back.status
  · exact back.nextRestart
  · exact (funext lits).trans back.lits
  · obtain ⟨late, split, high⟩ := back.trail
    refine ⟨late ++ [head], by rw [split, trail]; simp [undone], fun l member => ?_⟩
    rcases List.mem_append.mp member with old | new
    · exact high l old
    · rw [List.mem_singleton.mp new]
      exact above
  · intro l member
    exact (Function.update_of_ne (others l member) _ _).trans (back.levels l (before l member))
  · intro l member
    exact (Function.update_of_ne (others l member) _ _).trans (back.reasons l (before l member))
  · intro l
    rw [isSat_undone]
    show _ ∧ s'.isSat l = true ↔ l ∈ rest
    rw [back.model, trail, List.mem_cons]
    constructor
    · rintro ⟨other, rfl | member⟩
      · exact absurd rfl other
      · exact member
    · exact fun member => ⟨others l member, .inr member⟩
  -- the variable is back in the queue, wherever it was
  · have inside : head / 2 < q.maxSize := by
      rw [size, back.constants.nbVars]
      exact assigned.inside head (suffix.subset List.mem_cons_self)
    have ⟨size', represents'⟩ := insert_represents represents inside
    refine ⟨q.insert (head / 2), rfl, C ∪ {head / 2}, ⟨⟨g, represents'⟩, size'.trans size, nonneg⟩,
      fun v inside free => ?_⟩
    by_cases same : v = head / 2
    · exact .inr same
    · exact .inl (inQueue v inside ((Function.update_of_ne same _ _).symm.trans free))

theorem backtrackTo_returns (assigned : Assigned F s) (formula : s.cnfFormula = some f)
    (queued : s.Queued f) (lvl : ℤ) {fuel : ℕ} (enough : s.nbVars + 1 ≤ fuel) :
    ∃ s', s.backtrackTo fuel lvl = some s' ∧ BackAt f lvl s s' ∧ s'.decisionLevel = lvl ∧
      s'.qHead = s'.trail.length ∧ ∀ l ∈ s'.trail, s.levels (l / 2) ≤ lvl := by
  let inv (s' : Solver) : Prop := BackAt f lvl s s' ∧
    (s'.decisionLevel ≤ lvl → ∀ l ∈ s'.trail, s.levels (l / 2) ≤ lvl)
  have step : ∀ s₁, inv s₁ → decide (lvl < s₁.decisionLevel ∧ s₁.trail ≠ []) = true →
      ∃ s₂, backtrackRound lvl s₁ = some s₂ ∧ inv s₂ ∧
        s₂.trail.length + (if lvl < s₂.decisionLevel then 1 else 0) <
          s₁.trail.length + (if lvl < s₁.decisionLevel then 1 else 0) := by
    rintro s₁ ⟨back, low⟩ goes
    have ⟨high, some'⟩ : lvl < s₁.decisionLevel ∧ s₁.trail ≠ [] := by simpa using goes
    obtain ⟨head, rest, trail⟩ := List.exists_cons_of_ne_nil some'
    have level : s₁.levels (head / 2) = s.levels (head / 2) := back.levels head (by simp [trail])
    by_cases above : lvl < s.levels (head / 2)
    · obtain ⟨s₂, result, back', trail', level'⟩ := undo_returns assigned back trail above (s.levels (head / 2))
      refine ⟨s₂, ?_, ⟨back', fun below => absurd above (by omega)⟩, ?_⟩
      · simp only [backtrackRound, trail, level, above, if_true, result]
      · rw [trail, trail', level', if_pos above, if_pos high, List.length_cons]
        omega
    · refine ⟨{ s₁ with decisionLevel := s.levels (head / 2) }, ?_, ⟨?_, fun below l member => ?_⟩, ?_⟩
      · simp only [backtrackRound, trail, level, above, if_false]
      · exact ⟨back.constants.trans ⟨rfl, rfl, rfl, rfl, rfl⟩, back.nbObjects, back.watched, back.seen,
          back.status, back.nextRestart, back.lits, back.trail, back.levels, back.reasons, back.model,
          back.queue⟩
      · have sorted := assigned.graph.sorted.sublist back.suffix.sublist
        have member : l ∈ head :: rest := trail ▸ member
        rw [trail] at sorted
        rcases List.mem_cons.mp member with rfl | later
        · exact not_lt.mp above
        · exact (List.rel_of_pairwise_cons sorted later).trans (not_lt.mp above)
      · simp only [if_neg above, if_pos high]
        omega
  have start : inv s := by
    refine ⟨⟨.refl s, rfl, rfl, rfl, rfl, rfl, rfl, ⟨[], rfl, fun _ member => nomatch member⟩, fun _ _ => rfl,
      fun _ _ => rfl, assigned.model, f.vsidsQueue, formula, queued⟩, fun below l member => ?_⟩
    exact (assigned.level_le l member).trans below
  have few : s.trail.length + (if lvl < s.decisionLevel then 1 else 0) ≤ fuel := by
    have short := assigned.length_le
    split_ifs <;> omega
  obtain ⟨s', result, ⟨back, low⟩, stops⟩ := loop_returns _ _ inv _ step start few
  refine ⟨{ s' with qHead := s'.trail.length, decisionLevel := lvl }, ?_, ?_, rfl, rfl, fun l member => ?_⟩
  · rw [backtrackTo, result]
    rfl
  · exact ⟨back.constants.trans ⟨rfl, rfl, rfl, rfl, rfl⟩, back.nbObjects, back.watched, back.seen, back.status,
      back.nextRestart, back.lits, back.trail, back.levels, back.reasons, back.model, back.queue⟩
  · by_cases below : s'.decisionLevel ≤ lvl
    · exact low below l member
    · have none : s'.trail = [] := by
        by_contra some'
        simp [some', not_le.mp below] at stops
      rw [show s'.trail = [] from none] at member
      cases member

/-- What is left is a trail again. -/
theorem BackAt.assigned (back : BackAt f lvl s s') (assigned : Assigned F s) (level : s'.decisionLevel = lvl)
    (low : ∀ l ∈ s'.trail, s.levels (l / 2) ≤ lvl) (nonneg : 0 ≤ lvl) : Assigned F s' where
  graph := by
    refine (assigned.graph.suffix back.suffix).congr back.levels fun l member => ?_
    rw [reasonLits, reasonLits, back.reasons l member, back.lits]
  model := back.model
  inside l member := by
    rw [back.constants.nbVars]
    exact assigned.inside l (back.suffix.subset member)
  level_le l member := by
    rw [level, back.levels l member]
    exact low l member
  nonneg := level ▸ nonneg

end BacktrackTo

section BacktrackLevel

variable {levels : ℕ → ℤ} {q : ℕ} {others : List ℕ}

theorem raiseSecond_spec (levels : ℕ → ℤ) (second : ℕ) (ls : List ℕ) :
    ((raiseSecond levels second ls).1 :: (raiseSecond levels second ls).2).Perm (second :: ls) ∧
      ∀ k ∈ second :: ls, levels (k / 2) ≤ levels ((raiseSecond levels second ls).1 / 2) := by
  induction ls generalizing second with
  | nil => exact ⟨List.Perm.refl _, fun k member => by rw [List.mem_singleton.mp member]; exact le_refl _⟩
  | cons l ls ih =>
      rw [raiseSecond]
      split_ifs with higher
      · have ⟨perm, highest⟩ := ih l
        refine ⟨(List.Perm.swap _ _ _).trans (perm.cons second), List.forall_mem_cons.mpr ⟨?_, highest⟩⟩
        exact higher.le.trans (highest l List.mem_cons_self)
      · have ⟨perm, highest⟩ := ih second
        refine ⟨((List.Perm.swap _ _ _).trans (perm.cons l)).trans (List.Perm.swap _ _ _), ?_⟩
        have ⟨here, rest⟩ := List.forall_mem_cons.mp highest
        exact List.forall_mem_cons.mpr ⟨here, List.forall_mem_cons.mpr ⟨(not_lt.mp higher).trans here, rest⟩⟩

/-- All literals but the first one are false at the level to go back to, which is an earlier one. -/
theorem backtrackLevel_eq (learnt : Learnt F s q others) (deep : 0 < s.decisionLevel) :
    ∃ others' lvl, backtrackLevel s.levels (neg q :: others) = some (neg q :: others', lvl) ∧
      others'.Perm others ∧ 0 ≤ lvl ∧ lvl < s.decisionLevel ∧ ∀ k ∈ others', s.levels (k / 2) ≤ lvl := by
  cases others with
  | nil => exact ⟨[], 0, rfl, List.Perm.refl _, le_refl _, deep, fun _ member => nomatch member⟩
  | cons second ls =>
      have ⟨perm, highest⟩ := raiseSecond_spec s.levels second ls
      have ⟨_, positive, early⟩ := learnt.early _ (perm.subset List.mem_cons_self)
      exact ⟨_, _, rfl, perm, positive.le, early, fun k member => highest k (perm.subset member)⟩

end BacktrackLevel

section Backjump

variable {q : ℕ} {others : List ℕ}

/-- After `backtrackTo` the first literal of the learnt clause has no value, and the others are false. -/
theorem backjump_returns (assigned : Assigned F s) (formula : s.cnfFormula = some f) (queued : s.Queued f)
    (onTrail : q ∈ s.trail) (last : s.levels (q / 2) = s.decisionLevel) (lits : s.lits r = neg q :: others)
    (fails : ∀ k ∈ others, neg k ∈ s.trail ∧ s.levels (k / 2) ≤ lvl) (entails : Entails F (neg q :: others))
    (nonneg : 0 ≤ lvl) (earlier : lvl < s.decisionLevel) {fuel : ℕ} (enough : s.nbVars + 1 ≤ fuel) :
    ∃ s₁, s.backjump fuel r (neg q :: others) lvl = some (s₁.assign (neg q) (some r)) ∧ BackAt f lvl s s₁ ∧
      s₁.decisionLevel = lvl ∧ s₁.qHead = s₁.trail.length ∧ (∀ l ∈ s₁.trail, s.levels (l / 2) ≤ lvl) ∧
      s₁.model (q / 2) = none ∧ Assigned F s₁ ∧ Assigned F (s₁.assign (neg q) (some r)) := by
  obtain ⟨s₁, result, back, level, qHead, low⟩ := backtrackTo_returns assigned formula queued lvl enough
  have assigned₁ := back.assigned assigned level low nonneg
  have free : s₁.model (neg q / 2) = none := by
    rw [assigned₁.free_iff, neg_twice]
    refine ⟨fun member => assigned.graph.neg_notMem onTrail (back.suffix.subset member), fun member => ?_⟩
    have := low q member
    omega
  have inside : neg q / 2 < s₁.nbVars := by
    rw [var_neg, back.constants.nbVars]
    exact assigned.inside q onTrail
  have assigned₂ := assigned₁.assign free inside (.implied r others ((congrFun back.lits r).trans lits)
    (fun k member => back.stays (fails k member).1 (by rw [var_neg]; exact (fails k member).2)) entails)
  rw [var_neg] at free
  refine ⟨s₁, ?_, back, level, qHead, low, free, assigned₁, assigned₂⟩
  simp [backjump, earlier, result, enqueueLiteral, free]

/-- The literals that were not yet looked at are gone. -/
theorem Settled.back (settled : s.Settled f) (back : BackAt f lvl s s') (earlier : lvl < s.decisionLevel)
    (low : ∀ l ∈ s'.trail, s.levels (l / 2) ≤ lvl) :
    ∀ r ∈ f.originalClauses, s'.Quiet s'.trail (s.lits r) := by
  obtain ⟨late, early, trail, last, quiet⟩ := settled
  have inEarly : ∀ l ∈ s'.trail, l ∈ early := by
    intro l member
    have inTrail := back.suffix.subset member
    rw [trail] at inTrail
    rcases List.mem_append.mp inTrail with inLate | inEarly
    · have := last l inLate
      have := low l member
      omega
    · exact inEarly
  -- of two literals, one is false at a level that is left, and the other one true at no later level
  have kept : ∀ a b, neg a ∈ s'.trail → b ∈ s.trail ∧ s.levels (b / 2) ≤ s.levels (a / 2) →
      b ∈ s'.trail ∧ s'.levels (b / 2) ≤ s'.levels (a / 2) := by
    rintro a b fails ⟨holds, order⟩
    have below := low (neg a) fails
    have level := back.levels (neg a) fails
    rw [var_neg] at below level
    have stays := back.stays holds (order.trans below)
    exact ⟨stays, by rw [level, back.levels b stays]; exact order⟩
  intro r original
  have before := quiet r original
  match s.lits r, before with
  | [], _ | [_], _ => trivial
  | a :: b :: rest, ⟨first, second⟩ =>
      exact ⟨fun fails => kept a b fails (first (inEarly _ fails)),
        fun fails => kept b a fails (second (inEarly _ fails))⟩

theorem Assumed.back (assumed : Assumed s) (back : BackAt f lvl s s') (earlier : lvl < s.decisionLevel)
    (level : s'.decisionLevel = lvl) : Assumed s' where
  inside := by
    rw [back.constants.assumptions, back.constants.nbVars]
    exact assumed.inside
  held i p isNext inside := by
    rw [back.constants.assumptions] at isNext
    rw [level] at inside
    have ⟨holds, low⟩ := assumed.held i p isNext (inside.trans earlier)
    have stays := back.stays holds (by omega)
    rw [back.levels p stays]
    exact ⟨stays, low⟩
  decisions l member none positive low := by
    rw [back.constants.assumptions] at low ⊢
    rw [back.levels l member] at positive low
    rw [back.reasons l member] at none
    exact assumed.decisions l (back.suffix.subset member) none positive low
  filled j high low := by
    rw [back.constants.assumptions] at high
    rw [level] at low
    obtain ⟨l, member, same⟩ := assumed.filled j high (low.trans earlier.le)
    have stays := back.stays member (same.le.trans low)
    exact ⟨l, stays, (back.levels l stays).trans same⟩

end Backjump

section Backtrack

/-- A conflict without decisions. -/
theorem Clash.unsat (clash : Clash F f s) (database : Database F s f) (zero : s.decisionLevel = 0)
    (σ : ℕ → Bool) : ¬ Models σ F := by
  intro models
  obtain ⟨r, inBase, _, fails, _⟩ := clash.clause
  obtain ⟨k, member, sat⟩ := (database.formed r inBase).entails σ models
  have low : s.levels (neg k / 2) ≤ 0 := zero ▸ clash.assigned.level_le (neg k) (fails k member)
  have holds := clash.assigned.graph.holds_of_decisions models
    (fun l _ below positive _ => absurd positive (not_lt.mpr below)) (neg k) (fails k member) low
  exact holds_neg.mp holds sat

/-- The clause that was learnt is a new object. -/
theorem lits_newClause {lits : List ℕ} : (s.newClause lits).1.lits r =
    if r = s.nbObjects then lits else s.lits r := by
  by_cases same : r = s.nbObjects <;> simp [newClause, Solver.lits, setClause, same]

/-- The steps of `backtrack` without a restart. -/
theorem backtrack_eq {fuel : ℕ} {s₂ s₅ s₆ : Solver} {f₅ f₆ : CNFFormula} {learntLits lits : List ℕ}
    (deep : s.decisionLevel ≠ 0)
    (analysis : (({ s with nbConflicts := s.nbConflicts + 1 } : Solver).modifyFormula
      fun f => f.decayVSIDS.decayVSIDSClause).conflictAnalysis fuel = some (s₂, learntLits))
    (level : backtrackLevel s₂.levels learntLits = some (lits, lvl))
    (noRestart : s₂.nbConflicts ≠ s₂.nextRestart)
    (jump : (s₂.newClause lits).1.backjump fuel s₂.nbObjects lits lvl = some s₅)
    (formula : s₅.cnfFormula = some f₅)
    (learned : (if 1 < lits.length then s₅.learn f₅ s₂.nbObjects else some (s₅, f₅)) = some (s₆, f₆)) :
    s.backtrack fuel = some { s₆.setFormula f₆ with status := .unknown } := by
  have noRestart' : ¬ (s₂.newClause lits).1.nbConflicts = (s₂.newClause lits).1.nextRestart := noRestart
  simp only [backtrack, deep, if_false, analysis, Option.bind_eq_bind, Option.bind_some, level, noRestart']
  rw [show (s₂.newClause lits).2 = s₂.nbObjects from rfl, jump]
  simp only [Option.bind_some, formula]
  split_ifs at learned ⊢
  · rw [learned]
    rfl
  · cases learned
    rfl

/-- The clause that was learnt is an object of every solver that keeps it in this order. -/
theorem Learnt.formed {q : ℕ} {others others' : List ℕ} (learnt : Learnt F s q others)
    (perm : others'.Perm others) (lits : s'.lits r = neg q :: others') (known : r < s'.nbObjects)
    (long : 1 < (neg q :: others').length) (inside : ∀ l ∈ s.trail, l / 2 < s'.nbVars) : Formed F s' r where
  known := known
  long := lits ▸ long
  distinct := by
    rw [lits, List.map_cons, var_neg, List.nodup_cons]
    refine ⟨fun twice => ?_, (perm.map _).nodup_iff.mpr learnt.distinct⟩
    obtain ⟨k, member, same⟩ := List.mem_map.mp twice
    have early := (learnt.early k (perm.subset member)).2.2
    rw [same, learnt.last] at early
    exact lt_irrefl _ early
  inside := by
    rw [lits]
    refine List.forall_mem_cons.mpr ⟨?_, fun k member => ?_⟩
    · rw [var_neg]
      exact inside q learnt.onTrail
    · have old := inside _ (learnt.early k (perm.subset member)).1
      rwa [var_neg] at old
  entails := lits ▸ learnt.entails.mono (perm.cons _).symm.subset

theorem reasons_assign_known {lit n : ℕ} (known : ∀ l ∈ s.trail, ∀ r, s.reasons (l / 2) = some r → r < n)
    (new : r < n) : ∀ l ∈ (s.assign lit (some r)).trail, ∀ r',
      (s.assign lit (some r)).reasons (l / 2) = some r' → r' < n := by
  intro l member r' isReason
  rw [assign_trail] at member
  rw [assign_reasons, Function.update_apply] at isReason
  split_ifs at isReason with same
  · rw [Option.some.injEq] at isReason
    exact isReason ▸ new
  · rcases List.mem_cons.mp member with rfl | early
    · exact absurd rfl same
    · exact known l early r' isReason

/-- One more literal at an earlier level counts more than all that were taken from the levels above. -/
theorem BackAt.potential_lt {s₂ : Solver} {B K : ℕ} (back : BackAt f lvl s s')
    (trail : s₂.trail = l :: s'.trail)
    (level : s₂.levels (l / 2) = lvl) (kept : ∀ l ∈ s'.trail, s₂.levels (l / 2) = s'.levels (l / 2))
    (nonneg : 0 ≤ lvl) (low : lvl < K) (short : s.trail.length < B) :
    potential B K s.levels s.trail < potential B K s₂.levels s₂.trail := by
  obtain ⟨late, split, above⟩ := back.trail
  have few : late.length < B := by
    rw [split, List.length_append] at short
    omega
  have sameLevels : ∀ l ∈ s'.trail, s₂.levels (l / 2) = s.levels (l / 2) := fun l member =>
    (kept l member).trans (back.levels l member)
  rw [split, trail, potential_append, potential_cons, potential_congr sameLevels, level]
  exact Nat.add_lt_add_right (ImplicationGraph.potential_lt few nonneg low above) _

theorem backtrack_returns (going : Going F s f) (clash : Clash F f s) {fuel B K : ℕ}
    (enough : s.nbVars + 1 ≤ fuel) (wide : s.nbVars < B) (deep : s.decisionLevel ≤ K) :
    ∃ s', s.backtrack fuel = some s' ∧ Constants s s' ∧
      ((s' = { s with status := .unsatisfiable } ∧ ∀ σ, ¬ Models σ F) ∨
        ∃ f', s'.status = .unknown ∧ Going F s' f' ∧ Pending F f' s' ∧
          potential B K s.levels s.trail < potential B K s'.levels s'.trail) := by
  by_cases zero : s.decisionLevel = 0
  · refine ⟨{ s with status := .unsatisfiable }, by simp [backtrack, zero], ⟨rfl, rfl, rfl, rfl, rfl⟩,
      .inl ⟨rfl, clash.unsat going.database zero⟩⟩
  have assigned := clash.assigned
  have positive : 0 < s.decisionLevel := lt_of_le_of_ne assigned.nonneg (Ne.symm zero)
  obtain ⟨conflict, inBase, isConflict, fails, last⟩ := clash.clause
  -- `s₁` has counted the conflict, `s₂` has analysed it, `s₃` has the new clause, `s₄` has gone back, and `s₅`
  -- has the first literal of the clause on its trail
  let f₁ := f.decayVSIDS.decayVSIDSClause
  let s₁ : Solver := { s with nbConflicts := s.nbConflicts + 1, cnfFormula := some f₁ }
  have modified : ({ s with nbConflicts := s.nbConflicts + 1 } : Solver).modifyFormula
      (fun f => f.decayVSIDS.decayVSIDSClause) = s₁ := by
    simp [modifyFormula, going.formula, s₁, f₁]
  obtain ⟨q, others, clauses, inc, analysis, lits, learnt⟩ := conflictAnalysis_returns (s := s₁) (f := f₁)
    (assigned.congr ⟨rfl, rfl, rfl, rfl, rfl, fun _ _ => rfl⟩) rfl going.unseen positive isConflict fails last
    (going.database.formed conflict inBase).entails enough
  obtain ⟨others', lvl, levelResult, perm, nonneg, earlier, low⟩ := backtrackLevel_eq learnt positive
  let f₂ : CNFFormula := { f₁ with vsidsClauseInc := inc }
  let s₂ : Solver := ({ s₁ with conflict := none } : Solver).marking clauses (fun _ => false) f₂
  let s₃ : Solver := (s₂.newClause (neg q :: others')).1
  have lits₃ : ∀ r, r < s.nbObjects → s₃.lits r = s.lits r := fun r known =>
    lits_newClause.trans ((if_neg (ne_of_lt known)).trans (lits r))
  have litsNew : s₃.lits s.nbObjects = neg q :: others' := lits_newClause.trans (if_pos rfl)
  have assigned₃ : Assigned F s₃ := by
    refine assigned.congr ⟨rfl, rfl, rfl, rfl, rfl, fun l member => ?_⟩
    show (s.reasons (l / 2)).map s₃.lits = (s.reasons (l / 2)).map s.lits
    refine Option.map_congr fun r isReason => ?_
    exact lits₃ r (going.known l member r isReason)
  have queued₃ : s₃.Queued f₂ := by
    obtain ⟨C, holding, inQueue⟩ := going.queued
    exact ⟨C, ⟨holding.decay.represents, holding.decay.size, holding.decay.nonneg⟩, inQueue⟩
  have failsOthers : ∀ k ∈ others', neg k ∈ s.trail ∧ s.levels (k / 2) ≤ lvl := fun k member =>
    ⟨(learnt.early k (perm.subset member)).1, low k member⟩
  have entails : Entails F (neg q :: others') := learnt.entails.mono (perm.cons _).symm.subset
  obtain ⟨s₄, jump, back, level, qHead, below, free, assigned₄, assigned₅⟩ := backjump_returns assigned₃ rfl
    queued₃ learnt.onTrail learnt.last litsNew failsOthers entails nonneg earlier enough
  obtain ⟨queue, formula₄, C, holding, inQueue⟩ := back.queue
  let s₅ : Solver := s₄.assign (neg q) (some s.nbObjects)
  let f₅ : CNFFormula := { f₂ with vsidsQueue := queue }
  have vars : s₄.nbVars = s.nbVars := back.constants.nbVars
  have objects : s₅.nbObjects = s.nbObjects + 1 := back.nbObjects
  have lits₅ : s₅.lits = s₃.lits := lits_assign.trans back.lits
  have litsBase : ∀ r ∈ f.originalClauses ++ f.learntClauses, s₅.lits r = s.lits r := fun r member =>
    (congrFun lits₅ r).trans (lits₃ r (going.database.formed r member).known)
  have relisted : Database F s f₅ := going.database.relist rfl fun _ => Iff.rfl
  have database₅ : Database F s₅ f₅ :=
    relisted.congr_base litsBase back.watched (objects ▸ Nat.le_succ _) vars
  have litsRef : s₅.lits s₂.nbObjects = neg q :: others' := (congrFun lits₅ _).trans litsNew
  have learned : ∃ s₆ f₆, (if 1 < (neg q :: others').length then s₅.learn f₅ s₂.nbObjects
      else some (s₅, f₅)) = some (s₆, f₆) ∧ Rewatched s₅ s₆ ∧ Database F s₆ f₆ ∧ Holding f₆ s₅.nbVars C ∧
        f₆.originalClauses = f.originalClauses := by
    split_ifs with long
    · refine learn_returns database₅ holding ?_ fun member => ?_
      · exact learnt.formed perm litsRef (objects ▸ Nat.lt_succ_self _) long
          fun l member => vars ▸ assigned.inside l member
      · exact lt_irrefl _ (going.database.formed s.nbObjects member).known
    · exact ⟨s₅, f₅, rfl, .refl s₅, database₅, holding, rfl⟩
  obtain ⟨s₆, f₆, learned, ⟨clauses', watched', rfl, litsKept⟩, database₆, holding₆, original⟩ := learned
  have analysis' : (({ s with nbConflicts := s.nbConflicts + 1 } : Solver).modifyFormula
      fun f => f.decayVSIDS.decayVSIDSClause).conflictAnalysis fuel = some (s₂, neg q :: others) :=
    modified.symm ▸ analysis
  -- `nextRestart` begins at `0` and is never reached by the counter
  have noRestart : s₂.nbConflicts ≠ s₂.nextRestart := by
    have := going.noRestart
    show s.nbConflicts + 1 ≠ s.nextRestart
    omega
  have propagated : Propagated s₄ s₅ :=
    assigned₄.propagated_assign (var_neg q ▸ free) (back.nbObjects ▸ Nat.lt_succ_self _)
  have settled₃ : s₃.Settled f₂ := by
    obtain ⟨late, early, trail, level, quiet⟩ := clash.settled
    refine ⟨late, early, trail, level, fun r member => ?_⟩
    rw [lits₃ r (going.database.formed r (List.mem_append_left _ member)).known]
    exact (quiet r member).congr rfl rfl
  have quiet := settled₃.back back earlier below
  have levelQ : s₅.levels (neg q / 2) = lvl := by
    rw [assign_levels, Function.update_self, level]
  -- reasons are clauses that exist, the new one included
  have known₅ : ∀ l ∈ s₅.trail, ∀ r, s₅.reasons (l / 2) = some r → r < s₅.nbObjects := by
    rw [objects]
    refine reasons_assign_known (fun l early r isReason => ?_) (Nat.lt_succ_self _)
    rw [back.reasons l early] at isReason
    exact (going.known l (back.suffix.subset early) r isReason).trans (Nat.lt_succ_self _)
  have assumed₃ : Assumed s₃ :=
    ⟨going.assumed.inside, going.assumed.held, going.assumed.decisions, going.assumed.filled⟩
  have assumed₅ := (assumed₃.back back earlier level).propagated propagated
  refine ⟨_, backtrack_eq zero analysis' levelResult noRestart jump formula₄ learned, ?_,
    .inr ⟨f₆, rfl, ?_, ?_, ?_⟩⟩
  · have constants := back.constants
    exact ⟨constants.nbVars, constants.nbSolveCalls, constants.incrementallyAddedClauses,
      constants.learntClauses, constants.assumptions⟩
  · constructor
    · rfl
    · exact database₆.congr rfl rfl (le_refl _) rfl
    · refine fun c member => (going.covers c member).mono
        (fun l holds fact => ?_) original fun r isOriginal => ?_
      · have stays := back.stays holds (fact.trans nonneg)
        have same := (propagated.levels l stays).trans (back.levels l stays)
        exact ⟨propagated.subset stays, same.trans_le fact⟩
      · have same := (litsKept r).trans (litsBase r (List.mem_append_left _ isOriginal))
        exact same ▸ List.Subset.refl _
    · refine ⟨C, holding₆, fun v inside unassigned => inQueue v inside ?_⟩
      exact propagated.model v unassigned
    · exact fun v => congrFun back.seen v
    · exact back.nextRestart.trans going.noRestart
    · exact known₅
    · exact ⟨assumed₅.inside, assumed₅.held, assumed₅.decisions, assumed₅.filled⟩
    · intro empty
      obtain ⟨g, represents⟩ := holding₆.represents
      have inside : q / 2 < s₄.nbVars := vars ▸ assigned.inside q learnt.onTrail
      have some' := inQueue (q / 2) inside free
      rw [represents.isEmpty_iff.mp empty] at some'
      cases some'
  · refine ⟨assigned₅.congr ⟨rfl, rfl, rfl, rfl, rfl, fun l _ => ?_⟩, [neg q], s₄.trail, rfl, qHead.symm,
      ?_, ?_⟩
    · exact Option.map_congr fun r _ => litsKept r
    · intro l member
      rw [List.mem_singleton.mp member]
      exact levelQ.trans level.symm
    · intro r member
      have same : (clauses' r).lits = s₃.lits r := (litsKept r).trans (congrFun lits₅ r)
      show Quiet _ s₄.trail (clauses' r).lits
      rw [same]
      exact (quiet r (original ▸ member)).grow (List.Subset.refl _) propagated.subset propagated.levels
  · exact back.potential_lt rfl levelQ propagated.levels nonneg (earlier.trans_le deep)
      (assigned.length_le.trans_lt wide)

end Backtrack

end Renaissance.CafeSat.Solver
