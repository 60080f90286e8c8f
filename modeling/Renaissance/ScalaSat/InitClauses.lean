import Renaissance.ScalaSat.SatSearch

/-!
# The clauses that a search starts with

`initClauses` drops the clauses that are always true, puts the literals of the clauses with one literal on
the trail, and makes a `CNFFormula` of the others. `initClauses_returns`: for clauses that are not empty
this cannot fail, and the invariant of the search holds then.
-/

namespace Renaissance.CafeSat.Solver

open Clauses FixedIntDoublePriorityQueue ImplicationGraph JavaCollections

variable {F : List (List ℕ)} {s s' : Solver} {f : CNFFormula} {l n : ℕ} {r : ClauseRef} {c : List ℕ}

section Tautology

theorem isTautology_iff {lits : List ℕ} : isTautology lits = false ↔ (lits.map (· / 2)).Nodup := by
  rw [List.nodup_iff_count_le_one, isTautology, List.any_eq_false]
  have count : ∀ v, (lits.map (· / 2)).count v = lits.countP fun l => l / 2 = v := by
    intro v
    rw [List.count, List.countP_map]
    exact List.countP_congr fun l _ => by simp
  constructor
  · intro none v
    rw [count]
    by_cases occurs : ∃ l ∈ lits, l / 2 = v
    · obtain ⟨l, member, rfl⟩ := occurs
      simpa using none l member
    · rw [List.countP_eq_zero.mpr fun l member => by simpa using fun same => occurs ⟨l, member, same⟩]
      exact Nat.zero_le 1
  · intro few l member
    have bound := few (l / 2)
    rw [count] at bound
    simpa using bound

/-- A clause where a variable occurs twice is always true. -/
theorem sat_of_isTautology {lits : List ℕ} (nodup : lits.Nodup) (tautology : isTautology lits = true)
    (σ : ℕ → Bool) : Sat σ lits := by
  have twice : ¬ (lits.map (· / 2)).Nodup := by
    rw [← isTautology_iff, tautology]
    exact Bool.noConfusion
  have both : ∃ l ∈ lits, neg l ∈ lits := by
    by_contra alone
    refine twice (nodup.map_on fun l member k other same => ?_)
    rcases eq_or_eq_neg same with equal | negated
    · exact equal
    · exact absurd ⟨k, other, negated ▸ member⟩ alone
  obtain ⟨l, first, second⟩ := both
  exact sat_of_both first second

end Tautology

/-- A clause that the solver can be given. -/
structure Given (n : ℕ) (c : List ℕ) : Prop where
  notEmpty : c ≠ []
  inside : ∀ l ∈ c, l / 2 < n

theorem mem_litsUnique (order : IterationOrder ℕ) : l ∈ litsUnique order c ↔ l ∈ c := by
  rw [litsUnique, order.mem_arrange, List.mem_dedup]

theorem nodup_litsUnique (order : IterationOrder ℕ) (c : List ℕ) : (litsUnique order c).Nodup :=
  (order.perm _).nodup_iff.mpr (List.nodup_dedup c)

/-- A new solver, or one that was reset. -/
structure Fresh (s : Solver) : Prop where
  level : s.decisionLevel = 0
  trail : s.trail = []
  qHead : s.qHead = 0
  model : ∀ v, s.model v = none
  watched : ∀ x, s.watched x = []
  unseen : ∀ v, s.seen v = false
  noRestart : s.nextRestart = 0
  status : s.status = .unknown

section InitClause

/-- After the clauses in `done`. -/
structure Building (F : List (List ℕ)) (done : List (List ℕ)) (s : Solver) (newClauses : List ClauseRef) :
    Prop where
  assigned : Assigned F s
  level : s.decisionLevel = 0
  qHead : s.qHead = 0
  facts : ∀ l ∈ s.trail, s.levels (l / 2) = 0 ∧ s.reasons (l / 2) = none
  watched : ∀ x, s.watched x = []
  unseen : ∀ v, s.seen v = false
  noRestart : s.nextRestart = 0
  formed : ∀ r ∈ newClauses, Formed F s r
  nodup : newClauses.Nodup
  status : (s.status = .unknown ∧ ∀ c ∈ done, (∀ σ, Sat σ c) ∨ (∃ l ∈ c, l ∈ s.trail) ∨
    ∃ r ∈ newClauses, s.lits r ⊆ c) ∨ (s.status = .unsatisfiable ∧ ∀ σ, ¬ Models σ F)

variable {done : List (List ℕ)} {newClauses : List ClauseRef}

theorem Fresh.building (fresh : Fresh s) : Building F [] s [] where
  assigned := {
    graph := fresh.trail ▸ trail_nil
    model l := by simp [fresh.trail, isSat, fresh.model]
    inside l member := by simp [fresh.trail] at member
    level_le l member := by simp [fresh.trail] at member
    nonneg := fresh.level.ge }
  level := fresh.level
  qHead := fresh.qHead
  facts l member := by simp [fresh.trail] at member
  watched := fresh.watched
  unseen := fresh.unseen
  noRestart := fresh.noRestart
  formed r member := nomatch member
  nodup := List.nodup_nil
  status := .inl ⟨fresh.status, fun c member => nomatch member⟩

/-- The literals on the trail are facts. -/
theorem Building.holds (building : Building F done s newClauses) {σ : ℕ → Bool} (models : Models σ F)
    (member : l ∈ s.trail) : holds σ l :=
  building.assigned.graph.holds_of_decisions models
    (fun k inside _ positive _ => absurd positive (not_lt.mpr (building.facts k inside).1.le)) l member
    (building.facts l member).1.le

/-- What makes the clause true. -/
theorem Building.snoc (building : Building F done s newClauses)
    (covered : (∀ σ, Sat σ c) ∨ (∃ l ∈ c, l ∈ s.trail) ∨ ∃ r ∈ newClauses, s.lits r ⊆ c) :
    Building F (done ++ [c]) s newClauses := by
  refine { building with status := building.status.imp_left (And.imp_right fun before c' member => ?_) }
  rcases List.mem_append.mp member with old | new
  · exact before c' old
  · rw [List.mem_singleton.mp new]
    exact covered

theorem Building.fact (building : Building F done s newClauses) (free : s.model (l / 2) = none)
    (inside : l / 2 < s.nbVars) (entails : Entails F [l]) : Building F done (s.assign l none) newClauses where
  assigned := building.assigned.assign free inside (.fact building.level entails)
  level := building.level
  qHead := building.qHead
  facts k member := by
    rcases List.mem_cons.mp member with rfl | early
    · exact ⟨(Function.update_self _ _ _).trans building.level, Function.update_self _ _ _⟩
    · have other : k / 2 ≠ l / 2 := fun same =>
        (building.assigned.free_iff.mp (same ▸ free : s.model (k / 2) = none)).1 early
      have ⟨level, reason⟩ := building.facts k early
      exact ⟨(Function.update_of_ne other _ _).trans level, (Function.update_of_ne other _ _).trans reason⟩
  watched := building.watched
  unseen := building.unseen
  noRestart := building.noRestart
  formed r member := (building.formed r member).perm (le_refl _) rfl (List.Perm.refl _)
  nodup := building.nodup
  status := building.status.imp_left (And.imp_right fun before c member =>
    (before c member).imp_right (Or.imp_left fun ⟨k, inClause, holds⟩ =>
      ⟨k, inClause, List.mem_cons_of_mem l holds⟩))

theorem Building.contradiction (building : Building F done s newClauses) (fails : neg l ∈ s.trail)
    (entails : Entails F [l]) (done' : List (List ℕ)) :
    Building F done' { s with status := .unsatisfiable } newClauses where
  assigned := building.assigned.congr ⟨rfl, rfl, rfl, rfl, rfl, fun _ _ => rfl⟩
  level := building.level
  qHead := building.qHead
  facts := building.facts
  watched := building.watched
  unseen := building.unseen
  noRestart := building.noRestart
  formed r member := (building.formed r member).perm (le_refl _) rfl (List.Perm.refl _)
  nodup := building.nodup
  status := .inr ⟨rfl, fun σ models =>
    holds_neg.mp (building.holds models fails) (sat_singleton.mp (entails σ models))⟩

/-- A clause object is new. -/
theorem Building.newClause (building : Building F done s newClauses) {lits : List ℕ} (long : 2 ≤ lits.length)
    (distinct : (lits.map (· / 2)).Nodup) (inside : ∀ l ∈ lits, l / 2 < s.nbVars) (entails : Entails F lits) :
    Building F done (s.newClause lits).1 (s.nbObjects :: newClauses) := by
  have old : ∀ r ∈ newClauses, (s.newClause lits).1.lits r = s.lits r := fun r member =>
    lits_newClause.trans (if_neg (building.formed r member).known.ne)
  have new : (s.newClause lits).1.lits s.nbObjects = lits := lits_newClause.trans (if_pos rfl)
  constructor
  · refine building.assigned.congr ⟨rfl, rfl, rfl, rfl, rfl, fun l member => ?_⟩
    have none := (building.facts l member).2
    have none' : (s.newClause lits).1.reasons (l / 2) = Option.none := none
    rw [reasonLits, reasonLits, none, none']
    rfl
  · exact building.level
  · exact building.qHead
  · exact building.facts
  · exact building.watched
  · exact building.unseen
  · exact building.noRestart
  · refine List.forall_mem_cons.mpr ⟨⟨Nat.lt_succ_self _, ?_, ?_, ?_, ?_⟩, fun r member => ?_⟩
    · rwa [new]
    · rwa [new]
    · rwa [new]
    · rwa [new]
    · exact (building.formed r member).perm (Nat.le_succ _) rfl (by rw [old r member])
  · exact List.nodup_cons.mpr ⟨fun member => lt_irrefl _ (building.formed _ member).known, building.nodup⟩
  · refine building.status.imp_left (And.imp_right fun before c member => ?_)
    refine (before c member).imp_right (Or.imp_right ?_)
    rintro ⟨r, isNew, within⟩
    exact ⟨r, List.mem_cons_of_mem _ isNew, (old r isNew).symm ▸ within⟩

theorem initClause_returns (order : IterationOrder ℕ) (building : Building F done s newClauses) (member : c ∈ F)
    (given : Given s.nbVars c) :
    ∃ s' newClauses', s.initClause order newClauses c = some (s', newClauses') ∧
      Building F (done ++ [c]) s' newClauses' ∧ Constants s s' := by
  have entails := entails_of_mem member
  -- an empty clause is no clause of a client; a single literal becomes a fact
  match unique : litsUnique order c with
  | [] =>
      obtain ⟨l, inClause⟩ := List.exists_mem_of_ne_nil c given.notEmpty
      rw [← mem_litsUnique order, unique] at inClause
      cases inClause
  | [lit] =>
      have only : ∀ l, l ∈ c ↔ l = lit := fun l => by
        rw [← mem_litsUnique order, unique, List.mem_singleton]
      have inClause := (only lit).mpr rfl
      have fact : Entails F [lit] := entails.mono fun l member => by
        rw [List.mem_singleton]
        exact (only l).mp member
      by_cases free : s.model (lit / 2) = none
      · refine ⟨s.assign lit none, newClauses, by simp [initClause, unique, free, enqueueLiteral], ?_,
          ⟨rfl, rfl, rfl, rfl, rfl⟩⟩
        exact (building.fact free (given.inside lit inClause) fact).snoc
          (.inr (.inl ⟨lit, inClause, List.mem_cons_self⟩))
      · obtain ⟨value, model⟩ := Option.ne_none_iff_exists'.mp free
        by_cases contrary : value = decide (lit % 2 = 1)
        · have fails : neg lit ∈ s.trail :=
            building.assigned.isUnsat_iff.mp (by simp [isUnsat, model, contrary])
          refine ⟨{ s with status := .unsatisfiable }, newClauses,
            by simp [initClause, unique, model, contrary],
            building.contradiction fails fact _, ⟨rfl, rfl, rfl, rfl, rfl⟩⟩
        · have notUnsat : s.isUnsat lit = false := by
            simp only [isUnsat, model, Option.some.injEq, decide_eq_false_iff_not]
            exact contrary
          have known : lit ∈ s.trail ∨ neg lit ∈ s.trail :=
            building.assigned.isAssigned_iff.mp (by simp [isAssigned, model])
          have holds : lit ∈ s.trail := known.resolve_right fun fails => by
            rw [building.assigned.isUnsat_iff.mpr fails] at notUnsat
            cases notUnsat
          exact ⟨s, newClauses, by simp [initClause, unique, model, contrary],
            building.snoc (.inr (.inl ⟨lit, inClause, holds⟩)), .refl s⟩
  | a :: b :: rest =>
      have same : ∀ l, l ∈ a :: b :: rest ↔ l ∈ c := fun l => by rw [← unique, mem_litsUnique order]
      have inside : ∀ l ∈ a :: b :: rest, l / 2 < s.nbVars :=
        fun l inUnique => given.inside l ((same l).mp inUnique)
      have nodup := unique ▸ nodup_litsUnique order c
      cases tautology : isTautology (a :: b :: rest) with
      | true =>
          refine ⟨s, newClauses, by simp [initClause, unique, tautology], building.snoc (.inl fun σ => ?_),
            .refl s⟩
          exact (sat_of_isTautology nodup tautology σ).mono fun l inUnique => (same l).mp inUnique
      | false =>
          have built := building.newClause (by simp) (isTautology_iff.mp tautology) inside
            (entails.mono fun l inClause => (same l).mpr inClause)
          refine ⟨(s.newClause (a :: b :: rest)).1, s.nbObjects :: newClauses, ?_, built.snoc (.inr (.inr
            ⟨s.nbObjects, List.mem_cons_self, ?_⟩)), ⟨rfl, rfl, rfl, rfl, rfl⟩⟩
          · simp [initClause, unique, tautology]
            rfl
          · rw [lits_newClause, if_pos rfl]
            exact fun l inUnique => (same l).mp inUnique

theorem initClauseList_returns (order : IterationOrder ℕ) {clauses : List (List ℕ)}
    (building : Building F done s newClauses)
    (members : ∀ c ∈ clauses, c ∈ F ∧ Given s.nbVars c) :
    ∃ s' newClauses', initClauseList order clauses s newClauses = some (s', newClauses') ∧
      Building F (done ++ clauses) s' newClauses' ∧ Constants s s' := by
  induction clauses generalizing s done newClauses with
  | nil => exact ⟨s, newClauses, rfl, by rwa [List.append_nil], .refl s⟩
  | cons c clauses ih =>
      have ⟨member, given⟩ := members c List.mem_cons_self
      obtain ⟨s₁, newClauses₁, first, building₁, constants₁⟩ := initClause_returns order building member
        given
      obtain ⟨s', newClauses', rest, building', constants'⟩ := ih building₁ fun c' later => by
        rw [constants₁.nbVars]
        exact members c' (List.mem_cons_of_mem c later)
      refine ⟨s', newClauses', ?_, by simpa using building', constants₁.trans constants'⟩
      simp [initClauseList, first, rest]

end InitClause

section NewFormula

variable {done : List (List ℕ)} {newClauses : List ClauseRef}

theorem foldlM_incScore {queue : FixedIntDoublePriorityQueue} {C : Set ℕ} {g : ℕ → ℚ} {ls : List ℕ}
    (represents : queue.Represents C g) (size : queue.maxSize = n) (inside : ∀ lit ∈ ls, lit / 2 < n) :
    ∃ queue' g', ls.foldlM (fun queue lit =>
        (FixedIntDoublePriorityQueue.incScore queue (lit / 2) 1).map Prod.fst) queue = some queue' ∧
      queue'.Represents C g' ∧ queue'.maxSize = n := by
  induction ls generalizing queue g with
  | nil => exact ⟨queue, g, rfl, represents, size⟩
  | cons lit ls ih =>
      obtain ⟨queue₁, first, size₁, represents₁⟩ := incScore_represents represents
        (size.symm ▸ inside lit List.mem_cons_self) zero_le_one
      obtain ⟨queue', g', rest, after⟩ := ih represents₁ (size₁.trans size) fun k member =>
        inside k (List.mem_cons_of_mem _ member)
      exact ⟨queue', g', by simp [first, rest], after⟩

/-- The requirements of `CNFFormula` are met. -/
theorem newFormula_returns (formed : ∀ r ∈ newClauses, Formed F s r) :
    ∃ f, s.newFormula newClauses = some f ∧ f.originalClauses = newClauses ∧ f.learntClauses = [] ∧
      Holding f s.nbVars {v | v < s.nbVars} := by
  have inside : ∀ lit ∈ newClauses.flatMap s.lits, lit / 2 < s.nbVars := by
    intro lit member
    obtain ⟨r, isNew, inClause⟩ := List.mem_flatMap.mp member
    exact (formed r isNew).inside lit inClause
  obtain ⟨queue, g, filled, represents, size⟩ := foldlM_incScore (initial_represents s.nbVars) rfl inside
  have meets : newClauses.all (fun cl => (s.lits cl).all (· < 2 * s.nbVars)) ∧
      newClauses.all (fun cl => 2 ≤ (s.lits cl).length) ∧
      newClauses.all (fun cl => !isTautology (s.lits cl)) := by
    refine ⟨?_, ?_, ?_⟩
    · refine List.all_eq_true.mpr fun r isNew => List.all_eq_true.mpr fun lit member => ?_
      have := (formed r isNew).inside lit member
      simpa using (show lit < 2 * s.nbVars by omega)
    · exact List.all_eq_true.mpr fun r isNew => by simpa using (formed r isNew).long
    · exact List.all_eq_true.mpr fun r isNew => by simpa using isTautology_iff.mpr (formed r isNew).distinct
  refine ⟨_, by rw [newFormula, if_pos meets, filled]; rfl, rfl, rfl, ⟨g, represents⟩, size, ?_⟩
  exact zero_le_one

/-- Each of the clauses is watched. -/
theorem foldlM_recordClause {ls recorded : List ClauseRef} (formed : ∀ r ∈ ls, Formed F s r)
    (nodup : (recorded ++ ls).Nodup) (watching : ∀ x r, r ∈ s.watched x ↔ r ∈ recorded ∧ s.Watches r x)
    (once : ∀ x, (s.watched x).Nodup) :
    ∃ watched, ls.foldlM recordClause s = some { s with watched := watched } ∧
      (∀ x r, r ∈ watched x ↔ r ∈ recorded ++ ls ∧ s.Watches r x) ∧ ∀ x, (watched x).Nodup := by
  induction ls generalizing s recorded with
  | nil => exact ⟨s.watched, rfl, by simpa using watching, once⟩
  | cons r ls ih =>
      have here := formed r List.mem_cons_self
      obtain ⟨a, b, rest, lits⟩ := here.split
      have different := here.first_ne_second lits
      have notRecorded : r ∉ recorded := fun old =>
        (List.nodup_append.mp nodup).2.2 r old r List.mem_cons_self rfl
      have watching₁ : ∀ x r', r' ∈ ((s.watch a r).watch b r).watched x ↔ r' ∈ recorded ++ [r] ∧
          s.Watches r' x := by
        intro x r'
        rw [watched_watch different, List.mem_append, watching]
        by_cases same : r' = r
        · subst same
          simp [notRecorded, watches_iff lits]
        · simp [same]
      have once₁ : ∀ x, (((s.watch a r).watch b r).watched x).Nodup := by
        intro x
        rw [watched_watch different]
        split_ifs
        · refine List.nodup_append.mpr ⟨once x, List.nodup_singleton r, fun r' old r'' last => ?_⟩
          rw [List.mem_singleton.mp last]
          exact fun same => notRecorded (same ▸ ((watching x r').mp old).1)
        · rw [List.append_nil]
          exact once x
      have formed₁ : ∀ r' ∈ ls, Formed F ((s.watch a r).watch b r) r' := fun r' member =>
        (formed r' (List.mem_cons_of_mem _ member)).perm (le_refl _) rfl (List.Perm.refl _)
      have nodup₁ : (recorded ++ [r] ++ ls).Nodup := by simpa using nodup
      obtain ⟨watched, result, all, once'⟩ := ih formed₁ nodup₁ watching₁ once₁
      refine ⟨watched, ?_, fun x r' => ?_, once'⟩
      · have first : s.recordClause r = some ((s.watch a r).watch b r) := by simp [recordClause, lits]
        rw [List.foldlM_cons, first]
        exact result
      · rw [all x r', List.append_assoc, List.singleton_append]
        rfl

/-- The database of a new formula. -/
theorem Building.database (building : Building F done s newClauses) (original : f.originalClauses = newClauses)
    (learnt : f.learntClauses = []) {watched : ℕ → List ClauseRef}
    (watching : ∀ x r, r ∈ watched x ↔ r ∈ [] ++ newClauses ∧ (s.setFormula f).Watches r x)
    (once : ∀ x, (watched x).Nodup) : Database F { s.setFormula f with watched := watched } f := by
  have base : ∀ r, r ∈ f.originalClauses ++ f.learntClauses ↔ r ∈ newClauses := fun r => by
    rw [original, learnt, List.append_nil]
  constructor
  · exact fun r member => (building.formed r ((base r).mp member)).perm (le_refl _) rfl (List.Perm.refl _)
  · intro x r member
    have ⟨isNew, watches⟩ := (watching x r).mp member
    exact ⟨(base r).mpr isNew, watches⟩
  · intro r member x watches
    exact (watching x r).mpr ⟨original ▸ member, watches⟩
  · intro r member
    rw [learnt] at member
    cases member
  · exact once

/-- No literal was looked at yet. -/
theorem Building.pending (building : Building F done s newClauses) : Pending F f s where
  assigned := building.assigned
  split := by
    refine ⟨s.trail, [], by simp, building.qHead.symm, fun l member => ?_, fun r _ => ?_⟩
    · exact (building.facts l member).1.trans building.level.symm
    · match s.lits r with
      | [] | [_] => trivial
      | a :: b :: rest => exact ⟨fun fails => (nomatch fails), fun fails => nomatch fails⟩

/-- What `search` starts with, for given clauses and assumptions. -/
theorem initClauses_returns (order : IterationOrder ℕ) {assumptions : List ℕ} (fresh : Fresh s)
    (given : ∀ c ∈ F, Given s.nbVars c)
    (inside : ∀ p ∈ assumptions, p / 2 < s.nbVars) :
    ∃ s' f, s.initClauses order F = some s' ∧ Constants s s' ∧ s'.cnfFormula = some f ∧ Database F s' f ∧
      Pending F f s' ∧ s'.decisionLevel = 0 ∧
      ((s'.status = .unknown ∧ Going F { s' with assumptions := assumptions } f) ∨
        (s'.status = .unsatisfiable ∧ ∀ σ, ¬ Models σ F)) := by
  obtain ⟨s₁, newClauses, listed, building, constants⟩ := initClauseList_returns order fresh.building
    fun c member => ⟨member, given c member⟩
  obtain ⟨f, formula, original, learnt, holding⟩ := newFormula_returns building.formed
  have formed₁ : ∀ r ∈ newClauses, Formed F (s₁.setFormula f) r := fun r member =>
    (building.formed r member).perm (le_refl _) rfl (List.Perm.refl _)
  have unwatched : ∀ x, (s₁.setFormula f).watched x = [] := building.watched
  have nodup : ([] ++ newClauses).Nodup := building.nodup
  obtain ⟨watched, recorded, watching, once⟩ := foldlM_recordClause formed₁ nodup
    (fun x r => by simp [unwatched x]) fun x => by simp [unwatched x]
  have database := building.database original learnt watching once
  refine ⟨_, f, ?_, ?_, rfl, database, ?_, building.level, ?_⟩
  · simp only [initClauses, listed, formula, Option.bind_eq_bind, Option.bind_some]
    exact recorded
  · exact ⟨constants.nbVars, constants.nbSolveCalls, constants.incrementallyAddedClauses,
      constants.learntClauses, constants.assumptions⟩
  · have pending := building.pending (f := f)
    exact ⟨pending.assigned.congr ⟨rfl, rfl, rfl, rfl, rfl, fun _ _ => rfl⟩, pending.split⟩
  · refine building.status.imp (And.imp_right fun covered => ?_) id
    constructor
    · rfl
    · exact database.congr rfl rfl (le_refl _) rfl
    · intro c member
      rcases covered c (by simpa using member) with always | ⟨l, inClause, holds⟩ | ⟨r, isNew, within⟩
      · exact .inl always
      · exact .inr (.inl ⟨l, inClause, holds, (building.facts l holds).1.le⟩)
      · exact .inr (.inr ⟨r, original ▸ isNew, within⟩)
    · exact ⟨_, holding, fun v bound _ => bound⟩
    · exact building.unseen
    · exact building.noRestart
    -- facts have no reason
    · intro l member r isReason
      exact absurd ((building.facts l member).2.symm.trans isReason) (Option.some_ne_none r).symm
    · constructor
      · exact fun p member => (inside p member).trans_eq constants.nbVars.symm
      · intro i p _ early
        have early : (i : ℤ) < s₁.decisionLevel := early
        rw [building.level] at early
        omega
      · intro l member _ positive _
        have positive : 0 < s₁.levels (l / 2) := positive
        rw [(building.facts l member).1] at positive
        exact absurd positive (lt_irrefl 0)
      · intro level high low
        have low : level ≤ s₁.decisionLevel := low
        have high : (assumptions.length : ℤ) < level := high
        rw [building.level] at low
        omega
    · intro empty
      obtain ⟨g, represents⟩ := holding.represents
      have none := represents.isEmpty_iff.mp empty
      -- there are no variables at all then
      have noAssumption : assumptions = [] := by
        refine List.eq_nil_iff_forall_not_mem.mpr fun p member => ?_
        have bound : p / 2 ∈ {v | v < s₁.nbVars} := (inside p member).trans_eq constants.nbVars.symm
        rw [none] at bound
        cases bound
      have level := building.level
      show (assumptions.length : ℤ) ≤ s₁.decisionLevel
      rw [noAssumption, level]
      rfl

end NewFormula

end Renaissance.CafeSat.Solver
