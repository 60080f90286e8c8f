import Renaissance.ScalaSat.ConflictAnalysis

/-!
# Learnt clauses

`learn` makes a clause one of the database: the activities of its variables rise, it is watched at its first
two literals, and if there are too many learnt clauses then the half of them that is least active is
forgotten, unless they are locked. `learn_returns`: none of this can fail, and the database is kept.
-/

namespace Renaissance.CafeSat.Solver

open Clauses FixedIntDoublePriorityQueue

variable {F : List (List ℕ)} {s s' : Solver} {f f' : CNFFormula} {l n : ℕ} {r : ClauseRef} {C : Set ℕ}

section Activity

open JavaDouble (double double_mono double_zero)

theorem double_nonneg {x : ℚ} (nonneg : 0 ≤ x) : 0 ≤ double x := by
  have := double_mono (le_refl 0) nonneg
  rwa [double_zero] at this

theorem rescaleFactor_nonneg : 0 ≤ CNFFormula.rescaleFactor :=
  double_nonneg (by norm_num)

theorem vsidsDecay_nonneg : 0 ≤ CNFFormula.vsidsDecay :=
  double_nonneg (div_nonneg zero_le_one (double_nonneg (by norm_num)))

/-- The lists of clauses stay as they are. -/
structure SameClauses (f f' : CNFFormula) : Prop where
  original : f'.originalClauses = f.originalClauses
  learnt : f'.learntClauses = f.learntClauses

theorem Database.sameClauses (database : Database F s f) (same : SameClauses f f') : Database F s f' :=
  database.relist same.original fun r => by rw [same.learnt]

theorem Holding.incVSIDS (holding : Holding f n C) {id : ℕ} (inside : id < n) :
    ∃ f', f.incVSIDS id = some f' ∧ Holding f' n C ∧ SameClauses f f' := by
  obtain ⟨⟨g, represents⟩, size, nonneg⟩ := holding
  obtain ⟨q, result, size', represents'⟩ := incScore_represents represents (size.symm ▸ inside) nonneg
  simp only [CNFFormula.incVSIDS, result, Option.bind_eq_bind, Option.bind_some]
  split_ifs
  · exact ⟨_, rfl, ⟨rescaleScores_represents represents' _, size'.trans size,
      double_nonneg (mul_nonneg nonneg rescaleFactor_nonneg)⟩, rfl, rfl⟩
  · exact ⟨_, rfl, ⟨⟨_, represents'⟩, size'.trans size, nonneg⟩, rfl, rfl⟩

theorem Holding.foldlM_incVSIDS (holding : Holding f n C) {ls : List ℕ} (inside : ∀ lit ∈ ls, lit / 2 < n) :
    ∃ f', ls.foldlM (fun (f : CNFFormula) lit => f.incVSIDS (lit / 2)) f = some f' ∧ Holding f' n C ∧
      SameClauses f f' := by
  induction ls generalizing f with
  | nil => exact ⟨f, rfl, holding, rfl, rfl⟩
  | cons lit ls ih =>
      obtain ⟨f₁, first, holding₁, same₁⟩ := holding.incVSIDS (inside lit List.mem_cons_self)
      obtain ⟨f', rest, holding', same'⟩ := ih holding₁ fun k member =>
        inside k (List.mem_cons_of_mem _ member)
      exact ⟨f', by simp [first, rest], holding', same'.original.trans same₁.original,
        same'.learnt.trans same₁.learnt⟩

theorem Holding.decay (holding : Holding f n C) : Holding f.decayVSIDS.decayVSIDSClause n C :=
  ⟨holding.represents, holding.size, double_nonneg (mul_nonneg holding.nonneg vsidsDecay_nonneg)⟩

end Activity

section Record

variable {a b : ℕ} {rest : List ℕ}

/-- Clauses may be locked, and have other activities and watches. -/
def Rewatched (s s' : Solver) : Prop :=
  ∃ clauses watched, s' = { s with clauses := clauses, watched := watched } ∧
    ∀ r, (clauses r).lits = s.lits r

theorem Rewatched.refl (s : Solver) : Rewatched s s :=
  ⟨s.clauses, s.watched, rfl, fun _ => rfl⟩

theorem Rewatched.trans {s'' : Solver} (first : Rewatched s s') (second : Rewatched s' s'') :
    Rewatched s s'' := by
  obtain ⟨clauses, watched, rfl, lits⟩ := first
  obtain ⟨clauses', watched', rfl, lits'⟩ := second
  exact ⟨clauses', watched', rfl, fun r => (lits' r).trans (lits r)⟩

theorem watched_watch (different : a ≠ b) (x : ℕ) : ((s.watch a r).watch b r).watched x =
    s.watched x ++ if x = a ∨ x = b then [r] else [] := by
  simp only [watch, Function.update_apply]
  by_cases second : x = b
  · simp [second, different.symm]
  · by_cases first : x = a <;> simp [first, second, different]

theorem watched_unwatch (different : a ≠ b) (x : ℕ) : ((s.unwatch a r).unwatch b r).watched x =
    if x = a ∨ x = b then (s.watched x).filter (· ≠ r) else s.watched x := by
  simp only [unwatch, Function.update_apply]
  by_cases second : x = b
  · simp [second, different.symm]
  · by_cases first : x = a <;> simp [first, second, different]

theorem Formed.first_ne_second (formed : Formed F s r) (lits : s.lits r = a :: b :: rest) : a ≠ b := by
  have nodup := formed.nodup
  rw [lits] at nodup
  exact fun same => (List.nodup_cons.mp nodup).1 (by simp [same])

/-- A new clause is watched. -/
theorem Database.record (database : Database F s f) (formed : Formed F s r)
    (new : r ∉ f.originalClauses ++ f.learntClauses) :
    ∃ s', s.recordClause r = some s' ∧ Rewatched s s' ∧
      Database F s' { f with learntClauses := r :: f.learntClauses } := by
  obtain ⟨a, b, rest, lits⟩ := formed.split
  have different := formed.first_ne_second lits
  -- A clause that is in neither of the lists is watched by no literal yet.
  have notListed : ∀ x, r ∉ s.watched x := fun x listed => new (database.watching x r listed).1
  refine ⟨(s.watch a r).watch b r, by simp [recordClause, lits], ⟨s.clauses, _, rfl, fun _ => rfl⟩, ?_⟩
  constructor
  · intro r' member
    by_cases same : r' = r
    · rw [same]
      exact formed.perm (le_refl _) rfl (List.Perm.refl _)
    · refine (database.formed r' ?_).perm (le_refl _) rfl (List.Perm.refl _)
      simp only [List.mem_append, List.mem_cons] at member ⊢
      tauto
  · intro x r' member
    rw [watched_watch different] at member
    rcases List.mem_append.mp member with old | isNew
    · have ⟨inBase, watches⟩ := database.watching x r' old
      refine ⟨?_, watches⟩
      simp only [List.mem_append, List.mem_cons] at inBase ⊢
      tauto
    · split_ifs at isNew with here
      · rw [List.mem_singleton.mp isNew]
        exact ⟨by simp, (watches_iff lits).mpr here⟩
      · cases isNew
  · intro r' member x watches
    rw [watched_watch different]
    exact List.mem_append_left _ (database.attached r' member x watches)
  · intro r' member
    rcases List.mem_cons.mp member with rfl | old
    · exact fun original => new (List.mem_append_left _ original)
    · exact database.apart r' old
  · intro x
    rw [watched_watch different]
    split_ifs
    · refine List.nodup_append.mpr ⟨database.nodup x, List.nodup_singleton r, fun r' old r'' last => ?_⟩
      rw [List.mem_singleton.mp last]
      exact fun same => notListed x (same ▸ old)
    · rw [List.append_nil]
      exact database.nodup x

/-- A learnt clause is not watched any more. -/
theorem Database.unrecord {ls : List ClauseRef} (database : Database F s f)
    (learnt : f.learntClauses = r :: ls) :
    ∃ s', s.unrecordClause r = some s' ∧ Rewatched s s' ∧ Database F s' { f with learntClauses := ls } := by
  have formed := database.formed r (by simp [learnt])
  obtain ⟨a, b, rest, lits⟩ := formed.split
  have different := formed.first_ne_second lits
  have fewer : ls ⊆ f.learntClauses := by
    rw [learnt]
    exact List.subset_cons_self r ls
  have notOriginal := database.apart r (by simp [learnt])
  refine ⟨(s.unwatch a r).unwatch b r, by simp [unrecordClause, lits], ⟨s.clauses, _, rfl, fun _ => rfl⟩, ?_⟩
  constructor
  · intro r' member
    refine (database.formed r' ?_).perm (le_refl _) rfl (List.Perm.refl _)
    exact List.append_subset.mpr ⟨List.subset_append_left _ _,
      List.Subset.trans fewer (List.subset_append_right _ _)⟩ member
  · intro x r' member
    rw [watched_unwatch different] at member
    have old : r' ∈ s.watched x := by
      split_ifs at member
      · exact (List.mem_filter.mp member).1
      · exact member
    have ⟨inBase, watches⟩ := database.watching x r' old
    -- The lists that the clause was on are exactly the two that are filtered.
    have kept : r' ≠ r := by
      rintro rfl
      rw [if_pos ((watches_iff lits).mp watches)] at member
      simp at member
    refine ⟨?_, watches⟩
    simp only [learnt, List.mem_append, List.mem_cons] at inBase ⊢
    tauto
  · intro r' member x watches
    have listed := database.attached r' member x watches
    have kept : r' ≠ r := fun same => notOriginal (same ▸ member)
    rw [watched_unwatch different]
    split_ifs
    · exact List.mem_filter.mpr ⟨listed, by simpa using kept⟩
    · exact listed
  · exact fun r' member => database.apart r' (fewer member)
  · intro x
    rw [watched_unwatch different]
    split_ifs
    · exact (database.nodup x).filter _
    · exact database.nodup x

end Record

section Learn

/-- The counters and the list of learnt clauses are other ones. -/
def Relisted (f f' : CNFFormula) : Prop :=
  ∃ learntClauses nbClauses nbLearntClauses, f' = { f with
    learntClauses := learntClauses
    nbClauses := nbClauses
    nbLearntClauses := nbLearntClauses }

theorem forget_returns {forgotten : List ClauseRef}
    (database : Database F s { f with learntClauses := forgotten ++ f.learntClauses }) :
    ∃ s' f', forget forgotten s f = some (s', f') ∧ Rewatched s s' ∧ Database F s' f' ∧ Relisted f f' := by
  induction forgotten generalizing s f with
  | nil => exact ⟨s, f, rfl, .refl s, database, _, _, _, rfl⟩
  | cons cl forgotten ih =>
      -- A locked clause goes back to the learnt clauses, any other one is unwatched.
      by_cases locked : (s.clauses cl).locked = true
      · have moved : Database F s { f with learntClauses := forgotten ++ (cl :: f.learntClauses) } :=
          database.relist rfl fun r => by simp [or_left_comm]
        obtain ⟨s', f', result, rewatched, database', ls, _, _, rfl⟩ :=
          ih (f := { f with learntClauses := cl :: f.learntClauses }) moved
        exact ⟨s', _, by simp [forget, locked, result], rewatched, database', ls, _, _, rfl⟩
      · obtain ⟨s₁, removed, rewatched₁, database₁⟩ := database.unrecord rfl
        obtain ⟨s', f', result, rewatched, database', ls, n, m, rfl⟩ :=
          ih (f := { f with nbClauses := f.nbClauses - 1, nbLearntClauses := f.nbLearntClauses - 1 })
            (database₁.relist rfl fun _ => Iff.rfl)
        exact ⟨s', _, by simp [forget, locked, removed, result], rewatched₁.trans rewatched, database',
          ls, n, m, rfl⟩

theorem reduceLearntClauses_returns (database : Database F s f) :
    ∃ s' f', s.reduceLearntClauses f = some (s', f') ∧ Rewatched s s' ∧ Database F s' f' ∧ Relisted f f' := by
  unfold reduceLearntClauses
  dsimp only
  generalize isSorted : f.learntClauses.insertionSort (fun cl₁ cl₂ =>
    (s.clauses cl₁).activity ≤ (s.clauses cl₂).activity) = sorted
  -- Only the set of the learnt clauses matters, so the order of the activities does not.
  have same : ∀ r, r ∈ sorted ↔ r ∈ f.learntClauses := by
    intro r
    rw [← isSorted]
    exact (List.perm_insertionSort _ _).mem_iff
  have database₁ : Database F s { f with
      learntClauses := sorted.take (f.maxLearnt / 2) ++ sorted.drop (f.maxLearnt / 2) } :=
    database.relist rfl fun r => by
      rw [List.take_append_drop]
      exact same r
  obtain ⟨s', f', result, rewatched, database', ls, n, m, rfl⟩ :=
    forget_returns (f := { f with learntClauses := sorted.drop (f.maxLearnt / 2) }) database₁
  exact ⟨s', _, result, rewatched, database', ls, n, m, rfl⟩

theorem learn_returns (database : Database F s f) (holding : Holding f s.nbVars C) (formed : Formed F s r)
    (new : r ∉ f.originalClauses ++ f.learntClauses) :
    ∃ s' f', s.learn f r = some (s', f') ∧ Rewatched s s' ∧ Database F s' f' ∧ Holding f' s.nbVars C ∧
      f'.originalClauses = f.originalClauses := by
  obtain ⟨f₂, raised, holding₂, same₂⟩ := Holding.foldlM_incVSIDS (f := { f with
    learntClauses := r :: f.learntClauses
    nbClauses := f.nbClauses + 1
    nbLearntClauses := f.nbLearntClauses + 1 }) ⟨holding.represents, holding.size, holding.nonneg⟩ formed.inside
  obtain ⟨clauses, inc, activity, lits⟩ := incVSIDSClause_eq s f₂ r
  have formed₁ : Formed F { s with clauses := clauses } r :=
    formed.perm (le_refl _) rfl
      (by rw [show Solver.lits { s with clauses := clauses } r = s.lits r from lits r])
  have database₁ : Database F { s with clauses := clauses } f :=
    database.congr (funext lits) rfl (le_refl _) rfl
  obtain ⟨s₂, recorded, rewatched, database₂⟩ := database₁.record formed₁ new
  have rewatched₂ : Rewatched s s₂ := Rewatched.trans ⟨clauses, s.watched, rfl, lits⟩ rewatched
  have database₃ : Database F s₂ { f₂ with vsidsClauseInc := inc } :=
    database₂.relist same₂.original fun r => by rw [same₂.learnt]
  have long : 1 < (s.lits r).length := formed.long
  simp only [learn, long, if_true, raised, activity, recorded, Option.bind_eq_bind, Option.bind_some]
  split_ifs
  · obtain ⟨s', f', reduced, rewatched', database', ls, n, m, rfl⟩ := reduceLearntClauses_returns database₃
    exact ⟨s', _, reduced, rewatched₂.trans rewatched', database',
      ⟨holding₂.represents, holding₂.size, holding₂.nonneg⟩, same₂.original⟩
  · exact ⟨s₂, _, rfl, rewatched₂, database₃, ⟨holding₂.represents, holding₂.size, holding₂.nonneg⟩,
      same₂.original⟩

end Learn

end Renaissance.CafeSat.Solver
