import Renaissance.ScalaSat.Propagation

/-!
# Conflict analysis

`conflictAnalysis` makes a clause out of a conflict. `find1UIP` replaces literals of the last level by the
other literals of their reasons, until only one of them is left, and `minimize` leaves out literals that
follow from others. `conflictAnalysis_returns` says what is true of the learnt clause: it follows from the
clauses of the solver, all of its literals are false, and all but the first one are of earlier levels.
-/

namespace Renaissance.CafeSat.Solver

open Clauses ImplicationGraph WhileLoop

variable {F : List (List ℕ)} {s s' : Solver} {f : CNFFormula} {l : ℕ} {r : ClauseRef}

/-- The solver with other activities and marks. -/
def marking (s : Solver) (clauses : ℕ → Clause) (seen : ℕ → Bool) (f : CNFFormula) : Solver :=
  { s with clauses := clauses, seen := seen, cnfFormula := some f }

@[simp] theorem marking_setFormula (clauses : ℕ → Clause) (seen : ℕ → Bool) (f f' : CNFFormula) :
    (s.marking clauses seen f).setFormula f' = s.marking clauses seen f' := rfl

@[simp] theorem marking_setSeen (clauses : ℕ → Clause) (seen seen' : ℕ → Bool) (f : CNFFormula) :
    (s.marking clauses seen f).setSeen seen' = s.marking clauses seen' f := rfl

@[simp] theorem marking_seen (clauses : ℕ → Clause) (seen : ℕ → Bool) (f : CNFFormula) :
    (s.marking clauses seen f).seen = seen := rfl

/-- Analysis changes activities and marks. -/
def Analysed (s : Solver) (f : CNFFormula) (s' : Solver) (seen : ℕ → Bool) : Prop :=
  ∃ (clauses : ℕ → Clause) (inc : ℚ), (∀ r, (clauses r).lits = s.lits r) ∧
    s' = s.marking clauses seen { f with vsidsClauseInc := inc }

theorem clauses_foldl_setActivity (activity : Solver → ClauseRef → ℚ) (rs : List ClauseRef) (s : Solver) :
    ∃ clauses : ℕ → Clause, rs.foldl (fun s r => s.setActivity r (activity s r)) s =
      { s with clauses := clauses } ∧ ∀ r, (clauses r).lits = s.lits r := by
  induction rs generalizing s with
  | nil => exact ⟨s.clauses, rfl, fun r => rfl⟩
  | cons r rs ih =>
      obtain ⟨clauses, same, lits⟩ := ih (s.setActivity r (activity s r))
      refine ⟨clauses, same, fun r' => (lits r').trans ?_⟩
      rw [lits_setActivity]

theorem incVSIDSClause_eq (s : Solver) (f : CNFFormula) (r : ClauseRef) :
    ∃ (clauses : ℕ → Clause) (inc : ℚ), s.incVSIDSClause f r =
      ({ s with clauses := clauses }, { f with vsidsClauseInc := inc }) ∧
        ∀ r, (clauses r).lits = s.lits r := by
  unfold incVSIDSClause
  dsimp only
  split
  · rw [rescaleVSIDSClause]
    obtain ⟨clauses, same, lits⟩ := clauses_foldl_setActivity
      (fun s cl => JavaDouble.double ((s.clauses cl).activity * CNFFormula.rescaleFactor)) f.learntClauses
      (s.setActivity r (JavaDouble.double ((s.clauses r).activity + f.vsidsClauseInc)))
    refine ⟨clauses, _, by rw [same]; rfl, fun r' => (lits r').trans ?_⟩
    rw [lits_setActivity]
  · refine ⟨_, f.vsidsClauseInc, rfl, fun r' => ?_⟩
    exact congrFun (lits_setActivity s r _) r'

section Find1UIP

variable {T rest learnt : List ℕ} {levels : ℕ → ℤ} {dl : ℤ} {seen : ℕ → Bool} {c p : ℕ} {M : ℕ → Prop}

theorem nextSeen_eq (some' : ∃ l ∈ rest, seen (l / 2) = true) :
    ∃ skipped p rest', nextSeen seen rest = some (p, rest') ∧ rest = skipped ++ p :: rest' ∧
      seen (p / 2) = true ∧ ∀ l ∈ skipped, seen (l / 2) = false := by
  induction rest with
  | nil => obtain ⟨_, member, _⟩ := some'; cases member
  | cons first rest ih =>
      cases here : seen (first / 2) with
      | true => exact ⟨[], first, rest, by simp [nextSeen, here], rfl, here, fun _ member => nomatch member⟩
      | false =>
          have later : ∃ l ∈ rest, seen (l / 2) = true := by
            obtain ⟨l, member, sees⟩ := some'
            rcases List.mem_cons.mp member with rfl | inner
            · rw [here] at sees
              cases sees
            · exact ⟨l, inner, sees⟩
          obtain ⟨skipped, p, rest', found, split, sees, unseen⟩ := ih later
          exact ⟨first :: skipped, p, rest', by simp [nextSeen, here, found], by rw [split]; rfl, sees,
            List.forall_mem_cons.mpr ⟨here, unseen⟩⟩

/-- A variable of the last level that is seen and not yet passed. -/
def atLast (levels : ℕ → ℤ) (dl : ℤ) (seen : ℕ → Bool) (l : ℕ) : Bool :=
  seen (l / 2) && levels (l / 2) = dl

/-- The reason of the literal leads to marked variables. -/
def Follows (s : Solver) (M : ℕ → Prop) (l : ℕ) : Prop :=
  ∃ others, s.reasonLits (l / 2) = some (l :: others) ∧ ∀ k ∈ others, M (k / 2) ∨ s.levels (k / 2) = 0

theorem Follows.mono {M' : ℕ → Prop} (follows : s.Follows M l) (more : ∀ v, M v → M' v) : s.Follows M' l := by
  obtain ⟨others, reason, within⟩ := follows
  exact ⟨others, reason, fun k member => (within k member).imp_left (more _)⟩

/-- What is true of the marks while the trail `T` is gone down to `rest`. A variable that is marked is
seen, or its reason leads to marked variables, or it is `p`. -/
structure Cut (s : Solver) (M : ℕ → Prop) (p : Option ℕ) (seen : ℕ → Bool) (learnt : List ℕ) (c : ℕ)
    (rest : List ℕ) : Prop where
  suffix : rest <:+ s.trail
  marked : ∀ v, seen v = true → M v
  closed : ∀ l ∈ s.trail, M (l / 2) → seen (l / 2) = true ∨ some l = p ∨ s.Follows M l
  low : ∀ v, seen v = true → s.levels v ≠ s.decisionLevel → ∃ lit ∈ learnt, lit / 2 = v
  early : ∀ lit ∈ learnt, seen (lit / 2) = true ∧ neg lit ∈ s.trail ∧ 0 < s.levels (lit / 2) ∧
    s.levels (lit / 2) < s.decisionLevel
  distinct : (learnt.map (· / 2)).Nodup
  high : ∀ v, seen v = true → s.levels v = s.decisionLevel → ∃ l ∈ rest, l / 2 = v
  count : c = rest.countP (atLast s.levels s.decisionLevel seen)

theorem countP_atLast_mark (distinct : (rest.map (· / 2)).Nodup) (member : l ∈ rest)
    (unseen : seen (l / 2) = false) (level : levels (l / 2) = dl) :
    rest.countP (atLast levels dl (Function.update seen (l / 2) true)) =
      rest.countP (atLast levels dl seen) + 1 := by
  obtain ⟨before, after, rfl⟩ := List.append_of_mem member
  rw [List.map_append, List.map_cons] at distinct
  have split := List.nodup_append.mp distinct
  have others : ∀ k, k / 2 ≠ l / 2 → atLast levels dl (Function.update seen (l / 2) true) k =
      atLast levels dl seen k := fun k other => by
    rw [atLast, atLast, Function.update_of_ne other]
  have first : before.countP (atLast levels dl (Function.update seen (l / 2) true)) =
      before.countP (atLast levels dl seen) := by
    refine List.countP_congr fun k inBefore => ?_
    rw [others k fun same => split.2.2 (k / 2) (List.mem_map_of_mem inBefore) (l / 2) (by simp) same]
  have second : after.countP (atLast levels dl (Function.update seen (l / 2) true)) =
      after.countP (atLast levels dl seen) := by
    refine List.countP_congr fun k inAfter => ?_
    have notAfter := (List.nodup_cons.mp split.2.1).1
    rw [others k fun same => notAfter (same ▸ List.mem_map_of_mem inAfter)]
  have here : atLast levels dl (Function.update seen (l / 2) true) l = true := by simp [atLast, level]
  have notBefore : atLast levels dl seen l = false := by simp [atLast, unseen]
  rw [List.countP_append, List.countP_append, List.countP_cons, List.countP_cons, first, second, here,
    notBefore]
  simp
  omega

theorem stays_seen {v w : ℕ} (sees : seen w = true) : Function.update seen v true w = true := by
  rw [Function.update_apply]
  split_ifs
  · rfl
  · exact sees

variable {p' : Option ℕ} {k : ℕ}

theorem Cut.marked_mark (cut : Cut s M p' seen learnt c rest) (v w : ℕ)
    (sees : Function.update seen v true w = true) : M w ∨ w = v := by
  by_cases same : w = v
  · exact .inr same
  · rw [Function.update_of_ne same] at sees
    exact .inl (cut.marked w sees)

theorem Cut.closed_mark (cut : Cut s M p' seen learnt c rest) (v : ℕ) (member : l ∈ s.trail)
    (mark : M (l / 2) ∨ l / 2 = v) : Function.update seen v true (l / 2) = true ∨ some l = p' ∨
      s.Follows (fun w => M w ∨ w = v) l := by
  by_cases same : l / 2 = v
  · exact .inl (by rw [same, Function.update_self])
  · rw [Function.update_of_ne same]
    exact (cut.closed l member (mark.resolve_right same)).imp_right
      (Or.imp_right (Follows.mono · fun _ => .inl))

/-- Marking a literal of the last level. -/
theorem Cut.mark_last (cut : Cut s M p' seen learnt c rest) (assigned : Assigned F s)
    (inRest : neg k ∈ rest) (unseen : seen (k / 2) = false) (level : s.levels (k / 2) = s.decisionLevel) :
    Cut s (fun v => M v ∨ v = k / 2) p' (Function.update seen (k / 2) true) learnt (c + 1) rest where
  suffix := cut.suffix
  marked := cut.marked_mark (k / 2)
  closed _ := cut.closed_mark (k / 2)
  low v sees notLast := by
    by_cases same : v = k / 2
    · exact absurd (same ▸ level) notLast
    · rw [Function.update_of_ne same] at sees
      exact cut.low v sees notLast
  early lit member := by
    exact (cut.early lit member).imp_left stays_seen
  distinct := cut.distinct
  high v sees last := by
    by_cases same : v = k / 2
    · exact ⟨neg k, inRest, by rw [var_neg, same]⟩
    · rw [Function.update_of_ne same] at sees
      exact cut.high v sees last
  count := by
    have distinct := assigned.graph.distinct.sublist (cut.suffix.sublist.map (· / 2))
    have unseen' : seen (neg k / 2) = false := by rwa [var_neg]
    have level' : s.levels (neg k / 2) = s.decisionLevel := by rwa [var_neg]
    have more := countP_atLast_mark distinct inRest unseen' level'
    rw [var_neg] at more
    rw [more, cut.count]

/-- Marking a literal of an earlier level. -/
theorem Cut.mark_early (cut : Cut s M p' seen learnt c rest) (assigned : Assigned F s)
    (inRest : neg k ∈ rest) (unseen : seen (k / 2) = false) (positive : 0 < s.levels (k / 2))
    (notLast : s.levels (k / 2) ≠ s.decisionLevel) :
    Cut s (fun v => M v ∨ v = k / 2) p' (Function.update seen (k / 2) true) (k :: learnt) c rest where
  suffix := cut.suffix
  marked := cut.marked_mark (k / 2)
  closed _ := cut.closed_mark (k / 2)
  low v sees before := by
    by_cases same : v = k / 2
    · exact ⟨k, List.mem_cons_self, same.symm⟩
    · rw [Function.update_of_ne same] at sees
      obtain ⟨lit, member, var⟩ := cut.low v sees before
      exact ⟨lit, List.mem_cons_of_mem _ member, var⟩
  early := by
    have inTrail := cut.suffix.subset inRest
    have level := assigned.level_le (neg k) inTrail
    rw [var_neg] at level
    refine List.forall_mem_cons.mpr ⟨⟨Function.update_self _ _ _, inTrail, positive, by omega⟩, ?_⟩
    intro lit member
    exact (cut.early lit member).imp_left stays_seen
  distinct := by
    rw [List.map_cons, List.nodup_cons]
    refine ⟨fun old => ?_, cut.distinct⟩
    obtain ⟨lit, member, same⟩ := List.mem_map.mp old
    have sees := (cut.early lit member).1
    rw [same, unseen] at sees
    cases sees
  high v sees last := by
    by_cases same : v = k / 2
    · exact absurd (same ▸ last) notLast
    · rw [Function.update_of_ne same] at sees
      exact cut.high v sees last
  count := by
    rw [cut.count]
    refine List.countP_congr fun l member => ?_
    by_cases same : l / 2 = k / 2
    · simp [atLast, same, notLast]
    · simp [atLast, Function.update_of_ne same]

/-- All literals of the clause are seen, but for those of level `0`. -/
theorem markLiterals_eq {ls : List ℕ} {a : Find1UIP} (assigned : Assigned F s)
    (cut : Cut s M p' a.solver.seen a.learntClause a.c rest) (levels : a.solver.levels = s.levels)
    (dl : a.solver.decisionLevel = s.decisionLevel) (fails : ∀ k ∈ ls, neg k ∈ rest) :
    ∃ seen' learnt' c' M', markLiterals ls a = { a with
        solver := a.solver.setSeen seen'
        learntClause := learnt'
        c := c' } ∧
      Cut s M' p' seen' learnt' c' rest ∧ (∀ v, M v → M' v) ∧ a.c ≤ c' ∧
      (∀ v, a.solver.seen v = true → seen' v = true) ∧
      ∀ k ∈ ls, seen' (k / 2) = true ∨ s.levels (k / 2) = 0 := by
  induction ls generalizing a M with
  | nil =>
      exact ⟨_, _, _, M, rfl, cut, fun _ => id, le_refl _, fun _ => id, fun _ member => nomatch member⟩
  | cons k ls ih =>
      have inRest := fails k List.mem_cons_self
      have later := fun l member => fails l (List.mem_cons_of_mem k member)
      have nonneg := assigned.graph.nonneg (neg k) (cut.suffix.subset inRest)
      rw [var_neg] at nonneg
      rw [markLiterals, levels]
      by_cases new : a.solver.seen (k / 2) = false ∧ 0 < s.levels (k / 2)
      · obtain ⟨unseen, positive⟩ := new
        rw [if_pos (by simp [unseen, positive])]
        -- a literal of the last level is counted, one of an earlier level is learnt
        by_cases last : s.levels (k / 2) = s.decisionLevel
        · rw [if_pos (by rw [last]; exact dl.symm)]
          obtain ⟨seen', learnt', c', M', same, cut', more, count, kept, all⟩ := ih
            (a := { a with
              solver := a.solver.setSeen (Function.update a.solver.seen (k / 2) true)
              c := a.c + 1 })
            (cut.mark_last assigned inRest unseen last) levels dl later
          refine ⟨seen', learnt', c', M', same, cut', fun v mark => more v (.inl mark),
            (Nat.le_succ _).trans count, fun v sees => kept v (stays_seen sees),
            List.forall_mem_cons.mpr ⟨.inl (kept _ (Function.update_self _ _ _)), all⟩⟩
        · rw [if_neg fun equal => last (equal.trans dl)]
          obtain ⟨seen', learnt', c', M', same, cut', more, count, kept, all⟩ := ih
            (a := { a with
              solver := a.solver.setSeen (Function.update a.solver.seen (k / 2) true)
              learntClause := k :: a.learntClause })
            (cut.mark_early assigned inRest unseen positive last) levels dl later
          refine ⟨seen', learnt', c', M', same, cut', fun v mark => more v (.inl mark), count,
            fun v sees => kept v (stays_seen sees),
            List.forall_mem_cons.mpr ⟨.inl (kept _ (Function.update_self _ _ _)), all⟩⟩
      · rw [if_neg (by simpa using new)]
        obtain ⟨seen', learnt', c', M', same, cut', more, count, kept, all⟩ := ih cut levels dl later
        refine ⟨seen', learnt', c', M', same, cut', more, count, kept,
          List.forall_mem_cons.mpr ⟨?_, all⟩⟩
        by_cases sees : a.solver.seen (k / 2) = true
        · exact .inl (kept _ sees)
        · refine .inr ?_
          have notPositive : ¬ 0 < s.levels (k / 2) := fun positive =>
            new ⟨Bool.eq_false_iff.mpr sees, positive⟩
          omega

theorem Cut.exists_open (cut : Cut s M p' seen learnt c rest) (positive : 0 < c) :
    ∃ l ∈ rest, seen (l / 2) = true ∧ s.levels (l / 2) = s.decisionLevel := by
  rw [cut.count, List.countP_pos_iff] at positive
  obtain ⟨l, member, isOpen⟩ := positive
  exact ⟨l, member, by simpa [atLast] using isOpen⟩

/-- The next literal that is seen is one of the last level. -/
theorem Cut.next (cut : Cut s M p' seen learnt c rest) (assigned : Assigned F s)
    (done : ∀ l ∈ s.trail, some l = p' → s.Follows M l) (positive : 0 < c) :
    ∃ q rest', nextSeen seen rest = some (q, rest') ∧ s.levels (q / 2) = s.decisionLevel ∧
      q :: rest' <:+ s.trail ∧ rest'.length < rest.length ∧
      Cut s M (some q) (Function.update seen (q / 2) false) learnt (c - 1) rest' := by
  obtain ⟨late, inRest, sees, level⟩ := cut.exists_open positive
  obtain ⟨skipped, q, rest', found, split, seesQ, unseen⟩ := nextSeen_eq ⟨late, inRest, sees⟩
  have suffix : q :: rest' <:+ s.trail :=
    (split ▸ List.suffix_append skipped _ : q :: rest' <:+ rest).trans cut.suffix
  have inTrail : q ∈ s.trail := suffix.subset List.mem_cons_self
  have sorted := assigned.graph.sorted.sublist suffix.sublist
  have distinct := assigned.graph.distinct.sublist (suffix.sublist.map (· / 2))
  have others : ∀ l ∈ rest', l / 2 ≠ q / 2 := fun l member same =>
    (List.nodup_cons.mp distinct).1 (List.mem_map.mpr ⟨l, member, same⟩)
  have levelQ : s.levels (q / 2) = s.decisionLevel := by
    have below := assigned.level_le q inTrail
    rw [split] at inRest
    rcases List.mem_append.mp inRest with before | after
    · rw [unseen late before] at sees
      cases sees
    · rcases List.mem_cons.mp after with rfl | later
      · exact level
      · have order := List.rel_of_pairwise_cons sorted later
        omega
  refine ⟨q, rest', found, levelQ, suffix, by simp [split]; omega, ?_⟩
  constructor
  · exact (List.suffix_cons q rest').trans suffix
  · intro v sees
    rw [Function.update_apply] at sees
    split_ifs at sees
    exact cut.marked v sees
  -- `q` takes the place of `p'`, whose reason has been looked at by now
  · intro l member mark
    by_cases same : l / 2 = q / 2
    · refine .inr (.inl ?_)
      rw [List.inj_on_of_nodup_map assigned.graph.distinct member inTrail same]
    · rw [Function.update_of_ne same]
      rcases cut.closed l member mark with sees | isP | reason
      · exact .inl sees
      · exact .inr (.inr (done l member isP))
      · exact .inr (.inr reason)
  · intro v sees notLast
    rw [Function.update_apply] at sees
    split_ifs at sees
    exact cut.low v sees notLast
  · intro lit member
    have ⟨sees, fails, positive, before⟩ := cut.early lit member
    have different : lit / 2 ≠ q / 2 := by
      intro same
      rw [same, levelQ] at before
      exact lt_irrefl _ before
    rw [Function.update_of_ne different]
    exact ⟨sees, fails, positive, before⟩
  · exact cut.distinct
  · intro v sees last
    rw [Function.update_apply] at sees
    split_ifs at sees with same
    obtain ⟨l, member, var⟩ := cut.high v sees last
    rw [split] at member
    rcases List.mem_append.mp member with before | after
    · rw [← var, unseen l before] at sees
      cases sees
    · rcases List.mem_cons.mp after with rfl | later
      · exact absurd var.symm same
      · exact ⟨l, later, var⟩
  · have skip : skipped.countP (atLast s.levels s.decisionLevel seen) = 0 :=
      List.countP_eq_zero.mpr fun l member => by simp [atLast, unseen l member]
    have here : atLast s.levels s.decisionLevel seen q = true := by simp [atLast, seesQ, levelQ]
    have rest : rest'.countP (atLast s.levels s.decisionLevel (Function.update seen (q / 2) false)) =
        rest'.countP (atLast s.levels s.decisionLevel seen) :=
      List.countP_congr fun l member => by simp [atLast, Function.update_of_ne (others l member)]
    rw [cut.count, split, List.countP_append, skip, List.countP_cons, here, rest]
    simp

/-- What is true at the head of the loop of `find1UIP`. -/
structure Searching (s : Solver) (f : CNFFormula) (conflict : ClauseRef) (a : Find1UIP) : Prop where
  analysed : Analysed s f a.solver a.solver.seen
  state : (a.p = none ∧ a.solver.seen = (fun _ => false) ∧ a.learntClause = [] ∧ a.c = 0 ∧
      a.rest = s.trail ∧ a.confl = some conflict) ∨
    ∃ q M, a.p = some q ∧ s.levels (q / 2) = s.decisionLevel ∧ q :: a.rest <:+ s.trail ∧
      a.confl = s.reasons (q / 2) ∧ Cut s M (some q) a.solver.seen a.learntClause a.c a.rest ∧
      ∀ k ∈ s.lits conflict, M (k / 2) ∨ s.levels (k / 2) = 0

theorem cut_nil (s : Solver) : Cut s (fun _ => False) none (fun _ => false) [] 0 s.trail where
  suffix := List.suffix_refl _
  marked _ sees := nomatch sees
  closed _ _ mark := mark.elim
  low _ sees := nomatch sees
  early _ member := nomatch member
  distinct := List.nodup_nil
  high _ sees := nomatch sees
  count := (List.countP_eq_zero.mpr fun l _ => by simp [atLast]).symm

/-- What a round needs to know of the clause that it looks at, and what it leaves. -/
theorem find1UIPRound_of_cut {conflict confl : ClauseRef} {a : Find1UIP} (ls : List ℕ)
    (assigned : Assigned F s) (analysed : Analysed s f a.solver a.solver.seen) (isConfl : a.confl = some confl)
    (first : a.p = none ∨ a.p = (s.lits confl).head?)
    (lits : ls = if a.p = none then s.lits confl else (s.lits confl).tail)
    (cut : Cut s M a.p a.solver.seen a.learntClause a.c a.rest) (fails : ∀ k ∈ ls, neg k ∈ a.rest)
    (reason : ∀ l, some l = a.p → s.reasonLits (l / 2) = some (l :: ls))
    (last : 0 < a.c ∨ (0 < s.decisionLevel ∧ ∃ k ∈ ls, s.levels (k / 2) = s.decisionLevel))
    (known : a.p = none ∧ confl = conflict ∨ ∀ k ∈ s.lits conflict, M (k / 2) ∨ s.levels (k / 2) = 0) :
    ∃ a', find1UIPRound a = some a' ∧ Searching s f conflict a' ∧ a'.rest.length < a.rest.length := by
  obtain ⟨solver, learntClause, p, c, rest, confl'⟩ := a
  dsimp only at *
  generalize sameSeen : solver.seen = seen at analysed cut
  obtain ⟨clauses, inc, sameLits, rfl⟩ := analysed
  subst isConfl
  have litsSolver : ∀ r, (s.marking clauses seen { f with vsidsClauseInc := inc }).lits r = s.lits r := sameLits
  obtain ⟨clauses', inc', activity, sameLits'⟩ := incVSIDSClause_eq
    (s.marking clauses seen { f with vsidsClauseInc := inc }) { f with vsidsClauseInc := inc } confl
  have activity' : (s.marking clauses seen { f with vsidsClauseInc := inc }).incVSIDSClause
      { f with vsidsClauseInc := inc } confl =
        (s.marking clauses' seen { f with vsidsClauseInc := inc }, { f with vsidsClauseInc := inc' }) :=
    activity
  obtain ⟨seen', learnt', c', M', marks, cut', more, count, _, all⟩ :=
    markLiterals_eq
      (a := ⟨s.marking clauses' seen { f with vsidsClauseInc := inc' }, learntClause, p, c, rest, some confl⟩)
      assigned cut rfl rfl fails
  -- the counter cannot drop to `0` before a literal of the last level was found
  have positive : 0 < c' := by
    rcases last with already | ⟨deep, k, member, level⟩
    · exact already.trans_le count
    · rcases all k member with sees | zero
      · obtain ⟨l, inRest, var⟩ := cut'.high (k / 2) sees level
        rw [cut'.count, List.countP_pos_iff]
        exact ⟨l, inRest, by simp [atLast, var, sees, level]⟩
      · omega
  have within : ∀ k ∈ ls, M' (k / 2) ∨ s.levels (k / 2) = 0 :=
    fun k member => (all k member).imp_left (cut'.marked _)
  obtain ⟨q, rest', found, levelQ, suffix, shorter, next⟩ := cut'.next assigned
    (fun l _ isP => ⟨ls, reason l isP, within⟩) positive
  refine ⟨⟨s.marking clauses' (Function.update seen' (q / 2) false) { f with vsidsClauseInc := inc' },
    learnt', some q, c' - 1, rest',
    s.reasons (q / 2)⟩, ?_, ⟨⟨clauses', inc', fun r => (sameLits' r).trans (litsSolver r), rfl⟩,
      .inr ⟨q, M', rfl, levelQ, suffix, rfl, next, fun k member => ?_⟩⟩, shorter⟩
  · have formula : (s.marking clauses seen { f with vsidsClauseInc := inc }).cnfFormula =
      some { f with vsidsClauseInc := inc } := rfl
    have chosen : (if p = none then s.lits confl else (s.lits confl).tail) = ls := lits.symm
    simp only [find1UIPRound, Option.bind_eq_bind, Option.bind_some, formula, litsSolver, first, if_true,
      activity', chosen, marking_setFormula, marks, marking_setSeen, marking_seen, found]
    rfl
  · rcases known with ⟨isFirst, same⟩ | before
    · subst same
      rw [lits, if_pos isFirst] at within
      exact within k member
    · exact (before k member).imp_left (more _)

/-- The loop ends with one literal of the last level. -/
theorem find1UIP_returns {conflict : ClauseRef} (assigned : Assigned F s)
    (formula : s.cnfFormula = some f) (unseen : ∀ v, s.seen v = false) (deep : 0 < s.decisionLevel)
    (fails : ∀ k ∈ s.lits conflict, neg k ∈ s.trail)
    (last : ∃ k ∈ s.lits conflict, s.levels (k / 2) = s.decisionLevel) {fuel : ℕ}
    (enough : s.trail.length ≤ fuel) :
    ∃ a q M, find1UIP fuel s conflict = some a ∧ Analysed s f a.solver a.solver.seen ∧ a.p = some q ∧
      s.levels (q / 2) = s.decisionLevel ∧ q :: a.rest <:+ s.trail ∧
      Cut s M (some q) a.solver.seen a.learntClause 0 a.rest ∧
      ∀ k ∈ s.lits conflict, M (k / 2) ∨ s.levels (k / 2) = 0 := by
  have start : Searching s f conflict ⟨s, [], none, 0, s.trail, some conflict⟩ := by
    have same : s = s.marking s.clauses s.seen f := by
      rw [marking, ← formula]
    exact ⟨⟨s.clauses, f.vsidsClauseInc, fun r => rfl, same⟩,
      .inl ⟨rfl, funext unseen, rfl, rfl, rfl, rfl⟩⟩
  have step : ∀ a, Searching s f conflict a → decide (a.p = none ∨ 0 < a.c) = true →
      ∃ a', find1UIPRound a = some a' ∧ Searching s f conflict a' ∧ a'.rest.length < a.rest.length := by
    rintro a ⟨analysed, ⟨isFirst, seen, learnt, c, rest, confl⟩ | ⟨q, M, isP, level, suffix, confl, cut, known⟩⟩
      goes
    · refine find1UIPRound_of_cut _ assigned analysed confl (.inl isFirst) (if_pos isFirst).symm
        (M := fun _ => False) ?_ (rest ▸ fails) ?_ (.inr ⟨deep, last⟩) (.inl ⟨isFirst, rfl⟩)
      · rw [isFirst, seen, learnt, c, rest]
        exact cut_nil s
      · rw [isFirst]
        exact fun l isP => nomatch isP
    · have positive : 0 < a.c := by simpa [isP] using goes
      obtain ⟨l, inRest, _, levelL⟩ := cut.exists_open positive
      -- below `q` there is another literal of its level, so `q` is no decision and has a reason
      cases assigned.graph.cause q a.rest suffix with
      | fact zero _ _ => omega
      | decision _ _ opens =>
          have below := opens l inRest
          omega
      | implied others reason assignedOthers _ =>
          obtain ⟨r, isReason, lits⟩ := Option.map_eq_some_iff.mp reason
          refine find1UIPRound_of_cut others assigned analysed (confl.trans isReason)
            (.inr (by rw [isP, lits]; rfl)) (by simp [isP, lits]) (isP ▸ cut) assignedOthers ?_
            (.inl positive) (.inr known)
          intro l same
          rw [isP, Option.some.injEq] at same
          rw [same]
          exact reason
  obtain ⟨a, result, ⟨analysed, state⟩, stops⟩ := loop_returns _ _ _ _ step start enough
  rcases state with ⟨isFirst, _⟩ | ⟨q, M, isP, level, suffix, _, cut, known⟩
  · simp [isFirst] at stops
  · have none : a.c = 0 := by simpa [isP] using stops
    exact ⟨a, q, M, result, analysed, isP, level, suffix, none ▸ cut, known⟩

end Find1UIP

section Minimize

variable {M base : ℕ → Prop} {marks : Marks} {root : ℕ} {a : LitRedundant}

theorem clear_eq (seen : ℕ → Bool) (ids : List ℕ) (v : ℕ) :
    clear seen ids v = if v ∈ ids then false else seen v := by
  induction ids generalizing seen with
  | nil => simp [clear]
  | cons id ids ih =>
      have step : clear seen (id :: ids) = clear (Function.update seen id false) ids := rfl
      rw [step, ih]
      by_cases later : v ∈ ids
      · simp [later]
      · by_cases here : v = id <;> simp [later, here]

/-- The literals of the reason of `v` are seen. -/
def Expanded (s : Solver) (root : ℕ) (seen : ℕ → Bool) (v : ℕ) : Prop :=
  ∀ r, s.reasons v = some r → ∀ k ∈ s.lits r, k / 2 = root ∨ seen (k / 2) = true ∨ s.levels (k / 2) ≤ 0

/-- What is true in the loops of `litRedundant`, which started with `marks`. The reason of `busy` is being
looked at. -/
structure Redundancy (s : Solver) (marks : Marks) (root : ℕ) (busy : Option ℕ) (a : LitRedundant) : Prop where
  failed : a.res = false → a.marks.seen = marks.seen
  seen : a.res = true → ∀ v, a.marks.seen v = true ↔ marks.seen v = true ∨ v ∈ a.analyzeToclear
  fresh : ∀ v ∈ a.analyzeToclear, marks.seen v = false
  known : ∀ v ∈ root :: a.analyzeToclear, s.reasons v ≠ none ∧ ∃ l ∈ s.trail, l / 2 = v
  stack : a.res = true → ∀ v ∈ a.stack, v ∈ root :: a.analyzeToclear
  expanded : a.res = true → ∀ v ∈ root :: a.analyzeToclear, v ∈ a.stack ∨ some v = busy ∨
    s.Expanded root a.marks.seen v
  unset : ∀ v ∈ a.analyzeToclear, v ∈ a.marks.toSetUnseen.map (· / 2)
  more : marks.toSetUnseen ⊆ a.marks.toSetUnseen

/-- The number of variables that are not seen, and what is still to be looked at. -/
def LitRedundant.todo (n : ℕ) (a : LitRedundant) : ℕ :=
  if a.res then a.stack.length + ((Finset.range n).filter fun v => a.marks.seen v = false).card else 0

theorem card_unseen_lt {n v : ℕ} {seen : ℕ → Bool} (inside : v < n) (unseen : seen v = false) :
    ((Finset.range n).filter fun w => Function.update seen v true w = false).card <
      ((Finset.range n).filter fun w => seen w = false).card := by
  refine Finset.card_lt_card ⟨fun w member => ?_, fun subset => ?_⟩
  · rw [Finset.mem_filter] at member ⊢
    refine ⟨member.1, ?_⟩
    by_cases same : w = v
    · exact same ▸ unseen
    · rw [← Function.update_of_ne same true seen]
      exact member.2
  · have member := subset (Finset.mem_filter.mpr ⟨Finset.mem_range.mpr inside, unseen⟩)
    simp at member

/-- A variable that is not seen comes onto the stack. -/
theorem Redundancy.push {busy : Option ℕ} (redundancy : Redundancy s marks root busy a) (goes : a.res = true)
    (notRoot : l / 2 ≠ root) (unseen : a.marks.seen (l / 2) = false) (hasReason : s.reasons (l / 2) ≠ none)
    (onTrail : ∃ k ∈ s.trail, k / 2 = l / 2) : Redundancy s marks root busy { a with
      marks := ⟨Function.update a.marks.seen (l / 2) true, l :: a.marks.toSetUnseen⟩
      stack := l / 2 :: a.stack
      analyzeToclear := l / 2 :: a.analyzeToclear } where
  failed res := by
    rw [show a.res = false from res] at goes
    cases goes
  seen _ v := by
    by_cases same : v = l / 2
    · simp [same]
    · simp [redundancy.seen goes, same]
  fresh := by
    have notBefore : marks.seen (l / 2) = false := by
      by_contra sees
      rw [Bool.not_eq_false] at sees
      have seen := (redundancy.seen goes (l / 2)).mpr (.inl sees)
      rw [unseen] at seen
      cases seen
    exact List.forall_mem_cons.mpr ⟨notBefore, redundancy.fresh⟩
  known v member := by
    rcases List.mem_cons.mp member with rfl | pushed
    · exact redundancy.known v List.mem_cons_self
    · rcases List.mem_cons.mp pushed with rfl | old
      · exact ⟨hasReason, onTrail⟩
      · exact redundancy.known v (List.mem_cons_of_mem _ old)
  stack _ := by
    refine List.forall_mem_cons.mpr ⟨by simp, fun v member => ?_⟩
    have before := redundancy.stack goes v member
    simp only [List.mem_cons] at before ⊢
    tauto
  expanded _ v member := by
    by_cases pushed : v = l / 2
    · exact .inl (by simp [pushed])
    · have old : v ∈ root :: a.analyzeToclear := by
        simp only [List.mem_cons] at member ⊢
        tauto
      rcases redundancy.expanded goes v old with inStack | isBusy | expanded
      · exact .inl (List.mem_cons_of_mem _ inStack)
      · exact .inr (.inl isBusy)
      · refine .inr (.inr fun r isReason k inReason => ?_)
        exact (expanded r isReason k inReason).imp_right (Or.imp_left stays_seen)
  unset := by
    refine List.forall_mem_cons.mpr ⟨by simp, fun v member => ?_⟩
    rw [List.map_cons]
    exact List.mem_cons_of_mem _ (redundancy.unset v member)
  more := fun k member => List.mem_cons_of_mem _ (redundancy.more member)

/-- The marks of this run are taken back. -/
theorem Redundancy.fail {busy : Option ℕ} (redundancy : Redundancy s marks root busy a) (goes : a.res = true) :
    Redundancy s marks root busy { a with
      marks := ⟨clear a.marks.seen a.analyzeToclear, a.marks.toSetUnseen⟩
      analyzeToclear := []
      res := false } where
  failed _ := by
    funext v
    show clear a.marks.seen a.analyzeToclear v = marks.seen v
    rw [clear_eq]
    split_ifs with member
    · exact (redundancy.fresh v member).symm
    · have seen := redundancy.seen goes v
      rw [Bool.eq_iff_iff, seen]
      simp [member]
  seen res := nomatch res
  fresh _ member := nomatch member
  known v member := redundancy.known v (by simp at member; simp [member])
  stack res := nomatch res
  expanded res := nomatch res
  unset _ member := nomatch member
  more := redundancy.more

theorem examine_redundancy {busy : Option ℕ} (abstractLevel : ℕ) (redundancy : Redundancy s marks root busy a)
    (onTrail : ∃ k ∈ s.trail, k / 2 = l / 2) (inside : l / 2 < s.nbVars) :
    Redundancy s marks root busy (s.examine root abstractLevel a l) ∧
      (s.examine root abstractLevel a l).todo s.nbVars ≤ a.todo s.nbVars ∧
      ((s.examine root abstractLevel a l).res = true → a.res = true ∧
        (∀ v, a.marks.seen v = true → (s.examine root abstractLevel a l).marks.seen v = true) ∧
        (l / 2 = root ∨ (s.examine root abstractLevel a l).marks.seen (l / 2) = true ∨
          s.levels (l / 2) ≤ 0)) := by
  by_cases looks : l / 2 ≠ root ∧ a.res = true ∧ a.marks.seen (l / 2) = false ∧ 0 < s.levels (l / 2)
  · obtain ⟨notRoot, goes, unseen, positive⟩ := looks
    by_cases pushes : (s.reasons (l / 2)).isSome ∧ s.getAbstractLevel (l / 2) &&& abstractLevel ≠ 0
    · have same : s.examine root abstractLevel a l = { a with
          marks := ⟨Function.update a.marks.seen (l / 2) true, l :: a.marks.toSetUnseen⟩
          stack := l / 2 :: a.stack
          analyzeToclear := l / 2 :: a.analyzeToclear } := by
        simp only [examine]
        rw [if_pos ⟨notRoot, goes, by simpa using unseen, positive⟩, if_pos pushes]
      rw [same]
      have hasReason : s.reasons (l / 2) ≠ none := Option.isSome_iff_ne_none.mp pushes.1
      refine ⟨redundancy.push goes notRoot unseen hasReason onTrail, ?_, fun _ => ⟨goes, ?_, ?_⟩⟩
      · have fewer := card_unseen_lt inside unseen
        simp only [LitRedundant.todo, goes, if_true, List.length_cons]
        omega
      · exact fun v sees => stays_seen sees
      · exact .inr (.inl (Function.update_self _ _ _))
    · have same : s.examine root abstractLevel a l = { a with
          marks := ⟨clear a.marks.seen a.analyzeToclear, a.marks.toSetUnseen⟩
          analyzeToclear := []
          res := false } := by
        simp only [examine]
        rw [if_pos ⟨notRoot, goes, by simpa using unseen, positive⟩, if_neg pushes]
      rw [same]
      exact ⟨redundancy.fail goes, Nat.zero_le _, fun res => nomatch res⟩
  · have same : s.examine root abstractLevel a l = a := by
      simp only [examine]
      rw [if_neg (by simpa using looks)]
    rw [same]
    refine ⟨redundancy, le_refl _, fun goes => ⟨goes, fun _ => id, ?_⟩⟩
    by_cases isRoot : l / 2 = root
    · exact .inl isRoot
    · refine .inr ?_
      cases sees : a.marks.seen (l / 2) with
      | true => exact .inl rfl
      | false => exact .inr (not_lt.mp fun positive => looks ⟨isRoot, goes, sees, positive⟩)

/-- The loop over the literals of a reason. -/
theorem foldl_examine_redundancy {busy : Option ℕ} (abstractLevel : ℕ) {ls : List ℕ}
    (redundancy : Redundancy s marks root busy a)
    (onTrail : ∀ l ∈ ls, l / 2 < s.nbVars ∧ ∃ k ∈ s.trail, k / 2 = l / 2) :
    Redundancy s marks root busy (ls.foldl (s.examine root abstractLevel) a) ∧
      (ls.foldl (s.examine root abstractLevel) a).todo s.nbVars ≤ a.todo s.nbVars ∧
      ((ls.foldl (s.examine root abstractLevel) a).res = true → a.res = true ∧
        (∀ v, a.marks.seen v = true →
          (ls.foldl (s.examine root abstractLevel) a).marks.seen v = true) ∧
        ∀ l ∈ ls, l / 2 = root ∨ (ls.foldl (s.examine root abstractLevel) a).marks.seen (l / 2) = true ∨
          s.levels (l / 2) ≤ 0) := by
  induction ls generalizing a with
  | nil => exact ⟨redundancy, le_refl _, fun goes => ⟨goes, fun _ => id, fun _ member => nomatch member⟩⟩
  | cons l ls ih =>
      have ⟨inside, assigned⟩ := onTrail l List.mem_cons_self
      have ⟨first, lower, result⟩ := examine_redundancy abstractLevel redundancy assigned inside
      have ⟨rest, lower', result'⟩ := ih first fun k member => onTrail k (List.mem_cons_of_mem _ member)
      rw [List.foldl_cons]
      refine ⟨rest, lower'.trans lower, fun goes => ?_⟩
      have ⟨goes', more', later⟩ := result' goes
      have ⟨before, more, here⟩ := result goes'
      exact ⟨before, fun v sees => more' v (more v sees),
        List.forall_mem_cons.mpr ⟨here.imp_right (Or.imp_left (more' _)), later⟩⟩

/-- The marks when literals of the learnt clause are left out: the marked variables that are not in `base`
have reasons that lead to marked variables. -/
structure Marked (s : Solver) (M base : ℕ → Prop) (marks : Marks) : Prop where
  seen : ∀ v, marks.seen v = true → M v
  closed : ∀ l ∈ s.trail, M (l / 2) → base (l / 2) ∨ s.Follows M l
  unset : ∀ v, marks.seen v = true → v ∈ marks.toSetUnseen.map (· / 2)

theorem Assigned.reason_lits (assigned : Assigned F s) (inTrail : l ∈ s.trail)
    (isReason : s.reasons (l / 2) = some r) :
    ∃ others, s.lits r = l :: others ∧ ∀ k ∈ others, neg k ∈ s.trail := by
  obtain ⟨late, early, trail⟩ := List.append_of_mem inTrail
  have suffix : l :: early <:+ s.trail := trail ▸ List.suffix_append late _
  have reasonLits : s.reasonLits (l / 2) = some (s.lits r) := by rw [reasonLits, isReason]; rfl
  cases assigned.graph.cause l early suffix with
  | fact _ none _ | decision _ none _ => rw [none] at reasonLits; cases reasonLits
  | implied others reason negated _ =>
      rw [reason, Option.some.injEq] at reasonLits
      exact ⟨others, reasonLits.symm, fun k member =>
        suffix.subset (List.mem_cons_of_mem _ (negated k member))⟩

theorem litRedundantRound_returns {abstractLevel : ℕ} (assigned : Assigned F s)
    (redundancy : Redundancy s marks root none a) (goes : a.res = true) (some' : a.stack ≠ []) :
    ∃ a', s.litRedundantRound root abstractLevel a = some a' ∧ Redundancy s marks root none a' ∧
      a'.todo s.nbVars < a.todo s.nbVars := by
  obtain ⟨head, stack, split⟩ := List.exists_cons_of_ne_nil some'
  have known := redundancy.known head (redundancy.stack goes head (by simp [split]))
  obtain ⟨⟨r, isReason⟩, l, inTrail, rfl⟩ := known.imp_left Option.ne_none_iff_exists'.mp
  obtain ⟨others, lits, negated⟩ := assigned.reason_lits inTrail isReason
  have onTrail : ∀ k ∈ s.lits r, k / 2 < s.nbVars ∧ ∃ k' ∈ s.trail, k' / 2 = k / 2 := by
    rw [lits]
    refine List.forall_mem_cons.mpr ⟨⟨assigned.inside l inTrail, l, inTrail, rfl⟩, fun k member => ?_⟩
    have inside := assigned.inside _ (negated k member)
    rw [var_neg] at inside
    exact ⟨inside, neg k, negated k member, var_neg k⟩
  have busy : Redundancy s marks root (some (l / 2)) { a with stack := stack } := by
    refine ⟨redundancy.failed, redundancy.seen, redundancy.fresh, redundancy.known,
      fun _ v member => redundancy.stack goes v (by simp [split, show v ∈ stack from member]),
      fun _ v member => ?_, redundancy.unset, redundancy.more⟩
    rcases redundancy.expanded goes v member with inStack | isBusy | expanded
    · rw [split] at inStack
      rcases List.mem_cons.mp inStack with rfl | later
      · exact .inr (.inl rfl)
      · exact .inl later
    · cases isBusy
    · exact .inr (.inr expanded)
  have ⟨after, lower, result⟩ := foldl_examine_redundancy abstractLevel busy onTrail
  refine ⟨_, by simp [litRedundantRound, split, isReason], ?_, lower.trans_lt ?_⟩
  · refine ⟨after.failed, after.seen, after.fresh, after.known, after.stack, fun res v member => ?_,
      after.unset, after.more⟩
    rcases after.expanded res v member with inStack | isBusy | expanded
    · exact .inl inStack
    · refine .inr (.inr fun r' isReason' k inReason => ?_)
      cases isBusy
      rw [isReason] at isReason'
      cases isReason'
      exact (result res).2.2 k inReason
    · exact .inr (.inr expanded)
  · simp [LitRedundant.todo, goes, split]

theorem Expanded.follows {seen : ℕ → Bool} (expanded : s.Expanded root seen (l / 2)) (assigned : Assigned F s)
    (inTrail : l ∈ s.trail) (hasReason : s.reasons (l / 2) ≠ none) (mark : M root)
    (marked : ∀ v, seen v = true → M v) : s.Follows M l := by
  obtain ⟨r, isReason⟩ := Option.ne_none_iff_exists'.mp hasReason
  obtain ⟨others, lits, negated⟩ := assigned.reason_lits inTrail isReason
  refine ⟨others, by rw [reasonLits, isReason, Option.map_some, lits], fun k member => ?_⟩
  have nonneg := assigned.graph.nonneg _ (negated k member)
  rw [var_neg] at nonneg
  rcases expanded r isReason k (lits ▸ List.mem_cons_of_mem _ member) with isRoot | sees | low
  · exact .inl (isRoot ▸ mark)
  · exact .inl (marked _ sees)
  · exact .inr (le_antisymm low nonneg)

theorem litRedundant_returns (abstractLevel : ℕ) {fuel : ℕ} (assigned : Assigned F s)
    (marked : Marked s M base marks) (inTrail : l ∈ s.trail) (mark : M (l / 2))
    (hasReason : s.reasons (l / 2) ≠ none) (enough : s.nbVars + 1 ≤ fuel) :
    ∃ res marks' M', s.litRedundant fuel (l / 2) abstractLevel marks = some (res, marks') ∧
      Marked s M' base marks' ∧ (∀ v, M v → M' v) ∧ (res = true → s.Follows M' l) := by
  have start : Redundancy s marks (l / 2) none ⟨marks, [l / 2], [], true⟩ := by
    constructor
    · exact fun res => nomatch res
    · exact fun _ v => by simp
    · exact fun v member => nomatch member
    · intro v member
      rw [List.mem_singleton.mp member]
      exact ⟨hasReason, l, inTrail, rfl⟩
    · exact fun _ v member => member
    · exact fun _ v member => .inl member
    · exact fun v member => nomatch member
    · exact List.Subset.refl _
  have step : ∀ a, Redundancy s marks (l / 2) none a → (!a.stack.isEmpty && a.res) = true →
      ∃ a', s.litRedundantRound (l / 2) abstractLevel a = some a' ∧ Redundancy s marks (l / 2) none a' ∧
        a'.todo s.nbVars < a.todo s.nbVars := by
    intro a redundancy goes
    simp only [Bool.and_eq_true, Bool.not_eq_true', List.isEmpty_eq_false_iff] at goes
    exact litRedundantRound_returns assigned redundancy goes.2 goes.1
  -- each round takes a variable from the stack, and each variable comes onto it once
  have few : LitRedundant.todo s.nbVars ⟨marks, [l / 2], [], true⟩ ≤ fuel := by
    have unseen := Finset.card_filter_le (Finset.range s.nbVars) fun v => marks.seen v = false
    simp only [LitRedundant.todo, if_true, List.length_singleton, Finset.card_range] at unseen ⊢
    omega
  obtain ⟨a, result, redundancy, stops⟩ := loop_returns _ _ _ _ step start few
  have seen : ∀ v, a.marks.seen v = true → M v ∨ a.res = true ∧ v ∈ a.analyzeToclear := by
    intro v sees
    cases goes : a.res with
    | true => exact ((redundancy.seen goes v).mp sees).imp (marked.seen v) fun new => ⟨rfl, new⟩
    | false => exact .inl (marked.seen v (redundancy.failed goes ▸ sees))
  have expanded : a.res = true → ∀ k ∈ s.trail, k / 2 ∈ l / 2 :: a.analyzeToclear →
      s.Follows (fun v => M v ∨ a.res = true ∧ v ∈ a.analyzeToclear) k := by
    intro goes k onTrail member
    have none : a.stack = [] := by simpa [goes] using stops
    rcases redundancy.expanded goes _ member with inStack | isBusy | expanded
    · rw [none] at inStack
      cases inStack
    · cases isBusy
    · exact expanded.follows assigned onTrail (redundancy.known _ member).1 (.inl mark) seen
  refine ⟨a.res, a.marks, _, ?_, ⟨seen, ?_, ?_⟩, fun v => .inl,
    fun goes => expanded goes l inTrail List.mem_cons_self⟩
  · rw [litRedundant, result]
    rfl
  · rintro k onTrail (old | ⟨goes, new⟩)
    · exact (marked.closed k onTrail old).imp_right (Follows.mono · fun v => .inl)
    · exact .inr (expanded goes k onTrail (List.mem_cons_of_mem _ new))
  · intro v sees
    cases goes : a.res with
    | true =>
        rcases (redundancy.seen goes v).mp sees with old | new
        · exact List.map_subset _ redundancy.more (marked.unset v old)
        · exact redundancy.unset v new
    | false => exact List.map_subset _ redundancy.more (marked.unset v (redundancy.failed goes ▸ sees))

/-- Each literal that is left out follows from the others. -/
theorem minimize_returns (absLevel : ℕ) {fuel : ℕ} {ls : List ℕ} (assigned : Assigned F s)
    (marked : Marked s M base marks) (onTrail : ∀ lit ∈ ls, neg lit ∈ s.trail ∧ M (lit / 2))
    (enough : s.nbVars + 1 ≤ fuel) :
    ∃ kept marks' M', s.minimize fuel absLevel ls marks = some (kept, marks') ∧ Marked s M' base marks' ∧
      (∀ v, M v → M' v) ∧ kept.Sublist ls ∧ ∀ lit ∈ ls, lit ∈ kept ∨ s.Follows M' (neg lit) := by
  induction ls generalizing M marks with
  | nil =>
      exact ⟨[], marks, M, rfl, marked, fun _ => id, List.Sublist.refl _, fun _ member => nomatch member⟩
  | cons lit ls ih =>
      have ⟨fails, mark⟩ := onTrail lit List.mem_cons_self
      have first : ∃ redundant marks₁ M₁, (if s.reasons (lit / 2) = none then pure (false, marks)
          else s.litRedundant fuel (lit / 2) absLevel marks) = some (redundant, marks₁) ∧
          Marked s M₁ base marks₁ ∧ (∀ v, M v → M₁ v) ∧ (redundant = true → s.Follows M₁ (neg lit)) := by
        by_cases none : s.reasons (lit / 2) = none
        · exact ⟨false, marks, M, by simp [none], marked, fun _ => id, fun no => nomatch no⟩
        · obtain ⟨res, marks₁, M₁, result⟩ := litRedundant_returns absLevel assigned marked
            fails ((var_neg lit).symm ▸ mark) ((var_neg lit).symm ▸ none) enough
          rw [var_neg] at result
          exact ⟨res, marks₁, M₁, by simp [none, result.1], result.2⟩
      obtain ⟨redundant, marks₁, M₁, result, marked₁, more₁, follows⟩ := first
      obtain ⟨kept, marks', M', rest, marked', more, sublist, all⟩ := ih marked₁ fun k member =>
        (onTrail k (List.mem_cons_of_mem _ member)).imp_right (more₁ _)
      refine ⟨if redundant then kept else lit :: kept, marks', M', ?_, marked', fun v => more v ∘ more₁ v,
        ?_, ?_⟩
      · by_cases none : s.reasons (lit / 2) = none
        · rw [if_pos none] at result
          cases result
          simp [minimize, none, rest]
        · rw [if_neg none] at result
          simp [minimize, none, result, rest]
      · split_ifs
        · exact sublist.cons lit
        · exact sublist.cons_cons lit
      · cases redundant with
        | true => exact List.forall_mem_cons.mpr ⟨.inr ((follows rfl).mono more), all⟩
        | false =>
            exact List.forall_mem_cons.mpr ⟨.inl List.mem_cons_self, fun k member =>
              (all k member).imp_left (List.mem_cons_of_mem lit)⟩

end Minimize

/-- What is true of a clause that a conflict teaches: `neg q` and the literals `others`. -/
structure Learnt (F : List (List ℕ)) (s : Solver) (q : ℕ) (others : List ℕ) : Prop where
  onTrail : q ∈ s.trail
  last : s.levels (q / 2) = s.decisionLevel
  early : ∀ lit ∈ others, neg lit ∈ s.trail ∧ 0 < s.levels (lit / 2) ∧ s.levels (lit / 2) < s.decisionLevel
  distinct : (others.map (· / 2)).Nodup
  entails : Entails F (neg q :: others)

theorem reasonLits_marking {clauses : ℕ → Clause} {seen : ℕ → Bool}
    (lits : ∀ r, (clauses r).lits = s.lits r) : (s.marking clauses seen f).reasonLits = s.reasonLits := by
  funext v
  show (s.reasons v).map (s.marking clauses seen f).lits = _
  rw [show (s.marking clauses seen f).lits = s.lits from funext lits, reasonLits]

/-- `base`: the variables of the clause that `find1UIP` makes. -/
theorem Cut.marked_start {q : ℕ} {seen : ℕ → Bool} {learnt rest : List ℕ} {M : ℕ → Prop}
    (cut : Cut s M (some q) seen learnt 0 rest) :
    Marked s M (fun v => v = q / 2 ∨ ∃ lit ∈ learnt, lit / 2 = v) ⟨seen, learnt⟩ := by
  have low : ∀ v, seen v = true → ∃ lit ∈ learnt, lit / 2 = v := by
    intro v sees
    by_cases last : s.levels v = s.decisionLevel
    · obtain ⟨l, member, rfl⟩ := cut.high v sees last
      have none := List.countP_eq_zero.mp cut.count.symm l member
      simp [atLast, sees, last] at none
    · exact cut.low v sees last
  constructor
  · exact cut.marked
  · intro l onTrail mark
    rcases cut.closed l onTrail mark with sees | isQ | follows
    · exact .inl (.inr (low _ sees))
    · cases isQ
      exact .inl (.inl rfl)
    · exact .inr follows
  · intro v sees
    obtain ⟨lit, member, same⟩ := low v sees
    exact List.mem_map.mpr ⟨lit, member, same⟩

/-- What is left of the clause still follows: a literal that is left out has a reason that leads to it. -/
theorem Marked.entails {q : ℕ} {learnt kept ls : List ℕ} {M : ℕ → Prop} {marks : Marks}
    (marked : Marked s M (fun v => v = q / 2 ∨ ∃ lit ∈ learnt, lit / 2 = v) marks) (assigned : Assigned F s)
    (onTrail : q ∈ s.trail) (inLearnt : ∀ lit ∈ learnt, neg lit ∈ s.trail)
    (all : ∀ lit ∈ learnt, lit ∈ kept ∨ s.Follows M (neg lit)) (entails : Entails F ls)
    (fails : ∀ k ∈ ls, neg k ∈ s.trail ∧ (M (k / 2) ∨ s.levels (k / 2) = 0)) :
    Entails F (neg q :: kept) := by
  refine assigned.graph.entails_learnt (M := M) entails fails fun l member mark => ?_
  rcases marked.closed l member mark with (isQ | ⟨lit, inside, var⟩) | leads
  · rw [List.inj_on_of_nodup_map assigned.graph.distinct member onTrail isQ]
    exact .inl List.mem_cons_self
  · have isNeg : l = neg lit := by
      refine List.inj_on_of_nodup_map assigned.graph.distinct member (inLearnt lit inside) ?_
      rw [var_neg, var]
    subst isNeg
    rcases all lit inside with left | leads
    · rw [neg_twice]
      exact .inl (List.mem_cons_of_mem _ left)
    · exact .inr leads
  · exact .inr leads

/-- `conflictAnalysis` learns a clause that follows from the others. -/
theorem conflictAnalysis_returns {conflict : ClauseRef} (assigned : Assigned F s)
    (formula : s.cnfFormula = some f) (unseen : ∀ v, s.seen v = false) (deep : 0 < s.decisionLevel)
    (isConflict : s.conflict = some conflict) (fails : ∀ k ∈ s.lits conflict, neg k ∈ s.trail)
    (last : ∃ k ∈ s.lits conflict, s.levels (k / 2) = s.decisionLevel)
    (entails : Entails F (s.lits conflict)) {fuel : ℕ} (enough : s.nbVars + 1 ≤ fuel) :
    ∃ q others clauses inc, s.conflictAnalysis fuel =
        some ({ s with conflict := none }.marking clauses (fun _ => false) { f with vsidsClauseInc := inc },
          neg q :: others) ∧
      (∀ r, (clauses r).lits = s.lits r) ∧ Learnt F s q others := by
  have assigned' : Assigned F { s with conflict := none } :=
    assigned.congr ⟨rfl, rfl, rfl, rfl, rfl, fun _ _ => rfl⟩
  obtain ⟨a, q, M, search, analysed, isQ, level, suffix, cut, known⟩ :=
    find1UIP_returns (s := { s with conflict := none }) assigned' formula unseen deep fails last
      ((assigned.length_le.trans (Nat.le_succ _)).trans enough)
  have onTrail : q ∈ s.trail := suffix.subset List.mem_cons_self
  obtain ⟨solver, learnt, p, c, rest, confl⟩ := a
  dsimp only at *
  generalize sameSeen : solver.seen = seen at analysed cut
  obtain ⟨clauses, inc, sameLits, rfl⟩ := analysed
  subst isQ
  have reasons : ({ s with conflict := none }.marking clauses seen
    { f with vsidsClauseInc := inc }).reasonLits =
      s.reasonLits := reasonLits_marking sameLits
  generalize same : { s with conflict := none }.marking clauses seen { f with vsidsClauseInc := inc } = t
    at search reasons sameSeen
  have assigned₁ : Assigned F t := by
    refine assigned'.congr ?_
    subst same
    exact ⟨rfl, rfl, rfl, rfl, rfl, fun _ _ => congrFun reasons _⟩
  have follows : ∀ M l, Follows { s with conflict := none } M l → t.Follows M l := by
    rintro M l ⟨others, reason, within⟩
    refine ⟨others, (congrFun reasons _).trans reason, ?_⟩
    subst same
    exact within
  have marked : Marked t M (fun v => v = q / 2 ∨ ∃ lit ∈ learnt, lit / 2 = v) ⟨seen, learnt⟩ := by
    have start := cut.marked_start
    refine ⟨start.seen, fun l member mark => ?_, start.unset⟩
    subst same
    exact (start.closed l member mark).imp_right (follows M l)
  have inLearnt : ∀ lit ∈ learnt, neg lit ∈ t.trail ∧ M (lit / 2) := by
    intro lit member
    have ⟨sees, fails, _⟩ := cut.early lit member
    subst same
    exact ⟨fails, cut.marked _ sees⟩
  obtain ⟨kept, marks', M', result, marked', more, sublist, all⟩ := minimize_returns
    (learnt.foldl (fun absLevel lit => absLevel ||| t.getAbstractLevel (lit / 2)) 0) assigned₁ marked inLearnt
    (by subst same; exact enough)
  have levels : t.levels = s.levels := by subst same; rfl
  have trail : t.trail = s.trail := by subst same; rfl
  have entailed : Entails F (neg q :: kept) := by
    refine marked'.entails assigned₁ (trail ▸ onTrail) (fun lit member => (inLearnt lit member).1) all entails
      fun k member => ?_
    rw [trail, levels]
    exact ⟨fails k member, (known k member).imp_left (more _)⟩
  refine ⟨q, kept, clauses, inc, ?_, sameLits, onTrail, level, fun lit member =>
    (cut.early lit (sublist.subset member)).2, cut.distinct.sublist (sublist.map _), entailed⟩
  have isAssigned : t.isAssigned q = true := assigned₁.isAssigned_iff.mpr (.inl (trail ▸ onTrail))
  -- whatever was marked is on the list of what is to be cleared
  have unmarked : ∀ ids, clear (clear marks'.seen (marks'.toSetUnseen.map (· / 2))) ids = fun _ => false := by
    intro ids
    funext v
    rw [clear_eq, clear_eq]
    by_cases sees : marks'.seen v = true
    · simp [marked'.unset v sees]
    · simp [sees]
  have seen' : t.seen = seen := sameSeen
  simp only [conflictAnalysis, isConflict, Option.bind_eq_bind, Option.bind_some, search, isAssigned, if_true,
    seen', result, unmarked]
  subst same
  rfl

end Renaissance.CafeSat.Solver
