import Renaissance.Lib.ImplicationGraph
import Renaissance.ScalaSat.QueueOperations
import Renaissance.ScalaSat.SatSolver

/-!
# The invariant of the SAT solver

For the clauses `F` that the solver was given:

* `Assigned`: the model is the trail, and the trail is one of `F`;
* `Database`: each clause that is watched follows from `F`, and is watched at its first two literals;
* `Quiet`: if one of these two literals is false, then the other one is true, and was so before;
* `Queued`: each variable that has no value is in the queue.
-/

namespace Renaissance.CafeSat.Solver

open Clauses ImplicationGraph

variable {F : List (List ℕ)} {s s' : Solver} {l k : ℕ} {r : ClauseRef}

section Lits

@[simp] theorem lits_setLits (s : Solver) (r r' : ClauseRef) (lits : List ℕ) :
    (s.setLits r lits).lits r' = if r' = r then lits else s.lits r' := by
  by_cases same : r' = r
  · subst same
    simp [Solver.lits, setLits, setClause]
  · simp [Solver.lits, setLits, setClause, same]

@[simp] theorem lits_setLocked (s : Solver) (r : ClauseRef) (locked : Bool) :
    (s.setLocked r locked).lits = s.lits := by
  funext r'
  by_cases same : r' = r
  · subst same
    simp [Solver.lits, setLocked, setClause]
  · simp [Solver.lits, setLocked, setClause, same]

@[simp] theorem lits_setActivity (s : Solver) (r : ClauseRef) (activity : ℚ) :
    (s.setActivity r activity).lits = s.lits := by
  funext r'
  by_cases same : r' = r
  · subst same
    simp [Solver.lits, setActivity, setClause]
  · simp [Solver.lits, setActivity, setClause, same]

end Lits

/-- The literals of the reason of a variable. -/
def reasonLits (s : Solver) (v : ℕ) : Option (List ℕ) :=
  (s.reasons v).map s.lits

structure Assigned (F : List (List ℕ)) (s : Solver) : Prop where
  graph : Trail F s.levels s.reasonLits s.trail
  model : ∀ l, s.isSat l = true ↔ l ∈ s.trail
  inside : ∀ l ∈ s.trail, l / 2 < s.nbVars
  level_le : ∀ l ∈ s.trail, s.levels (l / 2) ≤ s.decisionLevel
  nonneg : 0 ≤ s.decisionLevel

theorem isUnsat_eq (s : Solver) (l : ℕ) : s.isUnsat l = s.isSat (neg l) := by
  have parity : decide (neg l % 2 = 0) = decide (l % 2 = 1) := by
    rw [decide_eq_decide, neg_mod]
    omega
  rw [isUnsat, isSat, var_neg, parity]

theorem isUnassigned_iff : s.isUnassigned l = true ↔ ¬ s.isSat l = true ∧ ¬ s.isSat (neg l) = true := by
  rw [← isUnsat_eq]
  unfold isUnassigned isSat isUnsat
  rcases s.model (l / 2) with _ | value
  · simp
  · rcases Nat.mod_two_eq_zero_or_one l with parity | parity <;> cases value <;> simp [parity]

theorem Assigned.isUnsat_iff (assigned : Assigned F s) : s.isUnsat l = true ↔ neg l ∈ s.trail := by
  rw [isUnsat_eq, assigned.model]

theorem Assigned.free_iff (assigned : Assigned F s) :
    s.model (l / 2) = none ↔ l ∉ s.trail ∧ neg l ∉ s.trail := by
  rw [← assigned.model, ← assigned.model, ← isUnassigned_iff, isUnassigned, Option.isNone_iff_eq_none]

theorem Assigned.isAssigned_iff (assigned : Assigned F s) :
    s.isAssigned l = true ↔ l ∈ s.trail ∨ neg l ∈ s.trail := by
  have free := assigned.free_iff (l := l)
  rw [isAssigned, Option.isSome_iff_ne_none, Ne, free]
  tauto

/-- What the invariant of the trail is about. -/
structure SameTrail (s s' : Solver) : Prop where
  trail : s'.trail = s.trail
  model : s'.model = s.model
  nbVars : s'.nbVars = s.nbVars
  level : s'.decisionLevel = s.decisionLevel
  levels : s'.levels = s.levels
  reasons : ∀ l ∈ s.trail, s'.reasonLits (l / 2) = s.reasonLits (l / 2)

theorem Assigned.congr (assigned : Assigned F s) (same : SameTrail s s') : Assigned F s' where
  graph := by
    rw [same.trail]
    exact assigned.graph.congr (fun l _ => congrFun same.levels _) same.reasons
  model l := by
    rw [same.trail, ← assigned.model, isSat, isSat, same.model]
  inside l member := by
    rw [same.nbVars]
    exact assigned.inside l (same.trail ▸ member)
  level_le l member := by
    rw [same.level, same.levels]
    exact assigned.level_le l (same.trail ▸ member)
  nonneg := same.level ▸ assigned.nonneg

/-- Why a literal may be put on the trail. -/
inductive Reason (F : List (List ℕ)) (s : Solver) (l : ℕ) : Option ClauseRef → Prop
  | fact (zero : s.decisionLevel = 0) (entails : Entails F [l]) : Reason F s l none
  | decision (positive : 0 < s.decisionLevel) (opens : ∀ k ∈ s.trail, s.levels (k / 2) < s.decisionLevel) :
      Reason F s l none
  | implied (r : ClauseRef) (others : List ℕ) (lits : s.lits r = l :: others)
      (assigned : ∀ k ∈ others, neg k ∈ s.trail) (entails : Entails F (l :: others)) : Reason F s l (some r)

section Assign

variable {from' : Option ClauseRef}

@[simp] theorem assign_trail : (s.assign l from').trail = l :: s.trail := by
  cases from' <;> rfl

@[simp] theorem assign_levels : (s.assign l from').levels =
    Function.update s.levels (l / 2) s.decisionLevel := by
  cases from' <;> rfl

@[simp] theorem assign_model : (s.assign l from').model =
    Function.update s.model (l / 2) (some (decide (l % 2 = 0))) := by
  cases from' <;> rfl

@[simp] theorem assign_reasons : (s.assign l from').reasons = Function.update s.reasons (l / 2) from' := by
  cases from' <;> rfl

@[simp] theorem assign_nbVars : (s.assign l from').nbVars = s.nbVars := by
  cases from' <;> rfl

@[simp] theorem assign_decisionLevel : (s.assign l from').decisionLevel = s.decisionLevel := by
  cases from' <;> rfl

@[simp] theorem lits_assign : (s.assign l from').lits = s.lits := by
  cases from' with
  | none => rfl
  | some r => exact lits_setLocked _ r true

theorem reasonLits_assign_self : (s.assign l from').reasonLits (l / 2) = from'.map s.lits := by
  simp [reasonLits]

theorem reasonLits_assign_other (other : k / 2 ≠ l / 2) :
    (s.assign l from').reasonLits (k / 2) = s.reasonLits (k / 2) := by
  simp [reasonLits, Function.update_of_ne other]

theorem Assigned.assign (assigned : Assigned F s) (free : s.model (l / 2) = none)
    (inside : l / 2 < s.nbVars) (reason : Reason F s l from') : Assigned F (s.assign l from') := by
  have new : ∀ k ∈ s.trail, k / 2 ≠ l / 2 := by
    intro k member same
    rw [← same] at free
    exact (assigned.free_iff.mp free).1 member
  have level : ∀ k ∈ s.trail, (s.assign l from').levels (k / 2) = s.levels (k / 2) := by
    intro k member
    rw [assign_levels, Function.update_of_ne (new k member)]
  have here : (s.assign l from').levels (l / 2) = s.decisionLevel := by
    rw [assign_levels, Function.update_self]
  constructor
  · rw [assign_trail]
    refine (assigned.graph.congr level fun k member => reasonLits_assign_other (new k member)).cons new
      (fun k member => ?_) (here ▸ assigned.nonneg) ?_
    · rw [level k member, here]
      exact assigned.level_le k member
    · cases reason with
      | fact zero entails => exact .fact (here.trans zero) reasonLits_assign_self entails
      | decision positive opens =>
          refine .decision (here ▸ positive) reasonLits_assign_self fun k member => ?_
          rw [level k member, here]
          exact opens k member
      | implied r others lits negated entails =>
          refine .implied others ?_ negated entails
          rw [reasonLits_assign_self, Option.map_some, lits]
  · intro k
    rw [assign_trail, List.mem_cons]
    by_cases same : k / 2 = l / 2
    · have notBefore : k ∉ s.trail := fun member => new k member same
      have sat : (s.assign l from').isSat k = decide (decide (l % 2 = 0) = decide (k % 2 = 0)) := by
        simp [isSat, same]
      rw [sat, decide_eq_true_iff, decide_eq_decide]
      constructor
      · intro parity
        exact .inl (by omega)
      · rintro (rfl | member)
        · rfl
        · exact absurd member notBefore
    · have sat : (s.assign l from').isSat k = s.isSat k := by
        simp [isSat, Function.update_of_ne same]
      have different : k ≠ l := fun equal => same (by rw [equal])
      rw [sat, assigned.model]
      simp [different]
  · rw [assign_trail, assign_nbVars]
    exact List.forall_mem_cons.mpr ⟨inside, assigned.inside⟩
  · rw [assign_trail, assign_decisionLevel]
    refine List.forall_mem_cons.mpr ⟨here.le, fun k member => ?_⟩
    rw [level k member]
    exact assigned.level_le k member
  · rw [assign_decisionLevel]
    exact assigned.nonneg

end Assign

section Database

variable {f : CNFFormula} {x a b : ℕ} {rest : List ℕ}

/-- The literal is one of the first two of the clause. -/
def Watches (s : Solver) (r : ClauseRef) (x : ℕ) : Prop :=
  ∃ a b rest, s.lits r = a :: b :: rest ∧ (x = a ∨ x = b)

theorem watches_iff (lits : s.lits r = a :: b :: rest) : s.Watches r x ↔ x = a ∨ x = b := by
  constructor
  · rintro ⟨_, _, _, same, which⟩
    rw [lits] at same
    cases same
    exact which
  · exact fun which => ⟨a, b, rest, lits, which⟩

structure Formed (F : List (List ℕ)) (s : Solver) (r : ClauseRef) : Prop where
  known : r < s.nbObjects
  long : 2 ≤ (s.lits r).length
  distinct : ((s.lits r).map (· / 2)).Nodup
  inside : ∀ l ∈ s.lits r, l / 2 < s.nbVars
  entails : Entails F (s.lits r)

theorem Formed.perm (formed : Formed F s r) (known : s.nbObjects ≤ s'.nbObjects)
    (vars : s'.nbVars = s.nbVars) (perm : (s'.lits r).Perm (s.lits r)) : Formed F s' r where
  known := formed.known.trans_le known
  long := perm.length_eq ▸ formed.long
  distinct := (perm.map _).nodup_iff.mpr formed.distinct
  inside l member := vars ▸ formed.inside l (perm.subset member)
  entails := formed.entails.mono perm.symm.subset

theorem Formed.split (formed : Formed F s r) : ∃ a b rest, s.lits r = a :: b :: rest := by
  have long := formed.long
  match same : s.lits r with
  | [] | [_] => simp [same] at long
  | a :: b :: rest => exact ⟨a, b, rest, rfl⟩

theorem Formed.nodup (formed : Formed F s r) : (s.lits r).Nodup :=
  formed.distinct.of_map _

structure Database (F : List (List ℕ)) (s : Solver) (f : CNFFormula) : Prop where
  formed : ∀ r ∈ f.originalClauses ++ f.learntClauses, Formed F s r
  watching : ∀ x, ∀ r ∈ s.watched x, r ∈ f.originalClauses ++ f.learntClauses ∧ s.Watches r x
  attached : ∀ r ∈ f.originalClauses, ∀ x, s.Watches r x → r ∈ s.watched x
  apart : ∀ r ∈ f.learntClauses, r ∉ f.originalClauses
  nodup : ∀ x, (s.watched x).Nodup

/-- A database is about its own clauses. -/
theorem Database.congr_base (database : Database F s f)
    (lits : ∀ r ∈ f.originalClauses ++ f.learntClauses, s'.lits r = s.lits r)
    (watched : s'.watched = s.watched) (known : s.nbObjects ≤ s'.nbObjects)
    (vars : s'.nbVars = s.nbVars) : Database F s' f where
  formed r member := (database.formed r member).perm known vars (by rw [lits r member])
  watching x r member := by
    rw [watched] at member
    have ⟨inBase, watches⟩ := database.watching x r member
    rw [Watches, lits r inBase]
    exact ⟨inBase, watches⟩
  attached r member x watches := by
    rw [Watches, lits r (List.mem_append_left _ member)] at watches
    rw [watched]
    exact database.attached r member x watches
  apart := database.apart
  nodup x := watched ▸ database.nodup x

theorem Database.congr (database : Database F s f) (lits : s'.lits = s.lits)
    (watched : s'.watched = s.watched) (known : s.nbObjects ≤ s'.nbObjects)
    (vars : s'.nbVars = s.nbVars) : Database F s' f :=
  database.congr_base (fun r _ => congrFun lits r) watched known vars

/-- The formula counts with its lists of clauses only. -/
theorem Database.relist (database : Database F s f) {f' : CNFFormula}
    (original : f'.originalClauses = f.originalClauses)
    (learnt : ∀ r, r ∈ f'.learntClauses ↔ r ∈ f.learntClauses) : Database F s f' where
  formed r member := database.formed r (by simpa [original, learnt] using member)
  watching x r member := by
    have ⟨inBase, watches⟩ := database.watching x r member
    exact ⟨by simpa [original, learnt] using inBase, watches⟩
  attached r member := database.attached r (original ▸ member)
  apart r member := original ▸ database.apart r ((learnt r).mp member)
  nodup := database.nodup

/-- The first two literals of a clause change places. -/
theorem Database.swap (database : Database F s f) (lits : s.lits r = a :: b :: rest) :
    Database F (s.setLits r (b :: a :: rest)) f := by
  have watches : ∀ r' x, (s.setLits r (b :: a :: rest)).Watches r' x ↔ s.Watches r' x := by
    intro r' x
    by_cases same : r' = r
    · subst same
      rw [watches_iff (by simp : (s.setLits r' (b :: a :: rest)).lits r' = b :: a :: rest),
        watches_iff lits]
      exact or_comm
    · simp [Watches, same]
  constructor
  · intro r' member
    refine (database.formed r' member).perm (le_refl _) rfl ?_
    by_cases same : r' = r
    · subst same
      rw [lits_setLits, if_pos rfl, lits]
      exact List.Perm.swap a b rest
    · simp [same]
  · intro x r' member
    rw [watches]
    exact database.watching x r' member
  · intro r' member x watched
    exact database.attached r' member x ((watches r' x).mp watched)
  · exact database.apart
  · exact database.nodup

/-- The list of `x` is replaced. -/
def withList (s : Solver) (x : ℕ) (list : List ClauseRef) : Solver :=
  { s with watched := Function.update s.watched x list }

/-- The clause `r` leaves the list of `b` for that of its literal `l`. -/
def moved (s : Solver) (r : ClauseRef) (a l b : ℕ) (rest : List ℕ) (left : List ClauseRef) : Solver :=
  ((s.setLits r (a :: l :: rest)).watch l r).withList b left

section Moved

variable {r' : ClauseRef} {left : List ClauseRef}

theorem lits_moved : (s.moved r a l b rest left).lits r' = if r' = r then a :: l :: rest else s.lits r' :=
  lits_setLits s r r' _

theorem watched_moved : (s.moved r a l b rest left).watched x =
    if x = b then left else if x = l then s.watched l ++ [r] else s.watched x := by
  simp only [moved, withList, watch, setLits, setClause, Function.update_apply]

theorem watches_moved_self : (s.moved r a l b rest left).Watches r x ↔ x = a ∨ x = l :=
  watches_iff (lits_moved.trans (if_pos rfl))

theorem watches_moved_other (other : r' ≠ r) :
    (s.moved r a l b rest left).Watches r' x ↔ s.Watches r' x := by
  simp only [Watches, lits_moved, if_neg other]

end Moved

/-- A clause of the list of `b` moves to the list of another of its literals. -/
theorem Database.move {kept ws : List ClauseRef} (database : Database F (s.withList b (kept ++ r :: ws)) f)
    (lits : s.lits r = a :: b :: rest) (inRest : l ∈ rest) {rest' : List ℕ}
    (perm : (l :: rest').Perm (b :: rest)) :
    Database F (((s.setLits r (a :: l :: rest')).watch l r).withList b (kept ++ ws)) f := by
  show Database F (s.moved r a l b rest' (kept ++ ws)) f
  have here : r ∈ (s.withList b (kept ++ r :: ws)).watched b := by simp [withList]
  have inBase := (database.watching b r here).1
  have nodup : (a :: b :: rest).Nodup := by
    have formed := (database.formed r inBase).nodup
    rwa [show (s.withList b (kept ++ r :: ws)).lits r = a :: b :: rest from lits] at formed
  simp only [List.nodup_cons, List.mem_cons, not_or] at nodup
  have notFirst : l ≠ a := fun same => nodup.1.2 (same ▸ inRest)
  have notSecond : l ≠ b := fun same => nodup.2.1 (same ▸ inRest)
  have once : (r :: (kept ++ ws)).Nodup := by
    have once := database.nodup b
    simp only [withList, Function.update_self] at once
    exact List.nodup_middle.mp once
  have others : r ∉ kept ++ ws := (List.nodup_cons.mp once).1
  have oldList : ∀ x, x ≠ b → ∀ r' ∈ s.watched x, r' ∈ f.originalClauses ++ f.learntClauses ∧
      s.Watches r' x := by
    intro x other r' member
    exact database.watching x r' (by simpa [withList, Function.update_of_ne other] using member)
  have notListed : r ∉ s.watched l := by
    intro listed
    have watches := (oldList l notSecond r listed).2
    rw [watches_iff lits] at watches
    exact watches.elim notFirst notSecond
  constructor
  · intro r' member
    refine (database.formed r' member).perm (le_refl _) rfl ?_
    rw [lits_moved]
    by_cases same : r' = r
    · subst same
      rw [if_pos rfl, show (s.withList b (kept ++ r' :: ws)).lits r' = a :: b :: rest from lits]
      exact perm.cons a
    · rw [if_neg same]
      exact List.Perm.refl _
  · intro x r' member
    rw [watched_moved] at member
    split_ifs at member with isSecond isNew
    -- the list that `r` leaves, the list that it comes to, and all others
    · have old : r' ∈ (s.withList b (kept ++ r :: ws)).watched b := by
        simp only [withList, Function.update_self, List.mem_append, List.mem_cons] at member ⊢
        tauto
      have different : r' ≠ r := fun same => others (same ▸ member)
      rw [isSecond, watches_moved_other different]
      exact database.watching b r' old
    · subst isNew
      rcases List.mem_append.mp member with old | isNew
      · have different : r' ≠ r := fun same => notListed (same ▸ old)
        rw [watches_moved_other different]
        exact oldList x notSecond r' old
      · rw [List.mem_singleton.mp isNew, watches_moved_self]
        exact ⟨inBase, .inr rfl⟩
    · have ⟨known, watches⟩ := oldList x isSecond r' member
      refine ⟨known, ?_⟩
      by_cases same : r' = r
      · subst same
        rw [watches_iff lits] at watches
        rw [watches_moved_self]
        exact watches.elim .inl fun second => absurd second isSecond
      · rw [watches_moved_other same]
        exact watches
  · intro r' member x watches
    rw [watched_moved]
    by_cases same : r' = r
    · subst same
      rcases watches_moved_self.mp watches with rfl | rfl
      · have notB : x ≠ b := fun equal => nodup.1.1 equal
        rw [if_neg notB, if_neg (Ne.symm notFirst)]
        have old := database.attached r' member x ((watches_iff lits).mpr (.inl rfl))
        simpa [withList, Function.update_of_ne notB] using old
      · rw [if_neg notSecond, if_pos rfl]
        simp
    · rw [watches_moved_other same] at watches
      have old := database.attached r' member x watches
      simp only [withList, Function.update_apply] at old
      split_ifs at old ⊢ with isSecond isNew
      · simp only [List.mem_append, List.mem_cons] at old ⊢
        tauto
      · subst isNew
        exact List.mem_append_left _ old
      · exact old
  · exact database.apart
  · intro x
    rw [watched_moved]
    have before := database.nodup x
    simp only [withList, Function.update_apply] at before
    split_ifs at before ⊢ with isSecond isNew
    · exact (List.nodup_cons.mp once).2
    · subst isNew
      exact List.nodup_append.mpr ⟨before, List.nodup_singleton r, fun r' old r'' last => by
        rw [List.mem_singleton.mp last]
        exact fun same => notListed (same ▸ old)⟩
    · exact before

end Database

section Quiet

variable {early : List ℕ} {c : List ℕ} {a b x : ℕ}

/-- If the first literal is one of those that are false because of `early`, then the second is true, and was
so at this level already; and the other way round. -/
def Quiet (s : Solver) (early : List ℕ) : List ℕ → Prop
  | a :: b :: _ =>
      (neg a ∈ early → b ∈ s.trail ∧ s.levels (b / 2) ≤ s.levels (a / 2)) ∧
        (neg b ∈ early → a ∈ s.trail ∧ s.levels (a / 2) ≤ s.levels (b / 2))
  | _ => True

theorem Quiet.swap {rest rest' : List ℕ} (quiet : s.Quiet early (a :: b :: rest)) :
    s.Quiet early (b :: a :: rest') :=
  ⟨quiet.2, quiet.1⟩

/-- More literals do not matter. -/
theorem Quiet.grow (quiet : s.Quiet early c) (before : early ⊆ s.trail) (more : s.trail ⊆ s'.trail)
    (levels : ∀ l ∈ s.trail, s'.levels (l / 2) = s.levels (l / 2)) : s'.Quiet early c := by
  match c, quiet with
  | [], _ | [_], _ => trivial
  | a :: b :: rest, ⟨first, second⟩ =>
      constructor
      · intro fails
        have ⟨holds, order⟩ := first fails
        have level := levels (neg a) (before fails)
        rw [var_neg] at level
        exact ⟨more holds, by rw [level, levels b holds]; exact order⟩
      · intro fails
        have ⟨holds, order⟩ := second fails
        have level := levels (neg b) (before fails)
        rw [var_neg] at level
        exact ⟨more holds, by rw [level, levels a holds]; exact order⟩

theorem Quiet.congr (quiet : s.Quiet early c) (trail : s'.trail = s.trail) (levels : s'.levels = s.levels) :
    s'.Quiet early c := by
  match c, quiet with
  | [], _ | [_], _ => trivial
  | a :: b :: rest, quiet =>
      simp only [Quiet, trail, levels]
      exact quiet

/-- Fewer literals may be false. -/
theorem Quiet.shrink (quiet : s.Quiet early c) {earlier : List ℕ} (fewer : earlier ⊆ early) :
    s.Quiet earlier c := by
  match c, quiet with
  | [], _ | [_], _ => trivial
  | a :: b :: rest, ⟨first, second⟩ =>
      exact ⟨fun fails => first (fewer fails), fun fails => second (fewer fails)⟩

/-- A literal that neither of the two is the negation of. -/
theorem Quiet.cons_other {rest : List ℕ} (quiet : s.Quiet early (a :: b :: rest)) (first : neg a ≠ x)
    (second : neg b ≠ x) : s.Quiet (x :: early) (a :: b :: rest) := by
  constructor
  · intro fails
    exact quiet.1 ((List.mem_cons.mp fails).resolve_left first)
  · intro fails
    exact quiet.2 ((List.mem_cons.mp fails).resolve_left second)

/-- The original clauses are quiet about all of the trail but some literals of the last level. -/
def Settled (s : Solver) (f : CNFFormula) : Prop :=
  ∃ late early, s.trail = late ++ early ∧ (∀ l ∈ late, s.levels (l / 2) = s.decisionLevel) ∧
    ∀ r ∈ f.originalClauses, s.Quiet early (s.lits r)

end Quiet

/-- The variables in `C` are in the queue. -/
structure Holding (f : CNFFormula) (nbVars : ℕ) (C : Set ℕ) : Prop where
  represents : ∃ g, f.vsidsQueue.Represents C g
  size : f.vsidsQueue.maxSize = nbVars
  nonneg : 0 ≤ f.vsidsInc

/-- Each variable without a value is in the queue. -/
def Queued (s : Solver) (f : CNFFormula) : Prop :=
  ∃ C, Holding f s.nbVars C ∧ ∀ v < s.nbVars, s.model v = none → v ∈ C

/-- The first levels are those of the assumptions. Level `i + 1` has no literals if the assumption with
number `i` was true before. Each later level has a literal. -/
structure Assumed (s : Solver) : Prop where
  inside : ∀ p ∈ s.assumptions, p / 2 < s.nbVars
  held : ∀ (i : ℕ) p, s.assumptions[i]? = some p → i < s.decisionLevel → p ∈ s.trail ∧ s.levels (p / 2) ≤ i + 1
  decisions : ∀ l ∈ s.trail, s.reasons (l / 2) = none → 0 < s.levels (l / 2) →
    s.levels (l / 2) ≤ s.assumptions.length → l ∈ s.assumptions
  filled : ∀ level : ℤ, s.assumptions.length < level → level ≤ s.decisionLevel →
    ∃ l ∈ s.trail, s.levels (l / 2) = level

/-- A clause that the solver was given is always true, or a fact makes it true, or an original clause does. -/
def Covered (s : Solver) (f : CNFFormula) (c : List ℕ) : Prop :=
  (∀ σ, Sat σ c) ∨ (∃ l ∈ c, l ∈ s.trail ∧ s.levels (l / 2) ≤ 0) ∨ ∃ r ∈ f.originalClauses, s.lits r ⊆ c

theorem Covered.mono {c : List ℕ} {f' : CNFFormula} (covered : s.Covered f c)
    (facts : ∀ l ∈ s.trail, s.levels (l / 2) ≤ 0 → l ∈ s'.trail ∧ s'.levels (l / 2) ≤ 0)
    (original : f'.originalClauses = f.originalClauses)
    (lits : ∀ r ∈ f.originalClauses, s'.lits r ⊆ s.lits r) : s'.Covered f' c := by
  rcases covered with always | ⟨l, inClause, holds, low⟩ | ⟨r, isOriginal, inside⟩
  · exact .inl always
  · exact .inr (.inl ⟨l, inClause, facts l holds low⟩)
  · exact .inr (.inr ⟨r, original ▸ isOriginal, List.Subset.trans (lits r isOriginal) inside⟩)

/-- What is true between two steps of a search, besides `Assigned`. -/
structure Going (F : List (List ℕ)) (s : Solver) (f : CNFFormula) : Prop where
  formula : s.cnfFormula = some f
  database : Database F s f
  covers : ∀ c ∈ F, s.Covered f c
  queued : s.Queued f
  unseen : ∀ v, s.seen v = false
  noRestart : s.nextRestart = 0
  known : ∀ l ∈ s.trail, ∀ r, s.reasons (l / 2) = some r → r < s.nbObjects
  assumed : Assumed s
  notEmpty : f.vsidsQueue.isEmpty = true → s.assumptions.length ≤ s.decisionLevel

/-- What no step of a search changes. -/
structure Constants (s s' : Solver) : Prop where
  nbVars : s'.nbVars = s.nbVars
  nbSolveCalls : s'.nbSolveCalls = s.nbSolveCalls
  incrementallyAddedClauses : s'.incrementallyAddedClauses = s.incrementallyAddedClauses
  learntClauses : s'.learntClauses = s.learntClauses
  assumptions : s'.assumptions = s.assumptions

theorem Constants.refl (s : Solver) : Constants s s :=
  ⟨rfl, rfl, rfl, rfl, rfl⟩

theorem Constants.trans {s'' : Solver} (first : Constants s s') (second : Constants s' s'') :
    Constants s s'' where
  nbVars := second.nbVars.trans first.nbVars
  nbSolveCalls := second.nbSolveCalls.trans first.nbSolveCalls
  incrementallyAddedClauses := second.incrementallyAddedClauses.trans first.incrementallyAddedClauses
  learntClauses := second.learntClauses.trans first.learntClauses
  assumptions := second.assumptions.trans first.assumptions

end Renaissance.CafeSat.Solver
