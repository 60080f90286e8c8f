import Mathlib.Algebra.BigOperators.Group.List.Basic
import Mathlib.Algebra.Order.BigOperators.Group.List
import Mathlib.Algebra.Order.Ring.Nat
import Mathlib.Data.List.Infix
import Mathlib.Tactic.Linarith
import Mathlib.Tactic.Ring
import Renaissance.Lib.Clauses

/-!
# Assignments with reasons

A `Trail` lists the literals that were assigned, the last one first. A literal was assigned because it
follows from the clauses, or as a decision, which opens a level, or because a clause, its reason, has no
other literal left.

* `Trail.holds_of_closed`: what follows from some of the literals by their reasons.
* `Trail.entails_learnt`: the clause that a conflict teaches.
* `potential_lt`: a search that goes back to an earlier level, with a literal more there, comes to an end.
-/

namespace ImplicationGraph

open Clauses

variable {F : List (List ℕ)} {levels : ℕ → ℤ} {reason : ℕ → Option (List ℕ)} {trail : List ℕ}
  {σ : ℕ → Bool} {l : ℕ}

/-- Why `l` was assigned after `rest`. -/
inductive Cause (F : List (List ℕ)) (levels : ℕ → ℤ) (reason : ℕ → Option (List ℕ)) (l : ℕ)
    (rest : List ℕ) : Prop
  | fact (zero : levels (l / 2) = 0) (none : reason (l / 2) = none) (entails : Entails F [l])
  | decision (positive : 0 < levels (l / 2)) (none : reason (l / 2) = none)
      (opens : ∀ k ∈ rest, levels (k / 2) < levels (l / 2))
  | implied (others : List ℕ) (some : reason (l / 2) = some (l :: others))
      (assigned : ∀ k ∈ others, neg k ∈ rest) (entails : Entails F (l :: others))

structure Trail (F : List (List ℕ)) (levels : ℕ → ℤ) (reason : ℕ → Option (List ℕ)) (trail : List ℕ) :
    Prop where
  distinct : (trail.map (· / 2)).Nodup
  sorted : trail.Pairwise fun late early => levels (early / 2) ≤ levels (late / 2)
  nonneg : ∀ l ∈ trail, 0 ≤ levels (l / 2)
  cause : ∀ l rest, l :: rest <:+ trail → Cause F levels reason l rest

theorem trail_nil : Trail F levels reason [] where
  distinct := List.nodup_nil
  sorted := List.Pairwise.nil
  nonneg l member := nomatch member
  cause l rest suffix := by simp at suffix

theorem Trail.suffix (graph : Trail F levels reason trail) {early : List ℕ} (suffix : early <:+ trail) :
    Trail F levels reason early where
  distinct := graph.distinct.sublist (suffix.sublist.map _)
  sorted := graph.sorted.sublist suffix.sublist
  nonneg l member := graph.nonneg l (suffix.subset member)
  cause l rest inner := graph.cause l rest (inner.trans suffix)

/-- A trail is about the levels and reasons of its own literals. -/
theorem Trail.congr (graph : Trail F levels reason trail) {levels' : ℕ → ℤ}
    {reason' : ℕ → Option (List ℕ)} (sameLevels : ∀ l ∈ trail, levels' (l / 2) = levels (l / 2))
    (sameReason : ∀ l ∈ trail, reason' (l / 2) = reason (l / 2)) : Trail F levels' reason' trail where
  distinct := graph.distinct
  sorted := by
    refine (List.Pairwise.and_mem.mp graph.sorted).imp fun {late early} ⟨memberLate, memberEarly, order⟩ => ?_
    rw [sameLevels late memberLate, sameLevels early memberEarly]
    exact order
  nonneg l member := by
    rw [sameLevels l member]
    exact graph.nonneg l member
  cause l rest suffix := by
    have member : l ∈ trail := suffix.subset List.mem_cons_self
    have level := sameLevels l member
    have here := sameReason l member
    cases graph.cause l rest suffix with
    | fact zero none entails => exact .fact (level.trans zero) (here.trans none) entails
    | decision positive none opens =>
        refine .decision (level ▸ positive) (here.trans none) fun k early => ?_
        rw [level, sameLevels k (suffix.subset (List.mem_cons_of_mem _ early))]
        exact opens k early
    | implied others some assigned entails =>
        exact .implied others (here.trans some) assigned entails

theorem Trail.cons (graph : Trail F levels reason trail) (new : ∀ k ∈ trail, k / 2 ≠ l / 2)
    (last : ∀ k ∈ trail, levels (k / 2) ≤ levels (l / 2)) (nonneg : 0 ≤ levels (l / 2))
    (cause : Cause F levels reason l trail) : Trail F levels reason (l :: trail) where
  distinct := by
    rw [List.map_cons, List.nodup_cons]
    refine ⟨fun old => ?_, graph.distinct⟩
    obtain ⟨k, member, same⟩ := List.mem_map.mp old
    exact new k member same
  sorted := List.pairwise_cons.mpr ⟨last, graph.sorted⟩
  nonneg := List.forall_mem_cons.mpr ⟨nonneg, graph.nonneg⟩
  cause k rest suffix := by
    rcases List.suffix_cons_iff.mp suffix with same | inner
    · cases same
      exact cause
    · exact graph.cause k rest inner

/-- A trail without repetitions does not hold both literals of a variable. -/
theorem Trail.neg_notMem (graph : Trail F levels reason trail) (member : l ∈ trail) :
    neg l ∉ trail := by
  intro other
  have same := List.inj_on_of_nodup_map graph.distinct other member (by simp)
  exact neg_ne l same

/-- If the literals in `M` that are not known to hold have reasons within `M`, then all of them hold, and so
do those at level `0`. -/
theorem Trail.holds_of_closed (graph : Trail F levels reason trail) (models : Models σ F) {M : ℕ → Prop}
    (closed : ∀ l ∈ trail, M (l / 2) → holds σ l ∨ ∃ others, reason (l / 2) = some (l :: others) ∧
      ∀ k ∈ others, M (k / 2) ∨ levels (k / 2) = 0) :
    ∀ l ∈ trail, M (l / 2) ∨ levels (l / 2) = 0 → holds σ l := by
  induction trail with
  | nil => exact fun l member => nomatch member
  | cons first rest ih =>
      have earlier := ih (graph.suffix (List.suffix_cons _ _)) fun l member =>
        closed l (List.mem_cons_of_mem _ member)
      rintro l member known
      rcases List.mem_cons.mp member with rfl | inner
      · -- the reason's other literals fail, since their negations come earlier
        have byReason : ∀ others, (∀ k ∈ others, neg k ∈ rest) → Entails F (l :: others) →
            (∀ k ∈ others, M (k / 2) ∨ levels (k / 2) = 0) → holds σ l := by
          intro others assigned entails marked
          obtain ⟨k, inClause, sat⟩ := entails σ models
          rcases List.mem_cons.mp inClause with rfl | other
          · exact sat
          · have fails := earlier (neg k) (assigned k other) (by simpa using marked k other)
            exact absurd sat (holds_neg.mp fails)
        rcases known with marked | zero
        · rcases closed l List.mem_cons_self marked with sat | ⟨others, same, within⟩
          · exact sat
          · cases graph.cause l rest (List.suffix_refl _) with
            | fact _ none _ | decision _ none _ => rw [none] at same; cases same
            | implied others' some assigned entails =>
                rw [some] at same
                cases same
                exact byReason others assigned entails within
        · cases graph.cause l rest (List.suffix_refl _) with
          | fact _ _ entails => exact sat_singleton.mp (entails σ models)
          | decision positive _ _ => omega
          | implied others some assigned entails =>
              refine byReason others assigned entails fun k other => .inr ?_
              have early := assigned k other
              have below := List.rel_of_pairwise_cons graph.sorted early
              have nonneg := graph.nonneg (neg k) (List.mem_cons_of_mem _ early)
              rw [var_neg] at below nonneg
              omega
      · exact earlier l inner known

/-- The literals up to a level follow from the decisions up to there. -/
theorem Trail.holds_of_decisions (graph : Trail F levels reason trail) (models : Models σ F) {level : ℤ}
    (decisions : ∀ l ∈ trail, levels (l / 2) ≤ level → 0 < levels (l / 2) → reason (l / 2) = none →
      holds σ l) : ∀ l ∈ trail, levels (l / 2) ≤ level → holds σ l := by
  intro l member low
  refine graph.holds_of_closed models (M := fun v => levels v ≤ level) (fun l member low => ?_) l member
    (.inl low)
  obtain ⟨late, rest, rfl⟩ := List.append_of_mem member
  cases graph.cause l rest (List.suffix_append _ _) with
  | fact _ _ entails => exact .inl (sat_singleton.mp (entails σ models))
  | decision positive none _ => exact .inl (decisions l member low positive none)
  | implied others some assigned _ =>
      refine .inr ⟨others, some, fun k other => .inl ?_⟩
      have sorted := (List.pairwise_append.mp graph.sorted).2.1
      have below := List.rel_of_pairwise_cons sorted (assigned k other)
      rw [var_neg] at below
      exact below.trans low

/-- A clause follows if the literals of the conflict lead back, reason by reason, to its negation. -/
theorem Trail.entails_learnt (graph : Trail F levels reason trail) {conflict learnt : List ℕ}
    {M : ℕ → Prop} (entails : Entails F conflict)
    (start : ∀ k ∈ conflict, neg k ∈ trail ∧ (M (k / 2) ∨ levels (k / 2) = 0))
    (closed : ∀ l ∈ trail, M (l / 2) → neg l ∈ learnt ∨ ∃ others, reason (l / 2) = some (l :: others) ∧
      ∀ k ∈ others, M (k / 2) ∨ levels (k / 2) = 0) : Entails F learnt := by
  intro σ models
  by_contra unsat
  have all := graph.holds_of_closed models (M := M) fun l member marked =>
    (closed l member marked).imp_left fun inLearnt => by
      by_contra fails
      exact unsat ⟨neg l, inLearnt, holds_neg.mpr fails⟩
  obtain ⟨k, inConflict, sat⟩ := entails σ models
  have ⟨assigned, marked⟩ := start k inConflict
  exact holds_neg.mp (all (neg k) assigned (by simpa using marked)) sat

section Potential

variable {B K : ℕ}

/-- Literals count more the lower their level is. -/
def potential (B K : ℕ) (levels : ℕ → ℤ) (trail : List ℕ) : ℕ :=
  (trail.map fun l => B ^ (K - (levels (l / 2)).toNat)).sum

@[simp] theorem potential_nil : potential B K levels [] = 0 := rfl

@[simp] theorem potential_cons : potential B K levels (l :: trail) =
    B ^ (K - (levels (l / 2)).toNat) + potential B K levels trail := rfl

@[simp] theorem potential_append {late : List ℕ} : potential B K levels (late ++ trail) =
    potential B K levels late + potential B K levels trail := by
  simp [potential]

theorem potential_congr {levels' : ℕ → ℤ} (same : ∀ l ∈ trail, levels' (l / 2) = levels (l / 2)) :
    potential B K levels' trail = potential B K levels trail := by
  rw [potential, List.map_congr_left fun l member => by rw [same l member], ← potential]

theorem potential_le_of_levels {level : ℕ} (positive : 0 < B)
    (late : ∀ l ∈ trail, level ≤ (levels (l / 2)).toNat) :
    potential B K levels trail ≤ trail.length * B ^ (K - level) := by
  induction trail with
  | nil => simp
  | cons first rest ih =>
      have rest' := ih fun l member => late l (List.mem_cons_of_mem _ member)
      have here : B ^ (K - (levels (first / 2)).toNat) ≤ B ^ (K - level) :=
        Nat.pow_le_pow_right positive (Nat.sub_le_sub_left (late first List.mem_cons_self) K)
      rw [potential_cons, List.length_cons, Nat.succ_mul]
      omega

theorem potential_le (positive : 0 < B) : potential B K levels trail ≤ trail.length * B ^ K :=
  potential_le_of_levels positive fun _ _ => Nat.zero_le _

/-- The literals above a level count less than one literal at this level. -/
theorem potential_lt {level : ℤ} (few : trail.length < B) (nonneg : 0 ≤ level) (deep : level < K)
    (above : ∀ l ∈ trail, level < levels (l / 2)) :
    potential B K levels trail < B ^ (K - level.toNat) := by
  have positive : 0 < B := by omega
  have bound : potential B K levels trail ≤ trail.length * B ^ (K - (level.toNat + 1)) :=
    potential_le_of_levels positive fun k member => by
      have := above k member
      omega
  calc potential B K levels trail ≤ trail.length * B ^ (K - (level.toNat + 1)) := bound
    _ < B * B ^ (K - (level.toNat + 1)) := Nat.mul_lt_mul_of_pos_right few (Nat.pow_pos positive)
    _ = B ^ (K - level.toNat) := by
        rw [← Nat.pow_succ']
        congr 1
        omega

end Potential

end ImplicationGraph
