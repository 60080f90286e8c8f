import Mathlib.Algebra.BigOperators.Group.List.Lemmas
import Mathlib.Algebra.Order.BigOperators.Group.List
import Mathlib.Algebra.Order.Field.Basic
import Mathlib.Tactic.FieldSimp
import Mathlib.Tactic.Linarith
import Mathlib.Tactic.Ring

/-!
# Points around centers

`cost` adds up the distances of all points to their nearest centers. In one round of Lloyd's algorithm
the points are put into clusters by their nearest centers and every center moves.

* `cost_moved_lt`: the cost falls by more than what is gained in one cluster, if nothing is lost in the
  others;
* `sum_sq_mean`: what is gained in a cluster when its center moves to the mean.
-/

namespace Clustering

section Cost

variable {π κ K : Type} [AddCommMonoid K] [LinearOrder K] (d : π → κ → K)

/-- A center at the least distance from a point. -/
def Nearest (centers : List κ) (p : π) (c : κ) : Prop :=
  c ∈ centers ∧ ∀ c' ∈ centers, d p c ≤ d p c'

/-- The distance to the nearest center. -/
def leastDistance (centers : List κ) (p : π) : K :=
  (centers.map (d p)).min?.getD 0

def cost (points : List π) (centers : List κ) : K :=
  (points.map (leastDistance d centers)).sum

variable {d} {centers : List κ} {p : π}

theorem Nearest.leastDistance_eq {c : κ} (nearest : Nearest d centers p c) :
    leastDistance d centers p = d p c := by
  have least : (centers.map (d p)).min? = some (d p c) := by
    refine List.min?_eq_some_iff.mpr ⟨List.mem_map_of_mem nearest.1, fun b mem => ?_⟩
    obtain ⟨c', mem', rfl⟩ := List.mem_map.mp mem
    exact nearest.2 c' mem'
  rw [leastDistance, least]
  rfl

theorem leastDistance_le {c : κ} (mem : c ∈ centers) : leastDistance d centers p ≤ d p c := by
  unfold leastDistance
  cases least : (centers.map (d p)).min? with
  | none =>
      rw [List.min?_eq_none_iff, List.map_eq_nil_iff] at least
      rw [least] at mem
      cases mem
  | some b => exact (List.min?_eq_some_iff.mp least).2 _ (List.mem_map_of_mem mem)

theorem leastDistance_nonneg (nonneg : ∀ c, 0 ≤ d p c) : 0 ≤ leastDistance d centers p := by
  unfold leastDistance
  cases least : (centers.map (d p)).min? with
  | none => exact le_refl 0
  | some b =>
      obtain ⟨c, -, rfl⟩ := List.mem_map.mp (List.min?_eq_some_iff.mp least).1
      exact nonneg c

end Cost

section Round

variable {π κ K : Type} [AddCommMonoid K] [LinearOrder K] [IsOrderedCancelAddMonoid K]
  {d : π → κ → K} {points : List π} {centers : List κ} {clusters : List (κ × List π)}

theorem cost_nonneg (nonneg : ∀ p c, 0 ≤ d p c) (points : List π) (centers : List κ) :
    0 ≤ cost d points centers := by
  refine List.sum_nonneg fun x mem => ?_
  obtain ⟨p, -, rfl⟩ := List.mem_map.mp mem
  exact leastDistance_nonneg (nonneg p)

omit [LinearOrder K] [IsOrderedCancelAddMonoid K] in
/-- A sum over all points, cluster by cluster. -/
theorem sum_clusters (perm : (clusters.flatMap Prod.snd).Perm points) (f : π → K) :
    (points.map f).sum = (clusters.map fun cluster => (cluster.2.map f).sum).sum := by
  rw [← (perm.map f).sum_eq, List.map_flatMap, List.flatMap, List.sum_flatten, List.map_map]
  rfl

omit [IsOrderedCancelAddMonoid K] in
theorem cost_eq (perm : (clusters.flatMap Prod.snd).Perm points)
    (nearest : ∀ cluster ∈ clusters, ∀ p ∈ cluster.2, Nearest d centers p cluster.1) :
    cost d points centers =
      (clusters.map fun cluster => (cluster.2.map fun p => d p cluster.1).sum).sum := by
  rw [cost, sum_clusters perm]
  refine congrArg List.sum (List.map_congr_left fun cluster mem => congrArg List.sum ?_)
  exact List.map_congr_left fun p member => (nearest cluster mem p member).leastDistance_eq

/-- The cost is at most that of any other assignment. -/
theorem cost_le (perm : (clusters.flatMap Prod.snd).Perm points) {move : κ → κ}
    (moved : ∀ cluster ∈ clusters, cluster.2 ≠ [] → move cluster.1 ∈ centers) :
    cost d points centers ≤
      (clusters.map fun cluster => (cluster.2.map fun p => d p (move cluster.1)).sum).sum := by
  rw [cost, sum_clusters perm]
  refine List.sum_le_sum fun cluster mem => List.sum_le_sum fun p member => ?_
  exact leastDistance_le (moved cluster mem (List.ne_nil_of_mem member))

/-- If no summand is less, and one of them is more, so is the sum. -/
theorem sum_add_lt {α : Type} {xs : List α} {f g : α → K} {x : α} {gain : K} (mem : x ∈ xs)
    (each : ∀ y ∈ xs, f y ≤ g y) (more : f x + gain < g x) :
    (xs.map f).sum + gain < (xs.map g).sum := by
  obtain ⟨before, after, rfl⟩ := List.append_of_mem mem
  have others : ((before ++ after).map f).sum ≤ ((before ++ after).map g).sum :=
    List.sum_le_sum fun y mem => each y (by
      rcases List.mem_append.mp mem with mem | mem
      · exact List.mem_append_left _ mem
      · exact List.mem_append_right _ (List.mem_cons_of_mem _ mem))
  have perm : ∀ h : α → K, ((before ++ x :: after).map h).sum =
      h x + ((before ++ after).map h).sum := fun h =>
    (List.perm_middle.map h).sum_eq
  rw [perm, perm, add_right_comm]
  exact add_lt_add_of_lt_of_le more others

variable {move : κ → κ} {centers' : List κ}

theorem cost_moved_le (perm : (clusters.flatMap Prod.snd).Perm points)
    (nearest : ∀ cluster ∈ clusters, ∀ p ∈ cluster.2, Nearest d centers p cluster.1)
    (moved : ∀ cluster ∈ clusters, cluster.2 ≠ [] → move cluster.1 ∈ centers')
    (less : ∀ cluster ∈ clusters, (cluster.2.map fun p => d p (move cluster.1)).sum ≤
      (cluster.2.map fun p => d p cluster.1).sum) :
    cost d points centers' ≤ cost d points centers := by
  rw [cost_eq perm nearest]
  exact (cost_le perm moved).trans (List.sum_le_sum less)

theorem cost_moved_lt (perm : (clusters.flatMap Prod.snd).Perm points)
    (nearest : ∀ cluster ∈ clusters, ∀ p ∈ cluster.2, Nearest d centers p cluster.1)
    (moved : ∀ cluster ∈ clusters, cluster.2 ≠ [] → move cluster.1 ∈ centers')
    (less : ∀ cluster ∈ clusters, (cluster.2.map fun p => d p (move cluster.1)).sum ≤
      (cluster.2.map fun p => d p cluster.1).sum)
    {cluster : κ × List π} (mem : cluster ∈ clusters) {gain : K}
    (gained : (cluster.2.map fun p => d p (move cluster.1)).sum + gain <
      (cluster.2.map fun p => d p cluster.1).sum) :
    cost d points centers' + gain < cost d points centers := by
  rw [cost_eq perm nearest]
  exact (add_le_add_left (cost_le perm moved) gain).trans_lt (sum_add_lt mem less gained)

end Round

section Mean

variable {K : Type} [Field K]

theorem sum_sq (xs : List K) (c : K) :
    (xs.map fun x => (c - x) * (c - x)).sum =
      xs.length * (c * c) - 2 * c * xs.sum + (xs.map fun x => x * x).sum := by
  induction xs with
  | nil => simp
  | cons x xs ih =>
      rw [List.map_cons, List.map_cons, List.sum_cons, List.sum_cons, List.sum_cons, ih,
        List.length_cons]
      push_cast
      ring

/-- The squared distances to a number are those to the mean, and the squared distance between both for
each summand. -/
theorem sum_sq_mean {xs : List K} (some' : (xs.length : K) ≠ 0) (c : K) :
    (xs.map fun x => (c - x) * (c - x)).sum =
      (xs.map fun x => (xs.sum / xs.length - x) * (xs.sum / xs.length - x)).sum +
        xs.length * ((c - xs.sum / xs.length) * (c - xs.sum / xs.length)) := by
  rw [sum_sq, sum_sq]
  field_simp
  ring

end Mean

end Clustering
