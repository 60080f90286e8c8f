import Mathlib.Algebra.Order.Field.Rat
import Mathlib.Algebra.Order.Floor.Semiring
import Mathlib.Data.Rat.Floor
import Mathlib.Data.Set.List
import Renaissance.Lib.Clustering
import Renaissance.Lib.Fallible
import Renaissance.Lib.JavaCollections

/-!
# k-means with Scala collections

`KmeansUtilities`: classification of points by their closest means and the recursion of `kMeans`, which
gets fuel. Numbers are exact.

`kMeans_right` says that the recursion ends, since the cost falls by more than `eta` in every round but
the last.
-/

namespace Renaissance.ScalaKmeans

open JavaCollections Clustering

/-- A point object. Maps tell the objects apart by their references. -/
structure Point where
  ref : ℕ
  x : ℚ
  y : ℚ
  z : ℚ
  deriving DecidableEq

def square (v : ℚ) : ℚ :=
  v * v

def Point.squareDistance (point that : Point) : ℚ :=
  square (that.x - point.x) + square (that.y - point.y) + square (that.z - point.z)

/-- One iteration of the loop over the means, for `minDistance` and `closest`. -/
def closer (p : Point) (best : ℚ × Point) (mean : Point) : ℚ × Point :=
  if p.squareDistance mean < best.1 then (p.squareDistance mean, mean) else best

/-- There is no result if the assertion fails. -/
def findClosest (p : Point) : List Point → Option Point
  | [] => none
  | mean :: means => some ((mean :: means).foldl (closer p) (p.squareDistance mean, mean)).2

def addUnused (map : List (Point × List Point)) (mean : Point) : List (Point × List Point) :=
  if mean ∈ map.map Prod.fst then map else update map (mean, [])

def classify (order : IterationOrder (Option Point)) (points means : List Point) :
    Option (List (Point × List Point)) := do
  -- one failed assertion is enough
  let grouped ← (groupBy order (fun p => findClosest p means) points).mapM fun group =>
    group.1.map (·, group.2)
  pure (means.foldl addUnused grouped)

/-- The average, which may be a new object, and the next reference. -/
def findAverage (oldMean : Point) (points : List Point) (next : ℕ) : Point × ℕ :=
  if points = [] then (oldMean, next)
  else
    let x := points.foldl (fun x p => x + p.x) 0
    let y := points.foldl (fun y p => y + p.y) 0
    let z := points.foldl (fun z p => z + p.z) 0
    (⟨next, x / points.length, y / points.length, z / points.length⟩, next + 1)

/-- The averages of the clusters that the old means are looked up with. -/
def updateMeans (classified : List (Point × List Point)) : List Point → ℕ → Option (List Point × ℕ)
  | [], next => some ([], next)
  | mean :: oldMeans, next => do
      let points ← mapGet classified mean
      let average := findAverage mean points next
      let (newMeans, next) ← updateMeans classified oldMeans average.2
      pure (average.1 :: newMeans, next)

def converged (eta : ℚ) (oldMeans newMeans : List Point) : Bool :=
  ((oldMeans.zip newMeans).map fun pair => pair.1.squareDistance pair.2).all (· ≤ eta)

section Rounds

variable (order : IterationOrder (Option Point)) (points : List Point)

/-- The means of the next round. -/
def round (means : List Point) (next : ℕ) : Option (List Point × ℕ) := do
  let classifiedPoints ← classify order points means
  updateMeans classifiedPoints means next

def kMeans (eta : ℚ) : ℕ → List Point → ℕ → Option (List Point)
  | 0, _, _ => none
  | fuel + 1, means, next => do
      let (newMeans, next) ← round order points means next
      if !converged eta means newMeans then kMeans eta fuel newMeans next else pure newMeans

/-- The means at the start of a round. -/
inductive Reached (eta : ℚ) (means : List Point) (next : ℕ) : List Point → ℕ → Prop
  | start : Reached eta means next means next
  | round {means' newMeans : List Point} {next' newNext : ℕ} : Reached eta means next means' next' →
      round order points means' next' = some (newMeans, newNext) →
      converged eta means' newMeans = false → Reached eta means next newMeans newNext

end Rounds

/-! ## What the rounds should do -/

/-- The sum of the squared distances of the points to their nearest means. -/
def cost (points means : List Point) : ℚ :=
  Clustering.cost Point.squareDistance points means

/-- A map with a cluster for every mean. Every point is in one cluster, that of a nearest mean. -/
structure Classified (points means : List Point) (classified : List (Point × List Point)) : Prop where
  keyed : Keyed classified
  found : ∀ mean ∈ means, ∃ cluster, mapGet classified mean = some cluster
  perm : (classified.flatMap Prod.snd).Perm points
  nearest : ∀ cluster ∈ classified, ∀ p ∈ cluster.2, Nearest Point.squareDistance means p cluster.1
  -- also for a point object that occurs several times
  one : ∀ cluster ∈ classified, ∀ cluster' ∈ classified, ∀ p ∈ cluster.2, p ∈ cluster'.2 →
    cluster = cluster'

/-- What a round with these means does. -/
structure RoundRight (order : IterationOrder (Option Point)) (points : List Point) (eta : ℚ)
    (means : List Point) (next : ℕ) : Prop where
  classified : ∃ classified, classify order points means = some classified ∧
    Classified points means classified
  means : ∃ newMeans next', round order points means next = some (newMeans, next') ∧
    newMeans.length = means.length ∧ cost points newMeans ≤ cost points means ∧
    (converged eta means newMeans = false → cost points newMeans + eta < cost points means)

/-- All runs with enough fuel come to the same means. -/
structure KMeansRight (order : IterationOrder (Option Point)) (points : List Point) (eta : ℚ)
    (means : List Point) (next : ℕ) : Prop where
  finishes : ∃ result, (∀ fuel, ⌊cost points means / eta⌋₊ < fuel →
      kMeans order points eta fuel means next = some result) ∧
    result.length = means.length ∧ cost points result ≤ cost points means
  rounds : ∀ means' next', Reached order points eta means next means' next' →
    RoundRight order points eta means' next'

/-! ## The closest mean -/

variable {points means : List Point}

/-- The loop keeps a best mean. -/
theorem foldl_closer (p : Point) (best : Point) (means : List Point) :
    ∃ closest, means.foldl (closer p) (p.squareDistance best, best) =
        (p.squareDistance closest, closest) ∧
      Nearest Point.squareDistance (best :: means) p closest := by
  induction means generalizing best with
  | nil => exact ⟨best, rfl, List.mem_singleton_self _, by simp⟩
  | cons mean means ih =>
      rw [List.foldl_cons]
      by_cases less : p.squareDistance mean < p.squareDistance best
      · have taken : closer p (p.squareDistance best, best) mean = (p.squareDistance mean, mean) :=
          if_pos less
        obtain ⟨closest, chosen, mem, least⟩ := ih mean
        rw [taken]
        refine ⟨closest, chosen, List.mem_cons_of_mem _ mem, List.forall_mem_cons.mpr ⟨?_, least⟩⟩
        exact (least mean List.mem_cons_self).trans less.le
      · have kept : closer p (p.squareDistance best, best) mean = (p.squareDistance best, best) :=
          if_neg less
        obtain ⟨closest, chosen, mem, least⟩ := ih best
        obtain ⟨first, others⟩ := List.forall_mem_cons.mp least
        rw [kept]
        refine ⟨closest, chosen, ?_, List.forall_mem_cons.mpr ⟨first, List.forall_mem_cons.mpr ⟨?_, others⟩⟩⟩
        · rcases List.mem_cons.mp mem with rfl | mem
          · exact List.mem_cons_self
          · exact List.mem_cons_of_mem _ (List.mem_cons_of_mem _ mem)
        · exact first.trans (not_lt.mp less)

theorem findClosest_nearest (some' : means ≠ []) (p : Point) :
    ∃ closest, findClosest p means = some closest ∧
      Nearest Point.squareDistance means p closest := by
  obtain ⟨mean, others, rfl⟩ := List.exists_cons_of_ne_nil some'
  have first : closer p (p.squareDistance mean, mean) mean = (p.squareDistance mean, mean) :=
    if_neg (lt_irrefl _)
  obtain ⟨closest, chosen, nearest⟩ := foldl_closer p mean others
  refine ⟨closest, ?_, nearest⟩
  rw [findClosest, List.foldl_cons, first, chosen]

/-! ## The clusters -/

theorem addUnused_eq (map : List (Point × List Point)) (mean : Point) :
    addUnused map mean = map ∨ addUnused map mean = map ++ [(mean, [])] := by
  unfold addUnused
  split
  · exact .inl rfl
  · next unused => exact .inr (if_neg unused)

theorem keys_addUnused (map : List (Point × List Point)) (mean : Point) :
    mean ∈ (addUnused map mean).map Prod.fst := by
  unfold addUnused
  split
  · next used => exact used
  · rw [keys_update]
    split
    · next used => exact used
    · exact List.mem_append_right _ (List.mem_singleton_self _)

theorem Keyed.addUnused {map : List (Point × List Point)} (keyed : Keyed map) (mean : Point) :
    Keyed (addUnused map mean) := by
  unfold ScalaKmeans.addUnused
  split
  · exact keyed
  · exact keyed.update _

/-- The unused means are added with empty clusters. -/
theorem foldl_addUnused {map : List (Point × List Point)} (keyed : Keyed map) (means : List Point) :
    ∃ unused, means.foldl addUnused map = map ++ unused ∧ (∀ cluster ∈ unused, cluster.2 = []) ∧
      Keyed (means.foldl addUnused map) ∧
      ∀ mean ∈ means, mean ∈ (means.foldl addUnused map).map Prod.fst := by
  induction means generalizing map with
  | nil => exact ⟨[], (List.append_nil map).symm, by simp, keyed, by simp⟩
  | cons mean means ih =>
      obtain ⟨unused, same, empty, keyed', found⟩ := ih (Keyed.addUnused keyed mean)
      have first : mean ∈ (means.foldl addUnused (addUnused map mean)).map Prod.fst := by
        rw [same, List.map_append]
        exact List.mem_append_left _ (keys_addUnused map mean)
      rw [List.foldl_cons]
      rcases addUnused_eq map mean with used | new
      · rw [used] at same
        exact ⟨unused, by rw [used, same], empty, keyed', List.forall_mem_cons.mpr ⟨first, found⟩⟩
      · refine ⟨(mean, []) :: unused, ?_, ?_, keyed', List.forall_mem_cons.mpr ⟨first, found⟩⟩
        · rw [same, new, List.append_assoc]
          rfl
        · exact List.forall_mem_cons.mpr ⟨rfl, empty⟩

/-- The groups by the closest means. -/
theorem mapM_groups (order : IterationOrder (Option Point)) {closest : Point → Point}
    (chosen : ∀ p, findClosest p means = some (closest p)) (points : List Point) :
    ∃ grouped, (groupBy order (fun p => findClosest p means) points).mapM
        (fun group => group.1.map (·, group.2)) = some grouped ∧ Keyed grouped ∧
      (∀ p ∈ points, closest p ∈ grouped.map Prod.fst) ∧
      ∀ cluster ∈ grouped, cluster.2 = points.filter (closest · = cluster.1) := by
  have perm := order.perm (points.map fun p => findClosest p means).dedup
  -- every key is there, and it is the closest mean of a point
  have computed : order.arrange (points.map fun p => findClosest p means).dedup ∈
      Set.range (List.map some) := by
    rw [Set.range_list_map]
    intro key mem
    obtain ⟨p, -, rfl⟩ := List.mem_map.mp (List.mem_dedup.mp (perm.mem_iff.mp mem))
    exact ⟨closest p, (chosen p).symm⟩
  obtain ⟨keys, same⟩ := computed
  have distinct : keys.Nodup :=
    List.Nodup.of_map some (same ▸ perm.nodup_iff.mpr (List.nodup_dedup _))
  have collected : ∀ mean ∈ keys, (some mean).map (·, points.filter (findClosest · means = some mean)) =
      some (mean, points.filter (closest · = mean)) := by
    intro mean _
    simp only [chosen, Option.map_some, Option.some_inj]
  refine ⟨keys.map fun mean => (mean, points.filter (closest · = mean)), ?_, ?_, ?_, ?_⟩
  · rw [groupBy, ← same, List.map_map, List.mapM_map]
    exact Fallible.mapM_some collected
  · simpa [Keyed, Function.comp_def] using distinct
  · intro p mem
    have listed : some (closest p) ∈ keys.map some := by
      rw [same, perm.mem_iff, List.mem_dedup, ← chosen]
      exact List.mem_map_of_mem mem
    simpa [Function.comp_def] using listed
  · intro cluster mem
    obtain ⟨mean, -, rfl⟩ := List.mem_map.mp mem
    rfl

theorem classify_classified (order : IterationOrder (Option Point)) (points : List Point)
    (some' : means ≠ []) :
    ∃ classified, classify order points means = some classified ∧
      Classified points means classified := by
  choose closest chosen nearest using findClosest_nearest some'
  obtain ⟨grouped, groups, keyed, covered, lists⟩ := mapM_groups order chosen points
  obtain ⟨unused, same, empty, keyed', found⟩ := foldl_addUnused keyed means
  have closest_of_mem : ∀ {cluster}, cluster ∈ means.foldl addUnused grouped →
      ∀ {p}, p ∈ cluster.2 → closest p = cluster.1 := by
    intro cluster mem p member
    rw [same] at mem
    rcases List.mem_append.mp mem with mem | mem
    · rw [lists cluster mem] at member
      exact of_decide_eq_true (List.mem_filter.mp member).2
    · rw [empty cluster mem] at member
      cases member
  refine ⟨means.foldl addUnused grouped, ?_, keyed', fun mean mem => ?_, ?_, ?_, ?_⟩
  · rw [classify, groups]
    rfl
  · cases absent : mapGet (means.foldl addUnused grouped) mean with
    | some cluster => exact ⟨cluster, rfl⟩
    | none => exact absurd (found mean mem) (mapGet_eq_none_iff.mp absent)
  · have nothing : unused.flatMap Prod.snd = [] := List.flatMap_eq_nil_iff.mpr empty
    rw [same, List.flatMap_append, nothing, List.append_nil]
    exact keyed.flatMap_perm closest lists covered
  · intro cluster mem p member
    rw [← closest_of_mem mem member]
    exact nearest p
  · intro cluster mem cluster' mem' p member member'
    refine List.inj_on_of_nodup_map keyed' mem mem' ?_
    rw [← closest_of_mem mem member, ← closest_of_mem mem' member']

/-! ## The averages -/

theorem squareDistance_nonneg (p mean : Point) : 0 ≤ p.squareDistance mean :=
  add_nonneg (add_nonneg (mul_self_nonneg _) (mul_self_nonneg _)) (mul_self_nonneg _)

theorem squareDistance_self (mean : Point) : mean.squareDistance mean = 0 := by
  simp [Point.squareDistance, square]

/-- The coordinates do not depend on the reference. -/
theorem squareDistance_findAverage (p oldMean : Point) (points : List Point) (next next' : ℕ) :
    p.squareDistance (findAverage oldMean points next).1 =
      p.squareDistance (findAverage oldMean points next').1 := by
  unfold findAverage
  split
  · rfl
  · rfl

theorem foldl_add (f : Point → ℚ) (points : List Point) (start : ℚ) :
    points.foldl (fun sum p => sum + f p) start = start + (points.map f).sum := by
  induction points generalizing start with
  | nil => simp
  | cons p points ih => rw [List.foldl_cons, ih, List.map_cons, List.sum_cons, add_assoc]

/-- The sum of the squared distances falls by the squared distance of the move, for each point. -/
theorem sum_findAverage (oldMean : Point) (points : List Point) (next : ℕ) :
    (points.map fun p => p.squareDistance oldMean).sum =
      (points.map fun p => p.squareDistance (findAverage oldMean points next).1).sum +
        points.length * oldMean.squareDistance (findAverage oldMean points next).1 := by
  by_cases none : points = []
  · rw [findAverage, if_pos none, squareDistance_self, mul_zero, add_zero]
  · have some' : (points.length : ℚ) ≠ 0 := Nat.cast_ne_zero.mpr (mt List.length_eq_zero_iff.mp none)
    rw [findAverage, if_neg none]
    simp only [foldl_add, zero_add, Point.squareDistance, square, List.sum_map_add]
    have each : ∀ (f : Point → ℚ) (c : ℚ), (points.map fun p => (c - f p) * (c - f p)).sum =
        (points.map fun p => ((points.map f).sum / points.length - f p) *
          ((points.map f).sum / points.length - f p)).sum +
        points.length * ((c - (points.map f).sum / points.length) *
          (c - (points.map f).sum / points.length)) := by
      intro f c
      have count : ((points.map f).length : ℚ) ≠ 0 := by rwa [List.length_map]
      have mean := sum_sq_mean count c
      rwa [List.map_map, List.map_map, List.length_map] at mean
    rw [each (·.x), each (·.y), each (·.z)]
    ring

/-- A new mean is the average of the cluster of an old one. -/
def Averaged (classified : List (Point × List Point)) (oldMean newMean : Point) : Prop :=
  ∃ cluster next, mapGet classified oldMean = some cluster ∧
    newMean = (findAverage oldMean cluster next).1

theorem updateMeans_averaged {classified : List (Point × List Point)} {oldMeans : List Point}
    (found : ∀ mean ∈ oldMeans, ∃ cluster, mapGet classified mean = some cluster) (next : ℕ) :
    ∃ newMeans next', updateMeans classified oldMeans next = some (newMeans, next') ∧
      List.Forall₂ (Averaged classified) oldMeans newMeans := by
  induction oldMeans generalizing next with
  | nil => exact ⟨[], next, rfl, .nil⟩
  | cons mean oldMeans ih =>
      obtain ⟨⟨cluster, looked⟩, found⟩ := List.forall_mem_cons.mp found
      obtain ⟨newMeans, next', updated, each⟩ := ih found (findAverage mean cluster next).2
      refine ⟨_ :: newMeans, next', ?_, .cons ⟨cluster, next, looked, rfl⟩ each⟩
      rw [updateMeans, looked]
      dsimp only [bind, Option.bind]
      rw [updated]
      rfl

section Gain

variable {classified : List (Point × List Point)} {mean newMean : Point}

theorem Averaged.gain (averaged : Averaged classified mean newMean) (keyed : Keyed classified)
    {cluster : List Point} (mem : (mean, cluster) ∈ classified) :
    (cluster.map fun p => p.squareDistance mean).sum =
      (cluster.map fun p => p.squareDistance newMean).sum +
        cluster.length * mean.squareDistance newMean := by
  obtain ⟨cluster', next, looked, rfl⟩ := averaged
  obtain rfl := Option.some.inj ((keyed.mapGet_iff.mpr mem).symm.trans looked)
  exact sum_findAverage mean cluster next

theorem Averaged.gain_le (averaged : Averaged classified mean newMean) (keyed : Keyed classified)
    {cluster : List Point} (mem : (mean, cluster) ∈ classified) :
    (cluster.map fun p => p.squareDistance newMean).sum ≤
      (cluster.map fun p => p.squareDistance mean).sum := by
  rw [averaged.gain keyed mem]
  exact le_add_of_nonneg_right (mul_nonneg (Nat.cast_nonneg _) (squareDistance_nonneg _ _))

/-- The mean of an empty cluster does not move. -/
theorem Averaged.gain_lt (averaged : Averaged classified mean newMean) (keyed : Keyed classified)
    {eta : ℚ} (nonneg : 0 ≤ eta) (moved : eta < mean.squareDistance newMean) :
    ∃ cluster, (mean, cluster) ∈ classified ∧
      (cluster.map fun p => p.squareDistance newMean).sum + eta <
        (cluster.map fun p => p.squareDistance mean).sum := by
  obtain ⟨cluster, next, looked, same⟩ := id averaged
  have mem := keyed.mapGet_iff.mp looked
  have some' : cluster ≠ [] := by
    rintro rfl
    have kept : newMean = mean := same.trans rfl
    rw [kept, squareDistance_self] at moved
    exact absurd moved (not_lt.mpr nonneg)
  have one : (1 : ℚ) ≤ cluster.length := Nat.one_le_cast.mpr (List.length_pos_iff.mpr some')
  refine ⟨cluster, mem, ?_⟩
  rw [averaged.gain keyed mem, add_lt_add_iff_left]
  calc eta < mean.squareDistance newMean := moved
    _ = 1 * mean.squareDistance newMean := (one_mul _).symm
    _ ≤ cluster.length * mean.squareDistance newMean :=
        mul_le_mul_of_nonneg_right one (squareDistance_nonneg _ _)

/-- An object that occurs twice moves to two objects with the same coordinates. -/
theorem Averaged.squareDistance_eq {newMean' : Point} (averaged : Averaged classified mean newMean)
    (averaged' : Averaged classified mean newMean') (p : Point) :
    p.squareDistance newMean = p.squareDistance newMean' := by
  obtain ⟨cluster, next, looked, rfl⟩ := averaged
  obtain ⟨cluster', next', looked', rfl⟩ := averaged'
  obtain rfl := Option.some.inj (looked.symm.trans looked')
  exact squareDistance_findAverage p mean cluster next next'

end Gain

/-! ## The rounds -/

theorem exists_of_forall₂ {α β : Type} {R : α → β → Prop} {xs : List α} {ys : List β}
    (each : List.Forall₂ R xs ys) {x : α} (mem : x ∈ xs) : ∃ y ∈ ys, R x y := by
  induction each with
  | nil => cases mem
  | cons related _ ih =>
      rcases List.mem_cons.mp mem with rfl | mem
      · exact ⟨_, List.mem_cons_self, related⟩
      · obtain ⟨y, mem', related⟩ := ih mem
        exact ⟨y, List.mem_cons_of_mem _ mem', related⟩

theorem not_converged {eta : ℚ} {oldMeans newMeans : List Point}
    (moved : converged eta oldMeans newMeans = false) :
    ∃ pair ∈ oldMeans.zip newMeans, eta < pair.1.squareDistance pair.2 := by
  rw [converged, List.all_eq_false] at moved
  obtain ⟨distance, mem, more⟩ := moved
  obtain ⟨pair, paired, rfl⟩ := List.mem_map.mp mem
  exact ⟨pair, paired, not_le.mp (by simpa using more)⟩

theorem round_right (order : IterationOrder (Option Point)) (points : List Point) (some' : means ≠ [])
    {eta : ℚ} (nonneg : 0 ≤ eta) (next : ℕ) : RoundRight order points eta means next := by
  obtain ⟨classified, classifies, right⟩ := classify_classified order points some'
  obtain ⟨newMeans, next', updated, each⟩ := updateMeans_averaged right.found next
  have moves : ∀ mean, ∃ newMean, mean ∈ means → newMean ∈ newMeans ∧ Averaged classified mean newMean := by
    intro mean
    by_cases mem : mean ∈ means
    · obtain ⟨newMean, mem', averaged⟩ := exists_of_forall₂ each mem
      exact ⟨newMean, fun _ => ⟨mem', averaged⟩⟩
    · exact ⟨mean, fun mem' => absurd mem' mem⟩
  choose move moved using moves
  have known : ∀ cluster ∈ classified, cluster.2 ≠ [] → cluster.1 ∈ means := by
    intro cluster mem some'
    obtain ⟨p, member⟩ := List.exists_mem_of_ne_nil _ some'
    exact (right.nearest cluster mem p member).1
  have moved' : ∀ cluster ∈ classified, cluster.2 ≠ [] → move cluster.1 ∈ newMeans :=
    fun cluster mem some' => (moved _ (known cluster mem some')).1
  have less : ∀ cluster ∈ classified,
      (cluster.2.map fun p => p.squareDistance (move cluster.1)).sum ≤
        (cluster.2.map fun p => p.squareDistance cluster.1).sum := by
    intro cluster mem
    by_cases none : cluster.2 = []
    · rw [none]
      exact le_refl _
    · exact (moved _ (known cluster mem none)).2.gain_le right.keyed mem
  refine ⟨⟨classified, classifies, right⟩, newMeans, next', ?_, each.length_eq.symm, ?_, ?_⟩
  · rw [round, classifies]
    exact updated
  · exact cost_moved_le right.perm right.nearest moved' less
  · intro notConverged
    obtain ⟨⟨mean, newMean⟩, paired, far⟩ := not_converged notConverged
    have averaged := List.forall₂_zip each paired
    have averaged' := (moved mean (List.of_mem_zip paired).1).2
    rw [averaged.squareDistance_eq averaged'] at far
    obtain ⟨cluster, mem, gained⟩ := averaged'.gain_lt right.keyed nonneg far
    exact cost_moved_lt right.perm right.nearest moved' less mem gained

/-- Fuel for more rounds than `eta` fits into the cost is enough. -/
theorem kMeans_finishes (order : IterationOrder (Option Point)) {points : List Point} {eta : ℚ}
    (positive : 0 < eta) (fuel : ℕ) {means : List Point} (some' : means ≠ []) (next : ℕ)
    (enough : cost points means < fuel * eta) :
    ∃ result, kMeans order points eta fuel means next = some result ∧
      result.length = means.length ∧ cost points result ≤ cost points means := by
  induction fuel generalizing means next with
  | zero =>
      rw [Nat.cast_zero, zero_mul] at enough
      exact absurd enough (not_lt.mpr (cost_nonneg squareDistance_nonneg points means))
  | succ fuel ih =>
      obtain ⟨newMeans, next', rounds, length, less, falls⟩ :=
        (round_right order points some' positive.le next).means
      rw [kMeans, rounds]
      dsimp only [bind, Option.bind]
      cases ends : converged eta means newMeans with
      | true => exact ⟨newMeans, rfl, length, less⟩
      | false =>
          have rest : cost points newMeans < fuel * eta := by
            have falls := falls ends
            push_cast at enough
            linarith
          have some'' : newMeans ≠ [] := by
            rw [← List.length_pos_iff, length]
            exact List.length_pos_iff.mpr some'
          obtain ⟨result, done, length', less'⟩ := ih some'' next' rest
          exact ⟨result, done, length'.trans length, less'.trans less⟩

theorem kMeans_succ {order : IterationOrder (Option Point)} {eta : ℚ} {fuel : ℕ} {next : ℕ}
    {result : List Point} (done : kMeans order points eta fuel means next = some result) :
    kMeans order points eta (fuel + 1) means next = some result := by
  induction fuel generalizing means next with
  | zero => cases done
  | succ fuel ih =>
      rw [kMeans, Option.bind_eq_bind, Option.bind_eq_some_iff] at done ⊢
      obtain ⟨⟨newMeans, next'⟩, rounds, done⟩ := done
      refine ⟨(newMeans, next'), rounds, ?_⟩
      dsimp only at done ⊢
      split
      · next notConverged =>
        rw [if_pos notConverged] at done
        exact ih done
      · next ends =>
        rwa [if_neg ends] at done

theorem Reached.means_ne_nil {order : IterationOrder (Option Point)} {eta : ℚ} (nonneg : 0 ≤ eta)
    {means' : List Point} {next next' : ℕ} (some' : means ≠ [])
    (reached : Reached order points eta means next means' next') : means' ≠ [] := by
  induction reached with
  | start => exact some'
  | @round means' newMeans next' newNext _ rounds _ ih =>
      obtain ⟨_, _, rounds', length, -⟩ := (round_right order points ih nonneg next').means
      obtain ⟨rfl, -⟩ := Prod.mk.inj (Option.some.inj (rounds.symm.trans rounds'))
      rw [← List.length_pos_iff, length]
      exact List.length_pos_iff.mpr ih

/-- The recursion ends, and every round of it does what it should. -/
theorem kMeans_right (order : IterationOrder (Option Point)) (points : List Point)
    (some' : means ≠ []) {eta : ℚ} (positive : 0 < eta) (next : ℕ) :
    KMeansRight order points eta means next where
  finishes := by
    have nonneg : 0 ≤ cost points means / eta :=
      div_nonneg (cost_nonneg squareDistance_nonneg points means) positive.le
    have enough : cost points means < ↑(⌊cost points means / eta⌋₊ + 1) * eta :=
      (div_lt_iff₀ positive).mp (Nat.lt_of_floor_lt (Nat.lt_succ_self _))
    obtain ⟨result, done, right⟩ := kMeans_finishes order positive _ some' next enough
    refine ⟨result, fun fuel more => ?_, right⟩
    induction fuel, more using Nat.le_induction with
    | base => exact done
    | succ fuel _ ih => exact kMeans_succ ih
  rounds means' next' reached := round_right order points (reached.means_ne_nil positive.le some') positive.le next'

/-- The same object twice. -/
theorem kMeans_right_twice :
    KMeansRight (.insertion _) [⟨0, 0, 0, 0⟩, ⟨1, 1, 0, 0⟩] (1 / 100) [⟨0, 0, 0, 0⟩, ⟨0, 0, 0, 0⟩] 2 :=
  kMeans_right (.insertion _) _ (List.cons_ne_nil _ _) (by norm_num) 2

example : kMeans (.insertion _) [⟨0, 0, 0, 0⟩, ⟨1, 1, 0, 0⟩] (1 / 100) 3 [⟨0, 0, 0, 0⟩, ⟨0, 0, 0, 0⟩] 2 =
    some [⟨4, 1 / 2, 0, 0⟩, ⟨3, 1 / 2, 0, 0⟩] := by
  decide +kernel

end Renaissance.ScalaKmeans
