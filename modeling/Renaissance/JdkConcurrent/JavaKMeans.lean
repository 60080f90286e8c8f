import Mathlib.Tactic.NormNum
import Mathlib.Algebra.BigOperators.Fin
import Mathlib.Algebra.Order.Field.Rat
import Renaissance.Lib.ForkJoin
import Renaissance.Lib.JavaCollections
import Renaissance.Lib.JavaInt

/-!
# k-means with recursive tasks

`JavaKMeans`: the tasks that assign the data to the nearest centroids, that sum vectors and that update
the centroids. Numbers are exact.

`invoke_results` says that every execution of a task comes to the result of the sequential computation.
-/

namespace Renaissance.JavaKMeans

open JavaCollections ForkJoin

/-- An array object with `dimension` numbers, told from other objects by its name. -/
structure Vec (dimension : ℕ) where
  name : ℕ
  values : Fin dimension → ℚ
  deriving DecidableEq

/-- Lists of vectors under the centroid objects. -/
abbrev Clusters (dimension : ℕ) := List (Vec dimension × List (Vec dimension))

/-- `Double.MAX_VALUE`. -/
def maxValue : ℚ :=
  (2 ^ 53 - 1) * 2 ^ 971

/-- The lists of a key in both maps are joined in a new list. `right.forEach` enumerates in any order. -/
def merge {κ α : Type} [DecidableEq κ] (order : IterationOrder (κ × List α))
    (left right : List (κ × List α)) : List (κ × List α) :=
  (order.arrange right).foldl
    (fun result entry => JavaCollections.merge (fun l r => l ++ r) result entry.1 entry.2) left

variable {dimension : ℕ}

/-! ## The tasks -/

section AssignmentTask

variable (centroids : List (Vec dimension))

def distance (x y : Vec dimension) : ℚ :=
  ∑ i, (x.values i - y.values i) * (x.values i - y.values i)

/-- One iteration of the loop over the centroids, for the index in the result and `min`. -/
def nearer (element : Vec dimension) (best : ℕ × ℚ) (centroid : Vec dimension × ℕ) : ℕ × ℚ :=
  if distance element centroid.1 < best.2 then (centroid.2, distance element centroid.1) else best

def nearestIndex (element : Vec dimension) : ℕ :=
  (centroids.zipIdx.foldl (nearer element) (0, maxValue)).1

def findNearestCentroid (elements : List (Vec dimension)) : List ℕ :=
  elements.map (nearestIndex centroids)

/-- `result.computeIfAbsent(centroid, k -> new ArrayList<>()).add(element)`. -/
def addElement (result : Clusters dimension) (centroid element : Vec dimension) : Clusters dimension :=
  update result (centroid, (mapGet result centroid).getD [] ++ [element])

def collectClusters (elements : List (Vec dimension)) (centroidIndices : List ℕ) :
    Option (Clusters dimension) :=
  (elements.zip centroidIndices).foldlM (fun result pair => do
    let centroid ← centroids[pair.2]?
    pure (addElement result centroid pair.1)) []

def computeDirectly (elements : List (Vec dimension)) : Option (Clusters dimension) :=
  collectClusters centroids elements (findNearestCentroid centroids elements)

def assignmentTask (order : IterationOrder (Vec dimension × List (Vec dimension)))
    (forkThreshold : ℤ) (data : List (Vec dimension)) : Code Range (Clusters dimension) Unit where
  forks := Range.forks forkThreshold
  direct _ range next := (computeDirectly centroids (range.slice data)).map (·, next)
  combine := merge order

end AssignmentTask

section VectorSumTask

def accumulate (val : Vec dimension) (acc : Fin dimension → ℚ) : Fin dimension → ℚ :=
  fun i => acc i + val.values i

def vectorSum (elements : List (Vec dimension)) : Fin dimension → ℚ :=
  elements.foldl (fun result element => accumulate element result) fun _ => 0

def add (x y : Fin dimension → ℚ) : Fin dimension → ℚ :=
  fun i => x i + y i

def vectorSumTask (forkThreshold : ℤ) (data : List (Vec dimension)) :
    Code Range (Fin dimension → ℚ) Unit where
  forks := Range.forks forkThreshold
  direct _ range next := some (vectorSum (range.slice data), next)
  combine := add

end VectorSumTask

section UpdateTask

variable (forkThreshold : ℤ)

/-- There is no exact number for a division by zero. -/
def div (values : Fin dimension → ℚ) (divisor : ℕ) : Option (Fin dimension → ℚ) :=
  if divisor = 0 then none else some fun i => values i / divisor

/-- The average of a cluster, with the schedule of the task that sums it up. -/
def average (schedule : List (TaskStep Unit)) (elements : List (Vec dimension)) :
    Option (Fin dimension → ℚ) :=
  match Transition.run (step (vectorSumTask forkThreshold elements)) schedule
      (.compute (Range.whole elements), 0) with
  | some (.done vectorSums, _) => div vectorSums elements.length
  | _ => none

/-- The loop over the clusters. Every average is put into a new array. -/
def computeClusterAverages : List (List (TaskStep Unit)) → List (List (Vec dimension)) →
    Clusters dimension × ℕ → Option (Clusters dimension × ℕ)
  | [], [], (result, next) => some (result, next)
  | schedule :: schedules, clusterElements :: clusters, (result, next) => do
      let clusterAverage ← average forkThreshold schedule clusterElements
      computeClusterAverages schedules clusters
        (update result (⟨next, clusterAverage⟩, clusterElements), next + 1)
  | _, _, _ => none

def updateTask (order : IterationOrder (Vec dimension × List (Vec dimension)))
    (clusters : List (List (Vec dimension))) :
    Code Range (Clusters dimension) (List (List (TaskStep Unit))) where
  forks := Range.forks 2
  direct schedules range next :=
    computeClusterAverages forkThreshold schedules (range.slice clusters) ([], next)
  combine := merge order

end UpdateTask

/-! ## What the results should be -/

/-- The index of the first nearest centroid, or 0 if all are too far away. -/
structure FirstNearest (centroids : List (Vec dimension)) (element : Vec dimension) (index : ℕ) :
    Prop where
  nearest : (∃ c ∈ centroids, distance element c < maxValue) → ∃ c, centroids[index]? = some c ∧
    (∀ c' ∈ centroids, distance element c ≤ distance element c') ∧
    ∀ i c', i < index → centroids[i]? = some c' → distance element c < distance element c'
  tooFar : (∀ c ∈ centroids, maxValue ≤ distance element c) → index = 0

/-- The elements that are nearest to a centroid object, in their order. -/
def members (centroids elements : List (Vec dimension)) (centroid : Vec dimension) :
    List (Vec dimension) :=
  elements.filter fun element => centroids[nearestIndex centroids element]? = some centroid

/-- A map with the nearest elements of every centroid that has any. -/
structure Assigned (centroids elements : List (Vec dimension)) (result : Clusters dimension) : Prop where
  keyed : Keyed result
  lists : ∀ centroid, mapGet result centroid =
    if members centroids elements centroid = [] then none
    else some (members centroids elements centroid)

/-- The component-wise sum. -/
def sum (elements : List (Vec dimension)) : Fin dimension → ℚ :=
  fun i => (elements.map (·.values i)).sum

def mean (elements : List (Vec dimension)) : Fin dimension → ℚ :=
  fun i => sum elements i / elements.length

/-- There is one new key for each cluster. It is the mean and is mapped to the cluster. -/
structure Averaged (clusters : List (List (Vec dimension))) (result : Clusters dimension)
    (keys : List (Vec dimension)) : Prop where
  means : keys.map (·.values) = clusters.map mean
  distinct : (keys.map (·.name)).Nodup
  entries : result.Perm (keys.zip clusters)

/-! ## The nearest centroid -/

variable {centroids : List (Vec dimension)} {element : Vec dimension}

/-- What comes before the nearest of the other centroids is farther away if the first one is. -/
theorem farther_cons {first c : Vec dimension} {j : ℕ}
    (farther : distance element c < distance element first)
    (before : ∀ i c', i < j → centroids[i]? = some c' → distance element c < distance element c') :
    ∀ i c', i < j + 1 → (first :: centroids)[i]? = some c' →
      distance element c < distance element c' := by
  intro i c' early at'
  cases i with
  | zero =>
      obtain rfl := Option.some.inj at'
      exact farther
  | succ i => exact before i c' (Nat.lt_of_succ_lt_succ early) at'

/-- The loop keeps what it has, or takes the first nearest of the centroids. -/
theorem foldl_nearer (centroids : List (Vec dimension)) (element : Vec dimension) (k : ℕ)
    (best : ℕ × ℚ) :
    ((centroids.zipIdx k).foldl (nearer element) best = best ∧
      ∀ c ∈ centroids, best.2 ≤ distance element c) ∨
    ∃ j c, centroids[j]? = some c ∧
      (centroids.zipIdx k).foldl (nearer element) best = (k + j, distance element c) ∧
      distance element c < best.2 ∧ (∀ c' ∈ centroids, distance element c ≤ distance element c') ∧
      ∀ i c', i < j → centroids[i]? = some c' → distance element c < distance element c' := by
  induction centroids generalizing k best with
  | nil => exact .inl ⟨rfl, by simp⟩
  | cons first centroids ih =>
      rw [List.zipIdx_cons, List.foldl_cons]
      by_cases closer : distance element first < best.2
      · have taken : nearer element best (first, k) = (k, distance element first) := if_pos closer
        rw [taken]
        rcases ih (k + 1) (k, distance element first) with
          ⟨kept, far⟩ | ⟨j, c, found, chosen, less, least, before⟩
        · refine .inr ⟨0, first, rfl, kept, closer, ?_, fun i c' early => absurd early (by omega)⟩
          exact List.forall_mem_cons.mpr ⟨le_refl _, far⟩
        · refine .inr ⟨j + 1, c, found, ?_, less.trans closer, ?_, farther_cons less before⟩
          · rw [chosen, Nat.add_right_comm, Nat.add_assoc]
          · exact List.forall_mem_cons.mpr ⟨less.le, least⟩
      · have kept : nearer element best (first, k) = best := if_neg closer
        rw [kept]
        rcases ih (k + 1) best with ⟨kept, far⟩ | ⟨j, c, found, chosen, less, least, before⟩
        · exact .inl ⟨kept, List.forall_mem_cons.mpr ⟨not_lt.mp closer, far⟩⟩
        · have lessFirst := less.trans_le (not_lt.mp closer)
          refine .inr ⟨j + 1, c, found, ?_, less, ?_, farther_cons lessFirst before⟩
          · rw [chosen, Nat.add_right_comm, Nat.add_assoc]
          · exact List.forall_mem_cons.mpr ⟨lessFirst.le, least⟩

theorem firstNearest_nearestIndex (centroids : List (Vec dimension)) (element : Vec dimension) :
    FirstNearest centroids element (nearestIndex centroids element) := by
  unfold nearestIndex
  rcases foldl_nearer centroids element 0 (0, maxValue) with
    ⟨kept, far⟩ | ⟨j, c, found, chosen, less, least, before⟩
  · rw [kept]
    exact ⟨fun ⟨c, mem, close⟩ => absurd (far c mem) (not_le.mpr close), fun _ => rfl⟩
  · rw [chosen, Nat.zero_add]
    refine ⟨fun _ => ⟨c, found, least, before⟩, fun far => ?_⟩
    exact absurd (far c (List.mem_of_getElem? found)) (not_le.mpr less)

/-- The index is that of a centroid. -/
theorem exists_nearest (some' : centroids ≠ []) (element : Vec dimension) :
    ∃ centroid, centroids[nearestIndex centroids element]? = some centroid := by
  unfold nearestIndex
  rcases foldl_nearer centroids element 0 (0, maxValue) with ⟨kept, -⟩ | ⟨j, c, found, chosen, -⟩
  · obtain ⟨first, others, rfl⟩ := List.exists_cons_of_ne_nil some'
    rw [kept]
    exact ⟨first, rfl⟩
  · rw [chosen, Nat.zero_add]
    exact ⟨c, found⟩

/-! ## Collecting and merging clusters -/

theorem members_append (centroids first second : List (Vec dimension)) (centroid : Vec dimension) :
    members centroids (first ++ second) centroid =
      members centroids first centroid ++ members centroids second centroid :=
  List.filter_append first second

theorem assigned_nil (centroids : List (Vec dimension)) : Assigned centroids [] [] :=
  ⟨Keyed.nil, fun _ => rfl⟩

/-- An element goes to the end of the list of its centroid. -/
theorem Assigned.addElement {elements : List (Vec dimension)} {result : Clusters dimension}
    (assigned : Assigned centroids elements result) {centroid : Vec dimension}
    (nearest : centroids[nearestIndex centroids element]? = some centroid) :
    Assigned centroids (elements ++ [element]) (addElement result centroid element) := by
  refine ⟨assigned.keyed.update _, fun other => ?_⟩
  rw [JavaKMeans.addElement, mapGet_update, assigned.lists, assigned.lists, members_append]
  by_cases same : other = centroid
  · subst same
    have added : members centroids [element] other = [element] := by
      simp [members, nearest]
    have nonempty : members centroids elements other ++ [element] ≠ [] := by simp
    rw [if_pos rfl, added, if_neg nonempty]
    split
    · next empty => rw [empty]; rfl
    · rfl
  · have other' : members centroids [element] other = [] := by
      simp [members, nearest, Ne.symm same]
    rw [if_neg same, other', List.append_nil]

theorem computeDirectly_assigned (some' : centroids ≠ []) (elements : List (Vec dimension)) :
    ∃ result, computeDirectly centroids elements = some result ∧
      Assigned centroids elements result := by
  unfold computeDirectly collectClusters findNearestCentroid
  induction elements using List.reverseRecOn with
  | nil => exact ⟨[], rfl, assigned_nil centroids⟩
  | append_singleton elements element ih =>
      obtain ⟨result, collected, assigned⟩ := ih
      obtain ⟨centroid, nearest⟩ := exists_nearest some' element
      refine ⟨addElement result centroid element, ?_, assigned.addElement nearest⟩
      rw [List.map_append, List.zip_append (by simp), List.foldlM_append, collected]
      simp [nearest]

section Merge

variable {κ α : Type} [DecidableEq κ] {left right : List (κ × List α)}

/-- The lists of one key in two maps. -/
def joinLists (left right : Option (List α)) : Option (List α) :=
  match left, right with
  | some l, some r => some (l ++ r)
  | some l, none => some l
  | none, r => r

theorem keyed_merge (order : IterationOrder (κ × List α)) (keyed : Keyed left)
    (right : List (κ × List α)) : Keyed (merge order left right) := by
  unfold merge
  generalize order.arrange right = entries
  induction entries generalizing left with
  | nil => exact keyed
  | cons entry entries ih => exact ih (keyed.update _)

theorem mapGet_merge (order : IterationOrder (κ × List α)) (keyed : Keyed right) (key : κ) :
    mapGet (merge order left right) key = joinLists (mapGet left key) (mapGet right key) := by
  rw [← keyed.mapGet_perm (order.perm right).symm key]
  replace keyed := keyed.perm (order.perm right).symm
  unfold merge
  generalize order.arrange right = entries at keyed ⊢
  induction entries generalizing left with
  | nil =>
      show mapGet left key = joinLists (mapGet left key) none
      cases mapGet left key <;> rfl
  | cons entry entries ih =>
      obtain ⟨new, keyed⟩ := List.nodup_cons.mp keyed
      rw [List.foldl_cons, ih keyed, JavaCollections.mapGet_merge, mapGet_cons]
      by_cases same : key = entry.1
      · subst same
        rw [if_pos rfl, if_pos rfl, mapGet_eq_none_iff.mpr new]
        cases mapGet left entry.1 <;> rfl
      · rw [if_neg same, if_neg same]

/-- Maps without common keys are put together. -/
theorem merge_perm (order : IterationOrder (κ × List α))
    (apart : ∀ key ∈ right.map Prod.fst, key ∉ left.map Prod.fst) (keyed : Keyed right) :
    (merge order left right).Perm (left ++ right) := by
  have arranged := order.perm right
  have keyed' := keyed.perm arranged.symm
  have apart' : ∀ key ∈ (order.arrange right).map Prod.fst, key ∉ left.map Prod.fst :=
    fun key mem => apart key ((arranged.map Prod.fst).mem_iff.mp mem)
  refine List.Perm.trans (List.Perm.of_eq ?_) (arranged.append_left left)
  unfold merge
  generalize order.arrange right = entries at keyed' apart'
  clear apart
  induction entries generalizing left with
  | nil => exact (List.append_nil left).symm
  | cons entry entries ih =>
      obtain ⟨new, keyed'⟩ := List.nodup_cons.mp keyed'
      obtain ⟨newHere, newLater⟩ := List.forall_mem_cons.mp apart'
      have later : ∀ key ∈ entries.map Prod.fst, key ∉ (left ++ [entry]).map Prod.fst := by
        intro key mem known
        rw [List.map_append, List.mem_append] at known
        rcases known with old | now
        · exact newLater key mem old
        · exact new (List.mem_singleton.mp now ▸ mem)
      rw [List.foldl_cons, merge_of_not_mem _ _ newHere, ih keyed' later, List.append_assoc]
      rfl

end Merge

/-! ## Every execution of a task -/

theorem Assigned.merge (order : IterationOrder (Vec dimension × List (Vec dimension)))
    {first second : List (Vec dimension)} {left right : Clusters dimension}
    (assigned : Assigned centroids first left) (assigned' : Assigned centroids second right) :
    Assigned centroids (first ++ second) (JavaKMeans.merge order left right) := by
  refine ⟨keyed_merge order assigned.keyed right, fun centroid => ?_⟩
  rw [mapGet_merge order assigned'.keyed, assigned.lists, assigned'.lists, members_append]
  by_cases none : members centroids first centroid = [] <;>
    by_cases none' : members centroids second centroid = [] <;> simp [none, none', joinLists]

section Invoke

variable {forkThreshold : ℤ} (order : IterationOrder (Vec dimension × List (Vec dimension)))

/-- Every execution of an `AssignmentTask` for a range assigns the elements of the range. -/
theorem assignmentTask_right (some' : centroids ≠ []) {data : List (Vec dimension)} {range : Range}
    {next next' : ℕ} {result : Clusters dimension}
    (invokes : Invokes (assignmentTask centroids order forkThreshold data) range next result next') :
    Assigned centroids (range.slice data) result := by
  refine result_of_reachable (fun range result => Assigned centroids (range.slice data) result)
    ?_ ?_ invokes
  · intro _ range next result next' _ computed
    obtain ⟨collected, direct, same⟩ := Option.map_eq_some_iff.mp computed
    obtain ⟨rfl, rfl⟩ := Prod.mk.inj same
    obtain ⟨result, direct', assigned⟩ := computeDirectly_assigned some' (range.slice data)
    obtain rfl := Option.some.inj (direct.symm.trans direct')
    exact ⟨le_refl _, assigned⟩
  · intro range first second left right forks assigned assigned'
    obtain ⟨-, rfl, rfl⟩ := Range.forks_eq_some forks
    rw [← range.slice_halves data]
    exact assigned.merge order assigned'

theorem vectorSum_eq (elements : List (Vec dimension)) : vectorSum elements = sum elements := by
  unfold vectorSum
  induction elements using List.reverseRecOn with
  | nil => rfl
  | append_singleton elements element ih =>
      rw [List.foldl_append, List.foldl_cons, List.foldl_nil, ih]
      funext i
      simp [accumulate, sum]

/-- Every execution of a `VectorSumTask` for a range adds the elements of the range. -/
theorem vectorSumTask_right {data : List (Vec dimension)} {range : Range} {next next' : ℕ}
    {result : Fin dimension → ℚ}
    (invokes : Invokes (vectorSumTask forkThreshold data) range next result next') :
    result = sum (range.slice data) := by
  refine result_of_reachable (fun range result => result = sum (range.slice data)) ?_ ?_ invokes
  · intro _ range next result next' _ computed
    obtain ⟨rfl, rfl⟩ := Prod.mk.inj (Option.some.inj computed)
    exact ⟨le_refl _, vectorSum_eq _⟩
  · rintro range first second _ _ forks rfl rfl
    obtain ⟨-, rfl, rfl⟩ := Range.forks_eq_some forks
    rw [← range.slice_halves data]
    funext i
    simp [vectorSumTask, add, sum]

theorem vectorSumTask_shrinks (two : 2 ≤ forkThreshold) (data : List (Vec dimension)) :
    Shrinks (vectorSumTask forkThreshold data) (fun range => range.toExclusive ≤ data.length)
      Range.cost :=
  Range.shrinks two rfl

theorem average_eq {schedule : List (TaskStep Unit)} {elements : List (Vec dimension)}
    {clusterAverage : Fin dimension → ℚ}
    (averaged : average forkThreshold schedule elements = some clusterAverage) :
    clusterAverage = mean elements := by
  unfold average at averaged
  split at averaged
  · next vectorSums next' leads =>
    have invokes : Invokes (vectorSumTask forkThreshold elements) (Range.whole elements) 0 vectorSums
        next' := ⟨schedule, leads⟩
    have sums := vectorSumTask_right invokes
    rw [Range.slice_whole] at sums
    obtain ⟨-, same⟩ := Option.ite_none_left_eq_some.mp averaged
    rw [← Option.some.inj same, sums]
    rfl
  · cases averaged

theorem exists_average (two : 2 ≤ forkThreshold) {elements : List (Vec dimension)}
    (some' : elements ≠ []) :
    ∃ schedule clusterAverage, average forkThreshold schedule elements = some clusterAverage := by
  have inside : (Range.whole elements).toExclusive ≤ elements.length := le_refl _
  obtain ⟨vectorSums, next', schedule, leads⟩ := exists_invokes (vectorSumTask_shrinks two elements)
    (fun part next _ _ => ⟨(), _, rfl⟩) inside 0
  refine ⟨schedule, fun i => vectorSums i / elements.length, ?_⟩
  rw [average, leads]
  exact if_neg (mt List.length_eq_zero_iff.mp some')

theorem exists_computeClusterAverages (two : 2 ≤ forkThreshold)
    {clusters : List (List (Vec dimension))} (some' : ∀ cluster ∈ clusters, cluster ≠ [])
    (state : Clusters dimension × ℕ) :
    ∃ schedules found, computeClusterAverages forkThreshold schedules clusters state = some found := by
  induction clusters generalizing state with
  | nil => exact ⟨[], state, rfl⟩
  | cons elements clusters ih =>
      obtain ⟨someFirst, someOthers⟩ := List.forall_mem_cons.mp some'
      obtain ⟨schedule, clusterAverage, averaged⟩ := exists_average two someFirst
      obtain ⟨schedules, found, computed⟩ :=
        ih someOthers (update state.1 (⟨state.2, clusterAverage⟩, elements), state.2 + 1)
      exact ⟨schedule :: schedules, found, by rw [computeClusterAverages, averaged]; exact computed⟩

/-- Each cluster gets one new key. -/
theorem computeClusterAverages_spec {schedules : List (List (TaskStep Unit))}
    {clusters : List (List (Vec dimension))} {result result' : Clusters dimension} {next next' : ℕ}
    (computed : computeClusterAverages forkThreshold schedules clusters (result, next) =
      some (result', next'))
    (old : ∀ entry ∈ result, entry.1.name < next) :
    ∃ keys : List (Vec dimension), keys.map (·.values) = clusters.map mean ∧
      keys.map (·.name) = List.range' next clusters.length ∧ result' = result ++ keys.zip clusters ∧
      next' = next + clusters.length := by
  induction clusters generalizing schedules result next with
  | nil =>
      cases schedules with
      | nil =>
          obtain ⟨rfl, rfl⟩ := Prod.mk.inj (Option.some.inj computed)
          exact ⟨[], rfl, rfl, (List.append_nil _).symm, rfl⟩
      | cons schedule schedules => cases computed
  | cons elements clusters ih =>
      cases schedules with
      | nil => cases computed
      | cons schedule schedules =>
          obtain ⟨clusterAverage, averaged, rest⟩ := Option.bind_eq_some_iff.mp computed
          have new : (⟨next, clusterAverage⟩ : Vec dimension) ∉ result.map Prod.fst := by
            intro known
            obtain ⟨entry, mem, same⟩ := List.mem_map.mp known
            have less := old entry mem
            rw [same] at less
            exact lt_irrefl _ less
          -- the key is new, so the entry comes at the end
          have put : update result (⟨next, clusterAverage⟩, elements) =
              result ++ [(⟨next, clusterAverage⟩, elements)] := if_neg new
          rw [put] at rest
          have old' : ∀ entry ∈ result ++ [(⟨next, clusterAverage⟩, elements)],
              entry.1.name < next + 1 := by
            intro entry mem
            rcases List.mem_append.mp mem with before | now
            · exact (old entry before).trans (Nat.lt_succ_self next)
            · rw [List.mem_singleton.mp now]
              exact Nat.lt_succ_self next
          obtain ⟨keys, means, names, same, last⟩ := ih rest old'
          refine ⟨⟨next, clusterAverage⟩ :: keys, ?_, ?_, ?_, ?_⟩
          · rw [List.map_cons, List.map_cons, means, average_eq averaged]
          · rw [List.map_cons, names, List.length_cons, List.range'_succ]
          · rw [same, List.append_assoc]
            rfl
          · rw [last, List.length_cons]
            omega

theorem Averaged.length {clusters : List (List (Vec dimension))} {result : Clusters dimension}
    {keys : List (Vec dimension)} (averaged : Averaged clusters result keys) :
    keys.length = clusters.length := by
  simpa using congrArg List.length averaged.means

/-- The keys of the map. -/
theorem Averaged.keys {clusters : List (List (Vec dimension))} {result : Clusters dimension}
    {keys : List (Vec dimension)} (averaged : Averaged clusters result keys) :
    (result.map Prod.fst).Perm keys := by
  have firsts := averaged.entries.map Prod.fst
  rwa [List.map_fst_zip averaged.length.le] at firsts

theorem Averaged.keyed {clusters : List (List (Vec dimension))} {result : Clusters dimension}
    {keys : List (Vec dimension)} (averaged : Averaged clusters result keys) : Keyed result :=
  averaged.keys.nodup_iff.mpr averaged.distinct.of_map

/-- Averages with different names are put together. -/
theorem Averaged.merge {first second : List (List (Vec dimension))} {left right : Clusters dimension}
    {keys keys' : List (Vec dimension)} (averaged : Averaged first left keys)
    (averaged' : Averaged second right keys')
    (apart : ∀ name ∈ keys.map (·.name), name ∉ keys'.map (·.name)) :
    Averaged (first ++ second) (JavaKMeans.merge order left right) (keys ++ keys') where
  means := by rw [List.map_append, List.map_append, averaged.means, averaged'.means]
  distinct := by
    rw [List.map_append, List.nodup_append]
    exact ⟨averaged.distinct, averaged'.distinct, fun name mem name' mem' same =>
      apart name mem (same ▸ mem')⟩
  entries := by
    have apart' : ∀ key ∈ right.map Prod.fst, key ∉ left.map Prod.fst := by
      intro key mem known
      refine apart key.name (List.mem_map_of_mem (averaged.keys.mem_iff.mp known)) ?_
      exact List.mem_map_of_mem (averaged'.keys.mem_iff.mp mem)
    rw [List.zip_append averaged.length]
    exact (merge_perm order apart' averaged'.keyed).trans
      (averaged.entries.append averaged'.entries)

/-- Every execution of an `UpdateTask` for a range makes a new key for each cluster of the range. -/
theorem updateTask_right {clusters : List (List (Vec dimension))} {range : Range} {next next' : ℕ}
    {result : Clusters dimension}
    (invokes : Invokes (updateTask forkThreshold order clusters) range next result next') :
    ∃ keys, Averaged (range.slice clusters) result keys ∧ ∀ key ∈ keys, next ≤ key.name := by
  have direct : DirectRight (updateTask forkThreshold order clusters) fun range result names =>
      ∃ keys, Averaged (range.slice clusters) result keys ∧
        names = (keys.map (·.name)).toFinset := by
    intro schedules range next result next' _ computed
    obtain ⟨keys, means, names, same, last⟩ := computeClusterAverages_spec computed (by simp)
    refine ⟨by omega, (keys.map (·.name)).toFinset, fun name mem => ?_, keys, ⟨means, ?_, ?_⟩, rfl⟩
    · rw [List.mem_toFinset, names, List.mem_range'_1] at mem
      rw [Finset.mem_Ico]
      omega
    · rw [names]
      exact List.nodup_range'
    · rw [same, List.nil_append]
  have combine : CombineRight (updateTask forkThreshold order clusters) fun range result names =>
      ∃ keys, Averaged (range.slice clusters) result keys ∧
        names = (keys.map (·.name)).toFinset := by
    rintro range first second left right - - forks ⟨keys, averaged, rfl⟩ ⟨keys', averaged', rfl⟩ apart
    obtain ⟨-, rfl, rfl⟩ := Range.forks_eq_some forks
    have apart' : ∀ name ∈ keys.map (·.name), name ∉ keys'.map (·.name) := fun name mem mem' =>
      Finset.disjoint_left.mp apart (List.mem_toFinset.mpr mem) (List.mem_toFinset.mpr mem')
    refine ⟨keys ++ keys', ?_, by rw [List.map_append, List.toFinset_append]⟩
    rw [← range.slice_halves clusters]
    exact averaged.merge order averaged' apart'
  obtain ⟨-, names, new, keys, averaged, rfl⟩ := right_of_reachable _ direct combine invokes
  refine ⟨keys, averaged, fun key mem => ?_⟩
  have name := new (List.mem_toFinset.mpr (List.mem_map_of_mem mem))
  exact (Finset.mem_Ico.mp name).1

end Invoke

section Finish

variable {forkThreshold : ℤ} (two : 2 ≤ forkThreshold)
  (order : IterationOrder (Vec dimension × List (Vec dimension)))

include two

theorem assignmentTask_finishes (some' : centroids ≠ []) (data : List (Vec dimension)) (next : ℕ) :
    Transition.Inevitable (step (assignmentTask centroids order forkThreshold data))
      (fun state => ∃ result, state.1 = .done result) (.compute (Range.whole data), next) := by
  have shrinks : Shrinks (assignmentTask centroids order forkThreshold data)
      (fun range => range.toExclusive ≤ data.length) Range.cost := Range.shrinks two rfl
  refine invoke_finishes shrinks (fun range next _ _ => ?_) (le_refl data.length) next
  obtain ⟨result, direct, -⟩ := computeDirectly_assigned some' (range.slice data)
  exact ⟨(), (result, next), congrArg (Option.map (·, next)) direct⟩

theorem vectorSumTask_finishes (data : List (Vec dimension)) (next : ℕ) :
    Transition.Inevitable (step (vectorSumTask forkThreshold data))
      (fun state => ∃ result, state.1 = .done result) (.compute (Range.whole data), next) :=
  invoke_finishes (vectorSumTask_shrinks two data) (fun _ _ _ _ => ⟨(), _, rfl⟩) (le_refl data.length)
    next

theorem updateTask_finishes {clusters : List (List (Vec dimension))}
    (some' : ∀ cluster ∈ clusters, cluster ≠ []) (next : ℕ) :
    Transition.Inevitable (step (updateTask forkThreshold order clusters))
      (fun state => ∃ result, state.1 = .done result) (.compute (Range.whole clusters), next) := by
  have shrinks : Shrinks (updateTask forkThreshold order clusters)
      (fun range => range.toExclusive ≤ clusters.length) Range.cost := Range.shrinks (le_refl 2) rfl
  refine invoke_finishes shrinks (fun range next _ _ => ?_) (le_refl clusters.length) next
  refine exists_computeClusterAverages two (fun cluster mem => some' cluster ?_) ([], next)
  exact List.mem_of_mem_drop (List.mem_of_mem_take mem)

end Finish

theorem Assigned.list_eq {elements : List (Vec dimension)} {result : Clusters dimension}
    (assigned : Assigned centroids elements result) {entry : Vec dimension × List (Vec dimension)}
    (mem : entry ∈ result) : entry.2 ≠ [] ∧ entry.2 = members centroids elements entry.1 := by
  have found := assigned.lists entry.1
  rw [assigned.keyed.mapGet_iff.mpr mem] at found
  split at found
  · cases found
  · next some' =>
    rw [Option.some.inj found]
    exact ⟨some', rfl⟩

/-- Every element is in one list. -/
theorem Assigned.perm (some' : centroids ≠ []) {elements : List (Vec dimension)}
    {result : Clusters dimension} (assigned : Assigned centroids elements result) :
    (result.flatMap Prod.snd).Perm elements := by
  choose nearest found using exists_nearest some'
  have same : ∀ element centroid,
      centroids[nearestIndex centroids element]? = some centroid ↔ nearest element = centroid := by
    intro element centroid
    rw [found, Option.some_inj]
  have lists : ∀ centroid, members centroids elements centroid =
      elements.filter (nearest · = centroid) := fun centroid =>
    List.filter_congr fun element _ => decide_eq_decide.mpr (same element centroid)
  refine assigned.keyed.flatMap_perm nearest (fun entry mem => ?_) fun element mem => ?_
  · rw [← lists]
    exact (assigned.list_eq mem).2
  · by_contra absent
    have none := mapGet_eq_none_iff.mpr absent
    rw [assigned.lists, ite_eq_left_iff] at none
    have member : element ∈ members centroids elements (nearest element) :=
      List.mem_filter.mpr ⟨mem, by rw [decide_eq_true_iff, found]⟩
    exact absurd (none (List.ne_nil_of_mem member)) (Option.some_ne_none _)

/-- Every execution of a task comes to a result, and to the one of the sequential computation. -/
structure TasksAgree (forkThreshold : ℤ) (order : IterationOrder (Vec dimension × List (Vec dimension)))
    (data centroids : List (Vec dimension)) (next : ℕ) : Prop where
  assignment_finishes : Transition.Inevitable (step (assignmentTask centroids order forkThreshold data))
    (fun state => ∃ result, state.1 = .done result) (.compute (Range.whole data), next)
  -- the map is the one that is collected for all data at once
  assignment : ∀ result next', Invokes (assignmentTask centroids order forkThreshold data)
      (Range.whole data) next result next' →
    ∃ sequential, computeDirectly centroids data = some sequential ∧ Keyed sequential ∧
      ∀ centroid, mapGet result centroid = mapGet sequential centroid
  -- it has each element in the list of the centroid with the index of the loop
  assigned : ∀ result next', Invokes (assignmentTask centroids order forkThreshold data)
      (Range.whole data) next result next' →
    Assigned centroids data result ∧ (result.flatMap Prod.snd).Perm data
  nearest : ∀ element, FirstNearest centroids element (nearestIndex centroids element)
  sum_finishes : Transition.Inevitable (step (vectorSumTask forkThreshold data))
    (fun state => ∃ result, state.1 = .done result) (.compute (Range.whole data), next)
  sum : ∀ result next', Invokes (vectorSumTask forkThreshold data) (Range.whole data) next result
      next' → result = JavaKMeans.sum data
  update_finishes : ∀ clusters : List (List (Vec dimension)), (∀ cluster ∈ clusters, cluster ≠ []) →
    Transition.Inevitable (step (updateTask forkThreshold order clusters))
      (fun state => ∃ result, state.1 = .done result) (.compute (Range.whole clusters), next)
  -- one new key for each cluster
  update : ∀ (clusters : List (List (Vec dimension))) result next',
    Invokes (updateTask forkThreshold order clusters) (Range.whole clusters) next result next' →
      ∃ keys, Averaged clusters result keys ∧ ∀ key ∈ keys, next ≤ key.name

theorem invoke_results {forkThreshold : ℤ} (two : 2 ≤ forkThreshold)
    (order : IterationOrder (Vec dimension × List (Vec dimension))) (data : List (Vec dimension))
    (some' : centroids ≠ []) (next : ℕ) : TasksAgree forkThreshold order data centroids next where
  assignment_finishes := assignmentTask_finishes two order some' data next
  assignment result next' invokes := by
    have assigned := assignmentTask_right order some' invokes
    rw [Range.slice_whole] at assigned
    obtain ⟨sequential, direct, assigned'⟩ := computeDirectly_assigned some' data
    refine ⟨sequential, direct, assigned'.keyed, fun centroid => ?_⟩
    rw [assigned.lists, assigned'.lists]
  assigned result next' invokes := by
    have assigned := assignmentTask_right order some' invokes
    rw [Range.slice_whole] at assigned
    exact ⟨assigned, assigned.perm some'⟩
  nearest := firstNearest_nearestIndex centroids
  sum_finishes := vectorSumTask_finishes two data next
  sum result next' invokes := by
    have sums := vectorSumTask_right invokes
    rwa [Range.slice_whole] at sums
  update_finishes clusters someEach := updateTask_finishes two order someEach next
  update clusters result next' invokes := by
    have averaged := updateTask_right order invokes
    rwa [Range.slice_whole] at averaged

def origin : Vec 1 := ⟨0, fun _ => 0⟩

def near : Vec 1 := ⟨1, fun _ => 2 ^ 513⟩

def far : Vec 1 := ⟨2, fun _ => 2 ^ 600⟩

/-- One centroid object twice. -/
theorem invoke_results_twice : TasksAgree 2 (.insertion _) [origin, near, origin] [far, near, near] 3 :=
  invoke_results (le_refl 2) (.insertion _) [origin, near, origin] (List.cons_ne_nil _ _) 3

theorem maxValue_le : maxValue ≤ 2 ^ 1024 := by
  have less : (2 ^ 53 - 1 : ℚ) ≤ 2 ^ 53 := by norm_num
  calc maxValue ≤ 2 ^ 53 * 2 ^ 971 := mul_le_mul_of_nonneg_right less (by positivity)
    _ = 2 ^ 1024 := (pow_add 2 53 971).symm

theorem distance_near : distance origin near = 2 ^ 1026 := by
  have square : (2 : ℚ) ^ 1026 = 2 ^ 513 * 2 ^ 513 := pow_add 2 513 513
  simp [distance, origin, near, square]

theorem distance_far : distance origin far = 2 ^ 1200 := by
  have square : (2 : ℚ) ^ 1200 = 2 ^ 600 * 2 ^ 600 := pow_add 2 600 600
  simp [distance, origin, far, square]

/-- Where no distance is below `Double.MAX_VALUE`, an element goes to the first centroid, even if the
second one is nearer. -/
theorem far_centroid_taken :
    (∃ result next', Invokes (assignmentTask [far, near] (.insertion _) 2 [origin])
      (Range.whole [origin]) 3 result next' ∧ mapGet result far = some [origin]) ∧
    distance origin near < distance origin far := by
  have tooFar : ∀ c ∈ [far, near], maxValue ≤ distance origin c := by
    intro c mem
    refine maxValue_le.trans ?_
    rcases List.mem_cons.mp mem with rfl | mem
    · rw [distance_far]
      exact pow_le_pow_right₀ one_le_two (by decide)
    · obtain rfl := List.mem_singleton.mp mem
      rw [distance_near]
      exact pow_le_pow_right₀ one_le_two (by decide)
  have index := (firstNearest_nearestIndex [far, near] origin).tooFar tooFar
  have all : members [far, near] [origin] far = [origin] := by
    simp [members, index]
  obtain ⟨result, direct, assigned⟩ := computeDirectly_assigned (List.cons_ne_nil far [near]) [origin]
  refine ⟨⟨result, 3, ⟨[.compute ()], ?_⟩, ?_⟩, ?_⟩
  · have small : (assignmentTask [far, near] (.insertion _) 2 [origin]).forks
        (Range.whole [origin]) = none := by
      decide
    have computed : (assignmentTask [far, near] (.insertion _) 2 [origin]).direct ()
        (Range.whole [origin]) 3 = some (result, 3) :=
      congrArg (Option.map (·, 3)) direct
    rw [Transition.run, step, if_pos small, computed]
    rfl
  · rw [assigned.lists, all]
    rfl
  · rw [distance_near, distance_far]
    exact pow_lt_pow_right₀ one_lt_two (by decide)

end Renaissance.JavaKMeans
