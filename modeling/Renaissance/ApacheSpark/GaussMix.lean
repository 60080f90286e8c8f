import Mathlib.Data.List.Sort
import Mathlib.Data.Nat.ModEq
import Mathlib.Tactic.IntervalCases
import Renaissance.Lib.Fallible
import Renaissance.Lib.JavaDouble
import Renaissance.Lib.JavaInt

/-!
# Input of the Gaussian mixture benchmark

`GaussMix`: points that are generated around centroids, and split into training, validation and testing
sets. A distributed collection is the list of its elements.

`setUpBeforeAll_right_iff` says for which parameters the points of a set come with the centroids that they
were generated from. The testing set gets the centroids of the validation set.
-/

namespace Renaissance.GaussMix

open JavaDouble JavaInt

inductive Failure
  | assertionError (message : String)
  | matchError
  | arithmeticException
  deriving DecidableEq, Repr

/-- What the input is made of. `toPositiveInteger` takes any 32 bits. -/
structure Parameters where
  pointCount : Int32
  dimensionCount : Int32
  clusterCount : Int32
  clusterDistance : Int32

abbrev Point := List ℚ

/-- An array of coordinates. The arrays of different clusters are different ones, whatever they hold. -/
structure Centroid where
  clusterIndex : ℕ
  coordinates : List ℚ
  deriving DecidableEq, Repr

/-! ## Generating points -/

section Generate

variable (p : Parameters)

def coordinate (clusterIndex dimensionIndex : ℕ) : ℚ :=
  double (((shiftRight clusterIndex dimensionIndex).tmod 2 : ℤ) *
    double (p.clusterDistance.toInt + double (clusterIndex * double (8 / 10))))

def makeCentroid (clusterIndex : ℕ) : Centroid where
  clusterIndex := clusterIndex
  coordinates := (List.range p.dimensionCount.toInt.toNat).map (coordinate p clusterIndex)

/-- Cluster centers with increasing offset from the vertices of a hypercube. -/
def makeCentroids : List Centroid :=
  (List.range p.clusterCount.toInt.toNat).map (makeCentroid p)

def scaleFraction : ℚ :=
  let sigmaCount := 3
  let scaleMax := double (double (p.clusterDistance.toInt / 2) / sigmaCount)
  double (scaleMax / (makeCentroids p).length)

/-- A point around a centroid. `gaussian` are the numbers that the generator draws one after the other. -/
def makePoint (gaussian : ℕ → ℚ) (pointIndex centroidIndex : ℕ) (centroid : Centroid) : Point :=
  centroid.coordinates.zipIdx.map fun (coordinate, dimension) =>
    let scale := double ((centroidIndex + 1) * scaleFraction p)
    double (coordinate +
      double (gaussian (pointIndex * centroid.coordinates.length + dimension) * scale))

/-- There must be enough vertices. -/
def EnoughDimensions : Prop :=
  p.clusterCount.toInt ≤ shiftLeft 1 p.dimensionCount.toInt

instance : Decidable (EnoughDimensions p) :=
  inferInstanceAs (Decidable (_ ≤ _))

def prepareInput (gaussian : ℕ → ℚ) : Except Failure (List (Point × Centroid)) :=
  if EnoughDimensions p then
    let centroids := makeCentroids p
    (List.range p.pointCount.toInt.toNat).mapM fun pointIndex =>
      let centroidIndex := pointIndex % centroids.length
      match centroids[centroidIndex]? with
      | some centroid => .ok (makePoint p gaussian pointIndex centroidIndex centroid, centroid)
      | none => .error .arithmeticException
  else
    .error (.assertionError ("The cluster count should be less than or equal to 2 raised to the power " ++
      "of the dimension count."))

end Generate

/-! ## Splitting -/

section Split

variable {α : Type}

/-- `sliding(2)`. A single element is a window of its own. -/
def sliding : List α → List (List α)
  | [] => []
  | [x] => [[x]]
  | xs => (xs.zip xs.tail).map fun (x, y) => [x, y]

/-- `xs.slice(start, stop)`. -/
def slice (xs : List α) (start stop : ℤ) : List α :=
  (xs.drop start.toNat).take (stop.toNat - start.toNat)

def splitIndices (length : ℕ) (splitPoints : List ℚ) : List ℤ :=
  ((0 :: splitPoints.map fun p => toInt (double (p * length))) ++ [(length : ℤ)]).eraseDups.insertionSort
    (· ≤ ·)

def splitAt (xs : List α) (splitPoints : List ℚ) : Except Failure (List (List α)) :=
  if splitPoints.any fun p => p ≤ 0 || 1 ≤ p then
    .error (.assertionError "Split points must be between 0 and 1 (exclusive).")
  else
    (sliding (splitIndices xs.length splitPoints)).mapM fun
      | [start, stop] => .ok (slice xs start stop)
      | _ => .error .matchError

end Split

/-! ## The sets -/

/-- The collections of points and of expected centroids. -/
structure Sets where
  trainingPoints : List Point
  validationPoints : List Point
  validationCentroids : List Centroid
  testingPoints : List Point
  testingCentroids : List Centroid

def parallelizePoints (pointsWithCentroids : List (Point × Centroid)) : List Point :=
  pointsWithCentroids.map fun (point, _) => point

def parallelizeCentroids (pointsWithCentroids : List (Point × Centroid)) : List Centroid :=
  pointsWithCentroids.map fun (_, centroid) => centroid

def setUpBeforeAll (gaussian : ℕ → ℚ) (p : Parameters) : Except Failure Sets := do
  let inputPointsWithCentroids ← prepareInput p gaussian
  match ← splitAt inputPointsWithCentroids [double (8 / 10), double (9 / 10)] with
  | [training, validation, testing] =>
      pure {
        trainingPoints := parallelizePoints training
        validationPoints := parallelizePoints validation
        validationCentroids := parallelizeCentroids validation
        testingPoints := parallelizePoints testing
        testingCentroids := parallelizeCentroids validation }
  | _ => throw .matchError

/-- The points are those of the input from some place on, and come with as many centroids, which are the
same as the ones that they were generated from. -/
structure Paired (same : Centroid → Centroid → Prop) (input : List (Point × Centroid)) (start : ℕ)
    (points : List Point) (centroids : List Centroid) : Prop where
  length : points.length = centroids.length
  generated : ∀ i < points.length, ∃ point expected centroid, input[start + i]? = some (point, expected) ∧
    points[i]? = some point ∧ centroids[i]? = some centroid ∧ same centroid expected

/-- The sets are one after the other all of the input. -/
structure Right (same : Centroid → Centroid → Prop) (input : List (Point × Centroid)) (sets : Sets) :
    Prop where
  slices : input.map Prod.fst = sets.trainingPoints ++ sets.validationPoints ++ sets.testingPoints
  validation : Paired same input sets.trainingPoints.length sets.validationPoints
    sets.validationCentroids
  testing : Paired same input (sets.trainingPoints.length + sets.validationPoints.length)
    sets.testingPoints sets.testingCentroids

/-- The sets are defined, and right. -/
def SetUpRight (same : Centroid → Centroid → Prop) (gaussian : ℕ → ℚ) (p : Parameters) : Prop :=
  ∃ input sets, prepareInput p gaussian = .ok input ∧ setUpBeforeAll gaussian p = .ok sets ∧
    Right same input sets

/-! ## Where the input is split -/

theorem literal_lower {tenths : ℕ} (isOne : tenths = 8 ∨ tenths = 9) :
    (tenths / 10 : ℚ) ≤ double (tenths / 10) ∧ double (tenths / 10) ≤ tenths / 10 + 1 / 2 ^ 53 ∧
      double (tenths / 10) < 1 := by
  rcases isOne with rfl | rfl <;> decide +kernel

/-- The rounded product leaves the integer part of the exact one. -/
theorem toInt_tenths {tenths n : ℕ} (isOne : tenths = 8 ∨ tenths = 9) (small : n < 2 ^ 31) :
    toInt (double (double (tenths / 10) * n)) = (tenths * n / 10 : ℕ) := by
  obtain ⟨low, high, -⟩ := literal_lower isOne
  have nonneg : (0 : ℚ) ≤ n := Nat.cast_nonneg n
  have size : (n : ℚ) < 2147483648 := by exact_mod_cast small
  have divided : tenths * n = 10 * (tenths * n / 10) + tenths * n % 10 :=
    (Nat.div_add_mod _ _).symm
  have exact' : (tenths / 10 * n : ℚ) =
      (tenths * n / 10 : ℕ) + ((tenths * n % 10 : ℕ) : ℚ) / 10 := by
    have := congrArg (Nat.cast : ℕ → ℚ) divided
    push_cast at this
    linarith
  have rest : ((tenths * n % 10 : ℕ) : ℚ) ≤ 9 := by
    have : tenths * n % 10 ≤ 9 := by omega
    exact_mod_cast this
  have rest' : (0 : ℚ) ≤ ((tenths * n % 10 : ℕ) : ℚ) := Nat.cast_nonneg _
  have below := mul_le_mul_of_nonneg_right low nonneg
  have above := mul_le_mul_of_nonneg_right high nonneg
  rw [exact'] at below
  rw [add_mul, exact'] at above
  refine toInt_double ?_ ?_ ?_
  · linarith
  · norm_num at above ⊢
    linarith
  · rcases isOne with rfl | rfl <;> omega

/-- The start of the testing set is nine tenths of the length, rounded down, and so on. -/
theorem splitIndices_eq {n : ℕ} (small : n < 2 ^ 31) :
    splitIndices n [double (8 / 10), double (9 / 10)] =
      ([0, ((8 * n / 10 : ℕ) : ℤ), ((9 * n / 10 : ℕ) : ℤ), (n : ℤ)]).eraseDups.insertionSort (· ≤ ·) := by
  have eight := toInt_tenths (.inl rfl) small
  have nine := toInt_tenths (.inr rfl) small
  push_cast at eight nine
  rw [splitIndices, List.map_cons, List.map_cons, List.map_nil, eight, nine]
  rfl

theorem eraseDups_of_nodup {xs : List ℤ} (nodup : xs.Nodup) : xs.eraseDups = xs := by
  induction xs with
  | nil => rfl
  | cons x xs ih =>
      obtain ⟨new, nodup⟩ := List.nodup_cons.mp nodup
      have others : xs.filter (fun y => !y == x) = xs := by
        refine List.filter_eq_self.mpr fun y mem => ?_
        have different : y ≠ x := fun same => new (same ▸ mem)
        simpa using different
      rw [List.eraseDups_cons, others, ih nodup]

theorem eight_lt_nine {n : ℕ} (enough : 6 ≤ n) : 8 * n / 10 < 9 * n / 10 := by
  rcases Nat.lt_or_ge n 10 with few | many
  · interval_cases n <;> decide
  · omega

/-- Six elements are enough for three sets. -/
theorem splitIndices_of_le {n : ℕ} (small : n < 2 ^ 31) (enough : 6 ≤ n) :
    splitIndices n [double (8 / 10), double (9 / 10)] =
      [0, ((8 * n / 10 : ℕ) : ℤ), ((9 * n / 10 : ℕ) : ℤ), (n : ℤ)] := by
  have ascending : ∀ a b : ℕ, 0 < a → a < b → b < n →
      [0, (a : ℤ), (b : ℤ), (n : ℤ)].Pairwise (· < ·) := by
    intro a b first middle last
    simp
    omega
  have ascending := ascending _ _ (by omega) (eight_lt_nine enough) (by omega)
  rw [splitIndices_eq small, eraseDups_of_nodup (ascending.imp ne_of_lt)]
  exact (ascending.imp le_of_lt).insertionSort_eq

theorem length_splitIndices_of_lt {n : ℕ} (few : n < 6) :
    (splitIndices n [double (8 / 10), double (9 / 10)]).length < 4 := by
  rw [splitIndices_eq (by omega)]
  interval_cases n <;> decide

section Sets

variable {α : Type} {xs : List α}

theorem splitPoints_fit :
    [double (8 / 10), double (9 / 10)].any (fun p => p ≤ 0 || 1 ≤ p) = false := by
  obtain ⟨low, -, high⟩ := literal_lower (.inl rfl)
  obtain ⟨low', -, high'⟩ := literal_lower (.inr rfl)
  push_cast at low low' high high'
  have positive : 0 < double (8 / 10) := lt_of_lt_of_le (by norm_num) low
  have positive' : 0 < double (9 / 10) := lt_of_lt_of_le (by norm_num) low'
  simp [positive, positive', high, high']

theorem length_sliding_lt (few : xs.length < 4) : (sliding xs).length < 3 := by
  match xs with
  | [] => exact Nat.zero_lt_succ 2
  | [x] => exact Nat.one_lt_succ_succ 1
  | [x, y] => exact Nat.one_lt_succ_succ 1
  | [x, y, z] => exact Nat.lt_succ_self 2

theorem slice_natCast (xs : List α) (start stop : ℕ) :
    slice xs start stop = (xs.drop start).take (stop - start) := by
  rw [slice, Int.toNat_natCast, Int.toNat_natCast]

theorem splitAt_of_le (small : xs.length < 2 ^ 31) (enough : 6 ≤ xs.length) :
    splitAt xs [double (8 / 10), double (9 / 10)] = .ok
      [xs.take (8 * xs.length / 10),
        (xs.drop (8 * xs.length / 10)).take (9 * xs.length / 10 - 8 * xs.length / 10),
        xs.drop (9 * xs.length / 10)] := by
  have first : slice xs 0 (8 * xs.length / 10 : ℕ) = xs.take (8 * xs.length / 10) :=
    slice_natCast xs 0 _
  have last : slice xs (9 * xs.length / 10 : ℕ) (xs.length : ℤ) = xs.drop (9 * xs.length / 10) := by
    rw [slice_natCast, List.take_of_length_le List.length_drop.le]
  rw [splitAt, splitPoints_fit, if_neg Bool.false_ne_true, splitIndices_of_le small enough,
    Fallible.mapM_eq_ok_iff, ← first, ← last, ← slice_natCast]
  rfl

/-- With fewer elements there are fewer sets. -/
theorem splitAt_of_lt (few : xs.length < 6) (training validation testing : List α) :
    splitAt xs [double (8 / 10), double (9 / 10)] ≠ .ok [training, validation, testing] := by
  intro three
  rw [splitAt, splitPoints_fit, if_neg Bool.false_ne_true] at three
  have lengths := congrArg List.length (Fallible.mapM_eq_ok_iff.mp three)
  rw [List.length_map, List.length_map] at lengths
  exact (length_sliding_lt (length_splitIndices_of_lt few)).ne lengths

end Sets

/-- How many points the sets have after the training set. -/
theorem sizes (n : ℕ) : n - 9 * n / 10 = (n + 9) / 10 ∧
    (0 < n → (9 * n / 10 - 8 * n / 10 = n - 9 * n / 10 ↔ n % 10 = 0 ∨ 6 ≤ n % 10)) := by
  obtain ⟨q, r, small, rfl⟩ : ∃ q r, r < 10 ∧ n = 10 * q + r :=
    ⟨n / 10, n % 10, Nat.mod_lt _ (by decide), (Nat.div_add_mod n 10).symm⟩
  interval_cases r <;> omega

/-! ## Which centroids the sets come with -/

section Input

variable {p : Parameters} {gaussian : ℕ → ℚ}

/-- The centroid that a point is generated from. -/
def expectedCentroid (p : Parameters) (pointIndex : ℕ) : Centroid :=
  makeCentroid p (pointIndex % p.clusterCount.toInt.toNat)

def generatedInput (p : Parameters) (gaussian : ℕ → ℚ) : List (Point × Centroid) :=
  (List.range p.pointCount.toInt.toNat).map fun i =>
    (makePoint p gaussian i (i % p.clusterCount.toInt.toNat) (expectedCentroid p i), expectedCentroid p i)

theorem prepareInput_eq (enough : EnoughDimensions p) (clusters : 1 ≤ p.clusterCount.toInt) :
    prepareInput p gaussian = .ok (generatedInput p gaussian) := by
  have count : (makeCentroids p).length = p.clusterCount.toInt.toNat := by
    rw [makeCentroids, List.length_map, List.length_range]
  rw [prepareInput, if_pos enough]
  refine Fallible.mapM_ok fun i _ => ?_
  have inside : i % p.clusterCount.toInt.toNat < p.clusterCount.toInt.toNat :=
    Nat.mod_lt _ (by omega)
  have found : (makeCentroids p)[i % p.clusterCount.toInt.toNat]? = some (expectedCentroid p i) := by
    rw [makeCentroids, List.getElem?_map, List.getElem?_range inside]
    rfl
  simp only [count, found]

theorem length_generatedInput : (generatedInput p gaussian).length = p.pointCount.toInt.toNat := by
  rw [generatedInput, List.length_map, List.length_range]

theorem getElem?_generatedInput {i : ℕ} (inside : i < p.pointCount.toInt.toNat) :
    ∃ point, (generatedInput p gaussian)[i]? = some (point, expectedCentroid p i) := by
  refine ⟨makePoint p gaussian i (i % p.clusterCount.toInt.toNat) (expectedCentroid p i), ?_⟩
  rw [generatedInput, List.getElem?_map, List.getElem?_range inside]
  rfl

theorem setUpBeforeAll_eq_ok_iff {sets : Sets} : setUpBeforeAll gaussian p = .ok sets ↔
    ∃ input training validation testing, prepareInput p gaussian = .ok input ∧
      splitAt input [double (8 / 10), double (9 / 10)] = .ok [training, validation, testing] ∧
      sets = {
        trainingPoints := training.map Prod.fst
        validationPoints := validation.map Prod.fst
        validationCentroids := validation.map Prod.snd
        testingPoints := testing.map Prod.fst
        testingCentroids := validation.map Prod.snd } := by
  rw [setUpBeforeAll, Fallible.bind_eq_ok]
  refine exists_congr fun input => ?_
  simp only [Fallible.bind_eq_ok]
  constructor
  · rintro ⟨prepared, slices, isSplit, same⟩
    split at same
    · cases same
      exact ⟨_, _, _, prepared, isSplit, rfl⟩
    · cases same
  · rintro ⟨training, validation, testing, prepared, split, rfl⟩
    exact ⟨prepared, _, split, rfl⟩

/-- What the parameters must be like: enough dimensions, a validation set and a testing set of the same
size, and as many rounds through the centroids in each of them. -/
structure Fits (p : Parameters) : Prop where
  enough : EnoughDimensions p
  sizes : p.pointCount.toInt % 10 = 0 ∨ 6 ≤ p.pointCount.toInt % 10
  rounds : p.clusterCount.toInt ∣ (p.pointCount.toInt + 9) / 10

section Core

variable {same : Centroid → Centroid → Prop}

/-- A part of the input. -/
def part (p : Parameters) (gaussian : ℕ → ℚ) (start size : ℕ) : List (Point × Centroid) :=
  ((generatedInput p gaussian).drop start).take size

theorem length_part {start size : ℕ} (inside : start + size ≤ p.pointCount.toInt.toNat) :
    (part p gaussian start size).length = size := by
  rw [part, List.length_take, List.length_drop, length_generatedInput]
  omega

/-- Two parts that are next to each other. -/
theorem part_append {start middle stop : ℕ} (first : start ≤ middle) (second : middle ≤ stop) :
    part p gaussian start (middle - start) ++ part p gaussian middle (stop - middle) =
      part p gaussian start (stop - start) := by
  have size : stop - start = middle - start + (stop - middle) := by omega
  rw [part, part, part, size, List.take_add, List.drop_drop, Nat.add_sub_cancel' first]

theorem part_all {n : ℕ} (isCount : p.pointCount.toInt.toNat = n) :
    part p gaussian 0 n = generatedInput p gaussian := by
  rw [part, List.drop_zero, ← isCount, ← length_generatedInput, List.take_length]

theorem getElem?_part {start size i : ℕ} (inside : start + size ≤ p.pointCount.toInt.toNat)
    (less : i < size) : ∃ point, (part p gaussian start size)[i]? =
      some (point, expectedCentroid p (start + i)) ∧
      (generatedInput p gaussian)[start + i]? = some (point, expectedCentroid p (start + i)) := by
  have less' : start + i < p.pointCount.toInt.toNat := by omega
  obtain ⟨point, found⟩ : ∃ point, (generatedInput p gaussian)[start + i]? = some (point, _) :=
    getElem?_generatedInput less'
  refine ⟨point, ?_, found⟩
  rw [part, List.getElem?_take_of_lt less, List.getElem?_drop, found]

/-- The points of one part with the centroids of another one. -/
theorem paired_iff {start start' size : ℕ} (inside : start + size ≤ p.pointCount.toInt.toNat)
    (inside' : start' + size ≤ p.pointCount.toInt.toNat) :
    Paired same (generatedInput p gaussian) start ((part p gaussian start size).map Prod.fst)
        ((part p gaussian start' size).map Prod.snd) ↔
      ∀ i < size, same (expectedCentroid p (start' + i)) (expectedCentroid p (start + i)) := by
  constructor
  · intro paired i less
    obtain ⟨point, expected, centroid, isInput, -, isCentroid, isSame⟩ :=
      paired.generated i (by rwa [List.length_map, length_part inside])
    obtain ⟨_, -, here⟩ : ∃ point, (part p gaussian start size)[i]? = some (point, _) ∧ _ :=
      getElem?_part inside less
    obtain ⟨_, there, -⟩ : ∃ point, (part p gaussian start' size)[i]? = some (point, _) ∧ _ :=
      getElem?_part inside' less
    rw [here] at isInput
    rw [List.getElem?_map, there] at isCentroid
    cases isInput
    cases isCentroid
    exact isSame
  · intro centroids
    refine ⟨?_, fun i less => ?_⟩
    · rw [List.length_map, List.length_map, length_part inside, length_part inside']
    · rw [List.length_map, length_part inside] at less
      obtain ⟨point, taken, here⟩ : ∃ point, (part p gaussian start size)[i]? = some (point, _) ∧ _ :=
        getElem?_part inside less
      obtain ⟨_, there, -⟩ : ∃ point, (part p gaussian start' size)[i]? = some (point, _) ∧ _ :=
        getElem?_part inside' less
      refine ⟨point, _, _, here, ?_, ?_, centroids i less⟩
      · rw [List.getElem?_map, taken]
        rfl
      · rw [List.getElem?_map, there]
        rfl

/-- The sets, where `n` is the number of points, the training set ends at `a` and the validation set at
`b`. -/
def setsOf (p : Parameters) (gaussian : ℕ → ℚ) (a b n : ℕ) : Sets where
  trainingPoints := (part p gaussian 0 a).map Prod.fst
  validationPoints := (part p gaussian a (b - a)).map Prod.fst
  validationCentroids := (part p gaussian a (b - a)).map Prod.snd
  testingPoints := (part p gaussian b (n - b)).map Prod.fst
  testingCentroids := (part p gaussian a (b - a)).map Prod.snd

theorem right_iff (refl : ∀ c, same c c) {a b n : ℕ} (isCount : p.pointCount.toInt.toNat = n)
    (middle : a ≤ b) (last : b < n) :
    Right same (generatedInput p gaussian) (setsOf p gaussian a b n) ↔
      b - a = n - b ∧ ∀ i < n - b, same (expectedCentroid p (a + i)) (expectedCentroid p (b + i)) := by
  have training : (setsOf p gaussian a b n).trainingPoints.length = a := by
    rw [setsOf, List.length_map, length_part (by omega)]
  have validation : (setsOf p gaussian a b n).validationPoints.length = b - a := by
    rw [setsOf, List.length_map, length_part (by omega)]
  have begins : a + (b - a) = b := by omega
  have whole : (generatedInput p gaussian).map Prod.fst = (setsOf p gaussian a b n).trainingPoints ++
      (setsOf p gaussian a b n).validationPoints ++ (setsOf p gaussian a b n).testingPoints := by
    have first : part p gaussian 0 a ++ part p gaussian a (b - a) = part p gaussian 0 b :=
      part_append (Nat.zero_le a) middle
    have second : part p gaussian 0 b ++ part p gaussian b (n - b) = part p gaussian 0 n :=
      part_append (Nat.zero_le b) last.le
    rw [setsOf, ← List.map_append, ← List.map_append, first, second, part_all isCount]
  constructor
  · intro right
    have sizes := right.testing.length
    rw [setsOf, List.length_map, List.length_map, length_part (by omega), length_part (by omega)] at sizes
    refine ⟨sizes.symm, ?_⟩
    have testing := right.testing
    rw [training, validation, begins, setsOf, ← sizes] at testing
    exact (paired_iff (by omega) (by omega)).mp testing
  · rintro ⟨sizes, centroids⟩
    refine ⟨whole, ?_, ?_⟩
    · rw [training]
      exact (paired_iff (by omega) (by omega)).mpr fun i _ => refl _
    · rw [training, validation, begins, setsOf, sizes]
      exact (paired_iff (by omega) (by omega)).mpr centroids

theorem setUpBeforeAll_eq (enough : EnoughDimensions p) (clusters : 1 ≤ p.clusterCount.toInt) {n : ℕ}
    (isCount : p.pointCount.toInt.toNat = n) (six : 6 ≤ n) :
    setUpBeforeAll gaussian p = .ok (setsOf p gaussian (8 * n / 10) (9 * n / 10) n) := by
  have small : n < 2 ^ 31 := by
    have := p.pointCount.toInt_lt
    omega
  have length : (generatedInput p gaussian).length = n := by rw [length_generatedInput, isCount]
  have bound : (generatedInput p gaussian).length < 2 ^ 31 := by rwa [length]
  have many : 6 ≤ (generatedInput p gaussian).length := by rwa [length]
  have split := splitAt_of_le bound many
  rw [length] at split
  have rest : (generatedInput p gaussian).drop (9 * n / 10) =
      part p gaussian (9 * n / 10) (n - 9 * n / 10) := by
    rw [part, List.take_of_length_le]
    rw [List.length_drop, length]
  rw [rest] at split
  exact setUpBeforeAll_eq_ok_iff.mpr ⟨_, _, _, _, prepareInput_eq enough clusters, split, rfl⟩

theorem enough_of_prepareInput {input : List (Point × Centroid)}
    (prepared : prepareInput p gaussian = .ok input) : EnoughDimensions p := by
  by_contra few
  rw [prepareInput, if_neg few] at prepared
  cases prepared

/-- Three sets come from six points at least. -/
theorem six_le_of_setUpBeforeAll (clusters : 1 ≤ p.clusterCount.toInt) {sets : Sets}
    (setUp : setUpBeforeAll gaussian p = .ok sets) : 6 ≤ p.pointCount.toInt.toNat := by
  obtain ⟨input, _, _, _, prepared, split, -⟩ := setUpBeforeAll_eq_ok_iff.mp setUp
  rw [prepareInput_eq (enough_of_prepareInput prepared) clusters] at prepared
  cases prepared
  by_contra few
  refine splitAt_of_lt ?_ _ _ _ split
  rw [length_generatedInput]
  exact not_le.mp few

/-- What is left of the sets being right where centroids of different clusters are not the same. -/
theorem setUpRight_iff (refl : ∀ c, same c c)
    (distinct : EnoughDimensions p → ∀ i < p.clusterCount.toInt.toNat,
      ∀ j < p.clusterCount.toInt.toNat, same (makeCentroid p i) (makeCentroid p j) → i = j)
    (points : 1 ≤ p.pointCount.toInt) (clusters : 1 ≤ p.clusterCount.toInt) :
    SetUpRight same gaussian p ↔ Fits p := by
  obtain ⟨n, isCount⟩ : ∃ n, p.pointCount.toInt.toNat = n := ⟨_, rfl⟩
  obtain ⟨k, isClusters⟩ : ∃ k, p.clusterCount.toInt.toNat = k := ⟨_, rfl⟩
  have count : p.pointCount.toInt = n := by omega
  have clusters' : p.clusterCount.toInt = k := by omega
  obtain ⟨testing, sameSize⟩ := sizes n
  have positive : 0 < n := by omega
  have rounds_iff : p.clusterCount.toInt ∣ (p.pointCount.toInt + 9) / 10 ↔ k ∣ n - 9 * n / 10 := by
    rw [count, clusters', testing, ← Int.natCast_dvd_natCast]
    push_cast
    rfl
  constructor
  · rintro ⟨input, sets, prepared, setUp, right⟩
    have enough := enough_of_prepareInput prepared
    rw [prepareInput_eq enough clusters] at prepared
    cases prepared
    have six : 6 ≤ n := isCount ▸ six_le_of_setUpBeforeAll clusters setUp
    rw [setUpBeforeAll_eq enough clusters isCount six] at setUp
    cases setUp
    obtain ⟨size, centroids⟩ := (right_iff refl isCount (by omega) (by omega)).mp right
    refine ⟨enough, ?_, rounds_iff.mpr ?_⟩
    · have rest := (sameSize positive).mp size
      omega
    · -- the first points of the two sets come from the same centroid
      have first := distinct enough _ (Nat.mod_lt _ (by omega)) _ (Nat.mod_lt _ (by omega))
        (centroids 0 (by omega))
      rw [isClusters] at first
      rw [← size]
      exact (Nat.modEq_iff_dvd' (by omega)).mp first
  · rintro ⟨enough, size, rounds⟩
    have six : 6 ≤ n := by omega
    refine ⟨_, _, prepareInput_eq enough clusters, setUpBeforeAll_eq enough clusters isCount six,
      (right_iff refl isCount (by omega) (by omega)).mpr ⟨?_, fun i less => ?_⟩⟩
    · exact (sameSize positive).mpr (by omega)
    · have divides := rounds_iff.mp rounds
      rw [← (sameSize positive).mpr (by omega)] at divides
      have start : 8 * n / 10 ≡ 9 * n / 10 [MOD k] := (Nat.modEq_iff_dvd' (by omega)).mpr divides
      have index : (8 * n / 10 + i) % k = (9 * n / 10 + i) % k := start.add_right i
      rw [expectedCentroid, expectedCentroid, isClusters, index]
      exact refl _

end Core

/-! ## Centroids of different clusters -/

theorem bit_eq (clusterIndex dimensionIndex : ℕ) (small : dimensionIndex < 32) :
    (shiftRight clusterIndex dimensionIndex).tmod 2 =
      ((clusterIndex / 2 ^ dimensionIndex % 2 : ℕ) : ℤ) := by
  have same : ((dimensionIndex : ℤ) % 32).toNat = dimensionIndex := by omega
  rw [shiftRight, same]
  exact_mod_cast Int.ofNat_tmod _ _

/-- A coordinate of a vertex that is not 0 is not near 0 either. -/
theorem one_le_offset (distance : 0 < p.clusterDistance.toInt) {clusterIndex : ℕ}
    (small : clusterIndex < 2 ^ 31) :
    1 ≤ double (1 * double (p.clusterDistance.toInt + double (clusterIndex * double (8 / 10)))) := by
  have literal : (0 : ℚ) ≤ double (8 / 10) ∧ double (8 / 10) ≤ 1 := by
    obtain ⟨low, -, high⟩ := literal_lower (.inl rfl)
    push_cast at low high
    exact ⟨le_trans (by norm_num) low, high.le⟩
  have index : (0 : ℚ) ≤ clusterIndex := Nat.cast_nonneg _
  have index' : (clusterIndex : ℚ) < 2 ^ 31 := by exact_mod_cast small
  have distance' : (1 : ℚ) ≤ p.clusterDistance.toInt := by exact_mod_cast distance
  have distance'' : (p.clusterDistance.toInt : ℚ) < 2 ^ 31 := by
    exact_mod_cast p.clusterDistance.toInt_lt
  -- each result is between 0 or 1 and a limit that is far from that of the exact integers
  have product : 0 ≤ clusterIndex * double (8 / 10) := mul_nonneg index literal.1
  have product' : clusterIndex * double (8 / 10) ≤ clusterIndex := mul_le_of_le_one_right index literal.2
  have size : |clusterIndex * double (8 / 10)| < 2 ^ 53 := by
    rw [abs_of_nonneg product]
    linarith
  have first : ((0 : ℤ) : ℚ) ≤ double (clusterIndex * double (8 / 10)) :=
    le_double size (by rwa [Int.cast_zero])
  have first' := double_le_add_one size
  rw [Int.cast_zero] at first
  have size : |p.clusterDistance.toInt + double (clusterIndex * double (8 / 10))| < 2 ^ 53 := by
    rw [abs_of_nonneg (by linarith)]
    linarith
  have second : ((1 : ℤ) : ℚ) ≤ double (p.clusterDistance.toInt +
      double (clusterIndex * double (8 / 10))) := le_double size (by rw [Int.cast_one]; linarith)
  have second' := double_le_add_one size
  have size : |1 * double (p.clusterDistance.toInt +
      double (clusterIndex * double (8 / 10)))| < 2 ^ 53 := by
    rw [Int.cast_one] at second
    rw [one_mul, abs_of_nonneg (by linarith)]
    linarith
  have third : ((1 : ℤ) : ℚ) ≤ double (1 * double (p.clusterDistance.toInt +
      double (clusterIndex * double (8 / 10)))) := le_double size (by rwa [one_mul])
  rwa [Int.cast_one] at third

/-- A coordinate says whether its bit of the index of the cluster is set. -/
theorem coordinate_eq_zero_iff (distance : 0 < p.clusterDistance.toInt) {clusterIndex dimensionIndex : ℕ}
    (small : clusterIndex < 2 ^ 31) (dimensions : dimensionIndex < 32) :
    coordinate p clusterIndex dimensionIndex = 0 ↔ clusterIndex.testBit dimensionIndex = false := by
  rw [coordinate, bit_eq _ _ dimensions, Nat.testBit_eq_decide_div_mod_eq, decide_eq_false_iff_not]
  rcases Nat.mod_two_eq_zero_or_one (clusterIndex / 2 ^ dimensionIndex) with zero | one
  · rw [zero]
    refine iff_of_true ?_ (by decide)
    rw [Int.natCast_zero, Int.cast_zero, zero_mul, double_zero]
  · rw [one]
    refine iff_of_false ?_ (by decide)
    rw [Int.natCast_one, Int.cast_one]
    exact (zero_lt_one.trans_le (one_le_offset distance small)).ne'

theorem shiftLeft_one {n : ℤ} (positive : 0 < shiftLeft 1 n) :
    shiftLeft 1 n = 2 ^ (n % 32).toNat ∧ (n % 32).toNat < 31 := by
  rw [shiftLeft, one_mul] at positive ⊢
  have few : (n % 32).toNat < 31 := by
    by_contra last
    have sign : (n % 32).toNat = 31 := by omega
    rw [sign] at positive
    exact absurd positive (by decide)
  have small : (2 : ℤ) ^ (n % 32).toNat < 2 ^ 31 := pow_lt_pow_right₀ one_lt_two few
  have nonneg : (0 : ℤ) < 2 ^ (n % 32).toNat := pow_pos two_pos _
  exact ⟨int_eq_self (by omega) (by omega), few⟩

/-- Where there are enough vertices for the clusters, no two are at the same one. -/
theorem coordinates_injective (dimensions : 0 < p.dimensionCount.toInt)
    (distance : 0 < p.clusterDistance.toInt) (enough : EnoughDimensions p) :
    ∀ i < p.clusterCount.toInt.toNat, ∀ j < p.clusterCount.toInt.toNat,
      (makeCentroid p i).coordinates = (makeCentroid p j).coordinates → i = j := by
  intro i hi j hj same
  have limit : p.clusterCount.toInt ≤ shiftLeft 1 p.dimensionCount.toInt := enough
  obtain ⟨vertices, few⟩ := shiftLeft_one (by omega : 0 < shiftLeft 1 p.dimensionCount.toInt)
  obtain ⟨bits, isBits⟩ : ∃ bits, (p.dimensionCount.toInt % 32).toNat = bits := ⟨_, rfl⟩
  rw [isBits] at vertices few
  have cast : ((2 ^ bits : ℕ) : ℤ) = 2 ^ bits := by push_cast; rfl
  have below : ∀ c < p.clusterCount.toInt.toNat, c < 2 ^ bits := fun c less => by omega
  have small : 2 ^ bits < 2 ^ 31 := Nat.pow_lt_pow_right one_lt_two few
  refine Nat.eq_of_testBit_eq fun b => ?_
  rcases Nat.lt_or_ge b bits with low | high
  · have inside : b < p.dimensionCount.toInt.toNat := by omega
    have here := congrArg (·[b]?) same
    simp only [makeCentroid, List.getElem?_map, List.getElem?_range inside, Option.map_some,
      Option.some.injEq] at here
    have zero : i.testBit b = false ↔ j.testBit b = false := by
      rw [← coordinate_eq_zero_iff distance ((below i hi).trans small) (by omega), here,
        coordinate_eq_zero_iff distance ((below j hj).trans small) (by omega)]
    exact Bool.eq_iff_iff.mpr (by simpa using not_congr zero)
  · have clear : ∀ c < 2 ^ bits, c.testBit b = false := fun c less =>
      Nat.testBit_lt_two_pow (less.trans_le (Nat.pow_le_pow_right two_pos high))
    rw [clear i (below i hi), clear j (below j hj)]

end Input

/-- The sets are defined and right exactly for the parameters that fit, where a point has to come with the
very centroid that it was generated from, or with one of the same coordinates. -/
theorem setUpBeforeAll_right_iff (gaussian : ℕ → ℚ) (p : Parameters) (points : 1 ≤ p.pointCount.toInt)
    (clusters : 1 ≤ p.clusterCount.toInt) :
    (SetUpRight (· = ·) gaussian p ↔ Fits p) ∧
      (0 < p.dimensionCount.toInt → 0 < p.clusterDistance.toInt →
        (SetUpRight (fun c c' => c.coordinates = c'.coordinates) gaussian p ↔ Fits p)) := by
  refine ⟨setUpRight_iff (fun _ => rfl) (fun _ i _ j _ same => ?_) points clusters,
    fun dimensions distance => setUpRight_iff (fun _ => rfl) ?_ points clusters⟩
  · exact congrArg Centroid.clusterIndex same
  · exact coordinates_injective dimensions distance

/-- The default parameters fit. -/
def defaultParameters : Parameters where
  pointCount := 9000
  dimensionCount := 8
  clusterCount := 6
  clusterDistance := 5

theorem setUpBeforeAll_right_iff_default :
    (SetUpRight (· = ·) (fun _ => 0) defaultParameters ↔ Fits defaultParameters) ∧
      (0 < defaultParameters.dimensionCount.toInt → 0 < defaultParameters.clusterDistance.toInt →
        (SetUpRight (fun c c' => c.coordinates = c'.coordinates) (fun _ => 0) defaultParameters ↔
          Fits defaultParameters)) :=
  setUpBeforeAll_right_iff (fun _ => 0) defaultParameters (by decide) (by decide)

example : Fits defaultParameters :=
  ⟨by decide, by decide, by decide⟩

def sevenClusters : Parameters :=
  { defaultParameters with clusterCount := 7 }

/-- The first testing point and the first validation point come from different clusters. -/
theorem sevenClusters_not_right :
    ¬SetUpRight (· = ·) (fun _ => 0) sevenClusters ∧
      ¬SetUpRight (fun c c' => c.coordinates = c'.coordinates) (fun _ => 0) sevenClusters := by
  have unfit : ¬Fits sevenClusters := fun fits => absurd fits.rounds (by decide)
  have points : 1 ≤ sevenClusters.pointCount.toInt := by decide
  have clusters : 1 ≤ sevenClusters.clusterCount.toInt := by decide
  have ofArrays : SetUpRight (· = ·) (fun _ => 0) sevenClusters ↔ Fits sevenClusters :=
    setUpRight_iff (fun _ => rfl) (fun _ i _ j _ same => congrArg Centroid.clusterIndex same) points clusters
  have ofCoordinates : SetUpRight (fun c c' => c.coordinates = c'.coordinates) (fun _ => 0)
      sevenClusters ↔ Fits sevenClusters :=
    setUpRight_iff (fun _ => rfl) (coordinates_injective (by decide) (by decide)) points clusters
  exact ⟨fun right => unfit (ofArrays.mp right), fun right => unfit (ofCoordinates.mp right)⟩

end Renaissance.GaussMix
