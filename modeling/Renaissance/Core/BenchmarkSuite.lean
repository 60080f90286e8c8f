import Renaissance.Core.BenchmarkDescriptor
import Renaissance.Core.Version

/-!
# The benchmark suite

`BenchmarkSuite`: the benchmark descriptors by their names, with the queries of the harness. What a
benchmark says about itself is read from its settings when it is asked for, so every query may fail.
-/

namespace Renaissance.Core

open JavaCollections

deriving instance DecidableEq for BenchmarkDescriptor

namespace BenchmarkDescriptor

-- `Integer.parseInt`, of which nothing is used
variable (parseInt : String → Option ℤ) (descriptor : BenchmarkDescriptor)

def toList (value : String) : List String :=
  (JavaString.split ',' value.toList).map fun part => JavaString.trim part.toList

def groups : Except String (List String) := do
  pure (toList (← descriptor.requireSettingValue "groups"))

def parseVersion (stringVersion : String) : Except String (Option Version) :=
  if stringVersion.isEmpty then .ok none
  else some <$> Version.parse parseInt stringVersion

/-- A version that may be set. -/
def settingVersion (name : String) : Except String (Option Version) :=
  match descriptor.settingValue name with
  | none => .ok none
  | some stringVersion => parseVersion parseInt stringVersion

def jvmVersionMin : Except String (Option Version) :=
  descriptor.settingVersion parseInt "jvm_version_min"

def jvmVersionMax : Except String (Option Version) :=
  descriptor.settingVersion parseInt "jvm_version_max"

end BenchmarkDescriptor

/-- The descriptors with their names, in the order in which the map enumerates them. -/
structure BenchmarkSuite where
  benchmarkDescriptors : List (String × BenchmarkDescriptor)
  keyed : Keyed benchmarkDescriptors
  named : ∀ entry ∈ benchmarkDescriptors, entry.2.benchmarkName = entry.1

namespace BenchmarkSuite

/-- The suite with the benchmarks of the metadata. -/
def create (order : IterationOrder (String × BenchmarkDescriptor))
    (metadata parameterOverrides : List (String × String)) : BenchmarkSuite where
  benchmarkDescriptors := order.arrange (createBenchmarkDescriptors metadata parameterOverrides)
  keyed := by
    rw [Keyed, ((order.perm _).map Prod.fst).nodup_iff, descriptorNames]
    exact nodup_benchmarkNames metadata
  named entry mem := by
    rw [mem_createBenchmarkDescriptors (order.mem_arrange.mp mem)]

variable (suite : BenchmarkSuite)

/-- `benchmarkDescriptors.values`. -/
def values : List BenchmarkDescriptor :=
  suite.benchmarkDescriptors.map Prod.snd

def hasBenchmark (benchmarkName : String) : Bool :=
  benchmarkName ∈ suite.benchmarkDescriptors.map Prod.fst

/-- The message is that of a `NoSuchElementException`. -/
def getBenchmark (benchmarkName : String) : Except String BenchmarkDescriptor :=
  match suite.benchmarkDescriptors.lookup benchmarkName with
  | some result => .ok result
  | none => .error ("no such benchmark: " ++ benchmarkName)

def groupNames : Except String (List String) := do
  pure (← suite.values.mapM BenchmarkDescriptor.groups).flatten

def hasGroup (groupName : String) : Except String Bool := do
  pure (decide (groupName ∈ (← suite.groupNames)))

def getMatchingBenchmarks (matcher : BenchmarkDescriptor → Except String Bool) :
    Except String (List BenchmarkDescriptor) :=
  suite.values.filterM matcher

/-- The message is that of a `NoSuchElementException`. -/
def getGroupBenchmarks (groupName : String) : Except String (List BenchmarkDescriptor) := do
  let result ← suite.getMatchingBenchmarks fun b => return decide (groupName ∈ (← b.groups))
  if result.isEmpty then throw ("there is no such group: " ++ groupName)
  pure result

/-- Whether the benchmark runs on the JVM with the given version. -/
def isBenchmarkCompatible (parseInt : String → Option ℤ) (jvmVersion : Version)
    (bd : BenchmarkDescriptor) : Except String Bool := do
  let minSatisfied := 0 ≤ jvmVersion.compareToOptional (← bd.jvmVersionMin parseInt)
  let maxSatisfied := jvmVersion.compareToOptional (← bd.jvmVersionMax parseInt) ≤ 0
  pure (minSatisfied ∧ maxSatisfied)

end BenchmarkSuite

/-! ## What the metadata say -/

namespace BenchmarkDescriptor

variable (parseInt : String → Option ℤ) (descriptor : BenchmarkDescriptor)

/-- The benchmark is one of the group. -/
def inGroup (groupName : String) : Bool :=
  match descriptor.groups with
  | .ok groups => groupName ∈ groups
  | .error _ => false

/-- The JVM is neither below the minimum nor above the maximum of the benchmark. -/
structure Compatible (jvmVersion : Version) : Prop where
  minSatisfied : ∀ least, descriptor.jvmVersionMin parseInt = .ok (some least) → ¬jvmVersion < least
  maxSatisfied : ∀ most, descriptor.jvmVersionMax parseInt = .ok (some most) → ¬most < jvmVersion

/-- The benchmark has groups, and its versions can be read. -/
structure WellFormed : Prop where
  groups : ∃ groups, descriptor.groups = .ok groups
  jvmVersionMin : ∃ version, descriptor.jvmVersionMin parseInt = .ok version
  jvmVersionMax : ∃ version, descriptor.jvmVersionMax parseInt = .ok version

end BenchmarkDescriptor

variable {parseInt : String → Option ℤ} {suite : BenchmarkSuite} {name : String}
  {descriptor : BenchmarkDescriptor}

theorem compareToOptional_nonneg_iff {this : Version} {maybeThat : Option Version} :
    0 ≤ this.compareToOptional maybeThat ↔ ∀ that, maybeThat = some that → ¬this < that := by
  cases maybeThat with
  | none => simp [Version.compareToOptional]
  | some that =>
      have turned := Version.compareTo_neg_iff this that
      simp [Version.compareToOptional, ← turned]

theorem compareToOptional_nonpos_iff {this : Version} {maybeThat : Option Version} :
    this.compareToOptional maybeThat ≤ 0 ↔ ∀ that, maybeThat = some that → ¬that < this := by
  cases maybeThat with
  | none => simp [Version.compareToOptional]
  | some that =>
      have turned := Version.compareTo_pos_iff this that
      simp [Version.compareToOptional, ← turned]

/-- `isBenchmarkCompatible` decides compatibility. -/
theorem isBenchmarkCompatible_ok (jvmVersion : Version)
    (wellFormed : descriptor.WellFormed parseInt) :
    ∃ isCompatible : Bool,
      BenchmarkSuite.isBenchmarkCompatible parseInt jvmVersion descriptor = .ok isCompatible ∧
        (isCompatible = true ↔ descriptor.Compatible parseInt jvmVersion) := by
  obtain ⟨least, isLeast⟩ := wellFormed.jvmVersionMin
  obtain ⟨most, isMost⟩ := wellFormed.jvmVersionMax
  refine ⟨decide (0 ≤ jvmVersion.compareToOptional least ∧ jvmVersion.compareToOptional most ≤ 0), ?_, ?_⟩
  · rw [BenchmarkSuite.isBenchmarkCompatible, isLeast, isMost]
    rfl
  · rw [decide_eq_true_iff, compareToOptional_nonneg_iff, compareToOptional_nonpos_iff]
    constructor
    · rintro ⟨above, below⟩
      exact ⟨fun version isMin => above version (Except.ok.inj (isLeast.symm.trans isMin)),
        fun version isMax => below version (Except.ok.inj (isMost.symm.trans isMax))⟩
    · rintro ⟨above, below⟩
      exact ⟨fun version isMin => above version (isMin ▸ isLeast),
        fun version isMax => below version (isMax ▸ isMost)⟩

theorem hasBenchmark_iff : suite.hasBenchmark name = true ↔
    ∃ descriptor ∈ suite.values, descriptor.benchmarkName = name := by
  rw [BenchmarkSuite.hasBenchmark, decide_eq_true_iff, BenchmarkSuite.values]
  simp only [List.mem_map, exists_exists_and_eq_and]
  exact exists_congr fun entry => and_congr_right fun mem => by rw [suite.named entry mem]

/-- The one benchmark of the name. -/
theorem mem_lookup_iff : suite.benchmarkDescriptors.lookup name = some descriptor ↔
    descriptor ∈ suite.values ∧ descriptor.benchmarkName = name := by
  constructor
  · intro found
    have mem := mem_of_lookup found
    exact ⟨List.mem_map.mpr ⟨_, mem, rfl⟩, suite.named _ mem⟩
  · rintro ⟨mem, rfl⟩
    obtain ⟨⟨key, descriptor'⟩, listed, rfl⟩ := List.mem_map.mp mem
    rw [suite.named _ listed]
    exact suite.keyed.lookup_of_mem listed

theorem groups_eq (wellFormed : descriptor.WellFormed parseInt) (name : String) :
    (do return decide (name ∈ (← descriptor.groups)) : Except String Bool) =
      .ok (descriptor.inGroup name) := by
  obtain ⟨groups, found⟩ := wellFormed.groups
  rw [BenchmarkDescriptor.inGroup, found]
  rfl

theorem hasGroup_ok (wellFormed : ∀ b ∈ suite.values, b.WellFormed parseInt) (name : String) :
    suite.hasGroup name = .ok (suite.values.any (·.inGroup name)) := by
  have groups : ∀ b ∈ suite.values, b.groups = .ok (b.groups.toOption.getD []) := by
    intro b mem
    obtain ⟨groups, found⟩ := (wellFormed b mem).groups
    rw [found]
    rfl
  rw [BenchmarkSuite.hasGroup, BenchmarkSuite.groupNames, Fallible.mapM_ok groups]
  refine congrArg Except.ok ?_
  rw [Bool.eq_iff_iff, decide_eq_true_iff, List.any_eq_true, ← List.flatMap_def, List.mem_flatMap]
  refine exists_congr fun b => and_congr_right fun mem => ?_
  rw [BenchmarkDescriptor.inGroup, groups b mem]
  exact decide_eq_true_iff.symm

theorem getGroupBenchmarks_ok (wellFormed : ∀ b ∈ suite.values, b.WellFormed parseInt)
    (some : suite.values.any (·.inGroup name) = true) :
    suite.getGroupBenchmarks name = .ok (suite.values.filter (·.inGroup name)) := by
  have found := Fallible.filterM_ok fun b mem => groups_eq (wellFormed b mem) name
  rw [BenchmarkSuite.getGroupBenchmarks, BenchmarkSuite.getMatchingBenchmarks, found]
  have nonempty : (suite.values.filter (·.inGroup name)).isEmpty = false := by
    obtain ⟨b, mem, member⟩ := List.any_eq_true.mp some
    rw [List.isEmpty_eq_false_iff_exists_mem]
    exact ⟨b, List.mem_filter.mpr ⟨mem, member⟩⟩
  show (if (suite.values.filter (·.inGroup name)).isEmpty then _ else _) = _
  rw [nonempty]
  rfl

end Renaissance.Core
