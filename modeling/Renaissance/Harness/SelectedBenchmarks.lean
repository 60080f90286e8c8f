import Renaissance.Core.BenchmarkSuite

/-!
# Selecting benchmarks

`selectBenchmarks` and `excludeIncompatible` of the harness, and the part of `main` that calls them.
`selectBenchmarks_selects` says which benchmarks are selected and in which order.
-/

namespace Renaissance.Selection

open JavaCollections Renaissance.Core

/-- What ends the harness before it runs any benchmark. -/
inductive Ending
  | usage
  | exit (line : String)
  | exception (message : String)
  deriving DecidableEq, Repr

/-- An exception of the suite is not caught. -/
def thrown {α : Type} : Except String α → Except Ending α :=
  Except.mapError .exception

def benchmarkIsReal (benchmark : Core.BenchmarkDescriptor) : Except String Bool := do
  return !decide ("dummy" ∈ (← benchmark.groups))

variable (parseInt : String → Option ℤ) (suite : BenchmarkSuite) (jvmVersion : Version)

/-- One iteration of the loop over the specifiers. -/
def selectBenchmark (result : List Core.BenchmarkDescriptor) (specifier : String) :
    Except Ending (List Core.BenchmarkDescriptor) := do
  if suite.hasBenchmark specifier then
    pure (add result (← thrown (suite.getBenchmark specifier)))
  else if ← thrown (suite.hasGroup specifier) then
    pure (addAll result (← thrown (suite.getGroupBenchmarks specifier)))
  else if specifier = "all" then
    pure (addAll result (← thrown (suite.getMatchingBenchmarks benchmarkIsReal)))
  else
    .error (.exit s!"Benchmark (or group) '{specifier}' does not exist.")

def selectBenchmarks (specifiers : List String) : Except Ending (List Core.BenchmarkDescriptor) :=
  specifiers.foldlM (selectBenchmark suite) []

def versionRange (b : Core.BenchmarkDescriptor) : Except String String := do
  let least := match ← b.jvmVersionMin parseInt with
    | some v => s!">={v}"
    | none => ""
  match ← b.jvmVersionMax parseInt with
  | some v => pure (least ++ (if least.isEmpty then "" else " and ") ++ s!"<={v}")
  | none => pure least

/-- One iteration of the filter, which also prints why a benchmark is excluded. -/
def keepCompatible (result : List Core.BenchmarkDescriptor × List String) (b : Core.BenchmarkDescriptor) :
    Except String (List Core.BenchmarkDescriptor × List String) := do
  if ← BenchmarkSuite.isBenchmarkCompatible parseInt jvmVersion b then
    pure (result.1 ++ [b], result.2)
  else
    let range ← versionRange parseInt b
    let name := b.benchmarkName
    pure (result.1, result.2 ++
      [s!"Benchmark '{name}' excluded: requires JVM version {range} (found {jvmVersion})."])

/-- The benchmarks that are kept, and the lines that are printed. -/
def excludeIncompatible (benchmarks : List Core.BenchmarkDescriptor) :
    Except Ending (List Core.BenchmarkDescriptor × List String) :=
  thrown (benchmarks.foldlM (keepCompatible parseInt jvmVersion) ([], []))

/-- The part of `main` that finds the benchmarks to run. -/
def mainBenchmarks (checkJvm : Bool) (benchmarkSpecifiers : List String) :
    Except Ending (List Core.BenchmarkDescriptor) := do
  let _realBenchmarks ← thrown (suite.getMatchingBenchmarks benchmarkIsReal)
  if benchmarkSpecifiers.isEmpty then .error .usage
  else
    let benchmarks ← selectBenchmarks suite benchmarkSpecifiers
    if checkJvm then return (← excludeIncompatible parseInt jvmVersion benchmarks).1
    else pure benchmarks

/-! ## What is selected -/

/-- The specifier is a name, a group or the keyword. -/
def Known (specifier : String) : Prop :=
  (∃ b ∈ suite.values, b.benchmarkName = specifier) ∨
    (∃ b ∈ suite.values, b.inGroup specifier = true) ∨ specifier = "all"

/-- The benchmarks that a specifier stands for. A name goes before a group, and a group before the
keyword. -/
def Denotes (specifier : String) (b : Core.BenchmarkDescriptor) : Prop :=
  b ∈ suite.values ∧
    if ∃ other ∈ suite.values, other.benchmarkName = specifier then b.benchmarkName = specifier
    else if ∃ other ∈ suite.values, other.inGroup specifier = true then b.inGroup specifier = true
    else specifier = "all" ∧ b.inGroup "dummy" = false

instance (specifier : String) : DecidablePred (Denotes suite specifier) :=
  fun b => by unfold Denotes; infer_instance

/-- The place of the first specifier that denotes the benchmark. -/
def firstDenoting (specifiers : List String) (b : Core.BenchmarkDescriptor) : ℕ :=
  specifiers.findIdx fun specifier => Denotes suite specifier b

/-- The result of the selection for a JVM. -/
structure Selects (specifiers : List String) (result : List Core.BenchmarkDescriptor) : Prop where
  distinct : result.Nodup
  exactly : ∀ b, b ∈ result ↔
    b.Compatible parseInt jvmVersion ∧ ∃ specifier ∈ specifiers, Denotes suite specifier b
  ordered : result.Pairwise fun b b' =>
    firstDenoting suite specifiers b ≤ firstDenoting suite specifiers b'

/-- The benchmarks that a specifier stands for, in the order of the suite. -/
def denoted (specifier : String) : List Core.BenchmarkDescriptor :=
  if suite.hasBenchmark specifier then (suite.benchmarkDescriptors.lookup specifier).toList
  else if suite.values.any (·.inGroup specifier) then suite.values.filter (·.inGroup specifier)
  else if specifier = "all" then suite.values.filter fun b => !b.inGroup "dummy"
  else []

variable {parseInt suite jvmVersion} {specifiers : List String} {specifier : String}

theorem mem_denoted {b : Core.BenchmarkDescriptor} :
    b ∈ denoted suite specifier ↔ Denotes suite specifier b := by
  unfold denoted Denotes
  by_cases name : suite.hasBenchmark specifier = true
  · rw [if_pos name, if_pos (hasBenchmark_iff.mp name), Option.mem_toList, mem_lookup_iff]
  · rw [if_neg name, if_neg (mt hasBenchmark_iff.mpr name)]
    by_cases group : ∃ other ∈ suite.values, other.inGroup specifier = true
    · rw [if_pos (List.any_eq_true.mpr group), if_pos group, List.mem_filter]
    · rw [if_neg (mt List.any_eq_true.mp group), if_neg group]
      by_cases keyword : specifier = "all" <;> simp [keyword]

theorem firstSource_denoted (specifiers : List String) (b : Core.BenchmarkDescriptor) :
    firstSource (denoted suite) specifiers b = firstDenoting suite specifiers b := by
  unfold firstSource firstDenoting
  simp only [mem_denoted]

theorem realBenchmarks_ok (wellFormed : ∀ b ∈ suite.values, b.WellFormed parseInt) :
    suite.getMatchingBenchmarks benchmarkIsReal =
      .ok (suite.values.filter fun b => !b.inGroup "dummy") := by
  refine Fallible.filterM_ok fun b mem => ?_
  obtain ⟨groups, found⟩ := (wellFormed b mem).groups
  rw [benchmarkIsReal, Core.BenchmarkDescriptor.inGroup, found]
  rfl

/-- A known specifier adds the benchmarks that it denotes. -/
theorem selectBenchmark_known (wellFormed : ∀ b ∈ suite.values, b.WellFormed parseInt)
    (known : Known suite specifier) (result : List Core.BenchmarkDescriptor) :
    selectBenchmark suite result specifier = .ok (addAll result (denoted suite specifier)) := by
  unfold selectBenchmark denoted
  by_cases name : suite.hasBenchmark specifier = true
  · obtain ⟨b, mem, same⟩ := hasBenchmark_iff.mp name
    rw [if_pos name, if_pos name, BenchmarkSuite.getBenchmark, mem_lookup_iff.mpr ⟨mem, same⟩]
    rfl
  · rw [if_neg name, if_neg name, hasGroup_ok wellFormed]
    by_cases group : suite.values.any (·.inGroup specifier) = true
    · rw [group, getGroupBenchmarks_ok wellFormed group]
      rfl
    · have keyword : specifier = "all" :=
        (known.resolve_left (mt hasBenchmark_iff.mpr name)).resolve_left
          (mt List.any_eq_true.mpr group)
      rw [Bool.eq_false_of_not_eq_true group, realBenchmarks_ok wellFormed]
      show (if specifier = "all" then _ else _) = _
      rw [if_pos keyword, if_neg Bool.false_ne_true, if_pos keyword]
      rfl

/-- A specifier that is not known ends the harness. -/
theorem selectBenchmark_unknown (wellFormed : ∀ b ∈ suite.values, b.WellFormed parseInt)
    (unknown : ¬Known suite specifier) (result : List Core.BenchmarkDescriptor) :
    selectBenchmark suite result specifier =
      .error (.exit s!"Benchmark (or group) '{specifier}' does not exist.") := by
  unfold Known at unknown
  obtain ⟨name, group, keyword⟩ : _ ∧ _ ∧ _ := by simpa only [not_or] using unknown
  unfold selectBenchmark
  rw [if_neg (mt hasBenchmark_iff.mp name), hasGroup_ok wellFormed,
    Bool.eq_false_of_not_eq_true (mt List.any_eq_true.mp group)]
  show (if specifier = "all" then _ else _) = _
  rw [if_neg keyword]

theorem selectBenchmarks_ok (wellFormed : ∀ b ∈ suite.values, b.WellFormed parseInt)
    (known : ∀ specifier ∈ specifiers, Known suite specifier) :
    selectBenchmarks suite specifiers = .ok (addAllEach (denoted suite) specifiers) :=
  Fallible.foldlM_ok [] fun result specifier mem =>
    selectBenchmark_known wellFormed (known specifier mem) result

/-- The first specifier that is not known ends the harness, whatever was selected before. -/
theorem selectBenchmarks_exit (wellFormed : ∀ b ∈ suite.values, b.WellFormed parseInt)
    (unknown : ∃ specifier ∈ specifiers, ¬Known suite specifier) :
    ∃ line, selectBenchmarks suite specifiers = .error (.exit line) := by
  unfold selectBenchmarks
  generalize ([] : List Core.BenchmarkDescriptor) = result
  induction specifiers generalizing result with
  | nil => simp at unknown
  | cons specifier specifiers ih =>
      by_cases known : Known suite specifier
      · rw [List.foldlM_cons, selectBenchmark_known wellFormed known]
        have later : ∃ other ∈ specifiers, ¬Known suite other := by
          simpa [known] using unknown
        exact ih later _
      · rw [List.foldlM_cons, selectBenchmark_unknown wellFormed known]
        exact ⟨_, rfl⟩

theorem versionRange_ok {b : Core.BenchmarkDescriptor} (wellFormed : b.WellFormed parseInt) :
    ∃ range, versionRange parseInt b = .ok range := by
  obtain ⟨least, isLeast⟩ := wellFormed.jvmVersionMin
  obtain ⟨most, isMost⟩ := wellFormed.jvmVersionMax
  rw [versionRange, isLeast, isMost]
  cases most <;> exact ⟨_, rfl⟩

variable (jvmVersion) in
theorem keepCompatible_ok {b : Core.BenchmarkDescriptor} (wellFormed : b.WellFormed parseInt)
    (result : List Core.BenchmarkDescriptor × List String) :
    ∃ kept lines, keepCompatible parseInt jvmVersion result b = .ok (result.1 ++ kept, lines) ∧
      kept.Sublist [b] ∧ ∀ x, x ∈ kept ↔ x = b ∧ b.Compatible parseInt jvmVersion := by
  obtain ⟨isCompatible, decided, iff⟩ := isBenchmarkCompatible_ok jvmVersion wellFormed
  obtain ⟨range, ranged⟩ := versionRange_ok wellFormed
  rw [keepCompatible, decided, ranged, ← iff]
  cases isCompatible with
  | true => exact ⟨[b], result.2, rfl, List.Sublist.refl _, by simp⟩
  | false => exact ⟨[], _, by rw [List.append_nil]; rfl, List.nil_sublist _, by simp⟩

variable (jvmVersion) in
/-- The benchmarks that are compatible are kept in their order. -/
theorem excludeIncompatible_ok {benchmarks : List Core.BenchmarkDescriptor}
    (wellFormed : ∀ b ∈ benchmarks, b.WellFormed parseInt) :
    ∃ kept lines, excludeIncompatible parseInt jvmVersion benchmarks = .ok (kept, lines) ∧
      kept.Sublist benchmarks ∧
      ∀ b, b ∈ kept ↔ b ∈ benchmarks ∧ b.Compatible parseInt jvmVersion := by
  have loop (result : List Core.BenchmarkDescriptor × List String) :
      ∃ kept lines, benchmarks.foldlM (keepCompatible parseInt jvmVersion) result =
          .ok (result.1 ++ kept, lines) ∧ kept.Sublist benchmarks ∧
        ∀ b, b ∈ kept ↔ b ∈ benchmarks ∧ b.Compatible parseInt jvmVersion := by
    induction benchmarks generalizing result with
    | nil => exact ⟨[], result.2, by simp [pure, Except.pure], List.Sublist.refl _, by simp⟩
    | cons b benchmarks ih =>
        obtain ⟨first, lines, step, sub, mem⟩ :=
          keepCompatible_ok jvmVersion (wellFormed b List.mem_cons_self) result
        obtain ⟨kept, lines', rest, sub', mem'⟩ :=
          ih (fun other later => wellFormed other (List.mem_cons_of_mem b later))
            (result.1 ++ first, lines)
        refine ⟨first ++ kept, lines', ?_, sub.append sub', fun x => ?_⟩
        · rw [Fallible.foldlM_cons_ok]
          exact ⟨_, step, by rw [rest, List.append_assoc]⟩
        · rw [List.mem_append, mem, mem', List.mem_cons]
          constructor
          · rintro (⟨rfl, compatible⟩ | ⟨later, compatible⟩)
            · exact ⟨.inl rfl, compatible⟩
            · exact ⟨.inr later, compatible⟩
          · rintro ⟨rfl | later, compatible⟩
            · exact .inl ⟨rfl, compatible⟩
            · exact .inr ⟨later, compatible⟩
  obtain ⟨kept, lines, done, sub, mem⟩ := loop ([], [])
  exact ⟨kept, lines, by rw [excludeIncompatible, done]; rfl, sub, mem⟩

variable (jvmVersion) in
/-- What is selected and then kept. -/
theorem selected_kept (wellFormed : ∀ b ∈ suite.values, b.WellFormed parseInt)
    (known : ∀ specifier ∈ specifiers, Known suite specifier) :
    ∃ selected result lines, selectBenchmarks suite specifiers = .ok selected ∧
      excludeIncompatible parseInt jvmVersion selected = .ok (result, lines) ∧
      Selects parseInt suite jvmVersion specifiers result := by
  have each : ∀ b ∈ addAllEach (denoted suite) specifiers, b.WellFormed parseInt := by
    intro b mem
    obtain ⟨specifier, -, denotes⟩ := mem_addAllEach.mp mem
    exact wellFormed b (mem_denoted.mp denotes).1
  obtain ⟨result, lines, kept, sub, mem⟩ := excludeIncompatible_ok jvmVersion each
  refine ⟨_, result, lines, selectBenchmarks_ok wellFormed known, kept, ?_, fun b => ?_, ?_⟩
  · exact (nodup_addAllEach (denoted suite) specifiers).sublist sub
  · rw [mem, mem_addAllEach, and_comm]
    simp only [mem_denoted]
  · have ordered := (pairwise_addAllEach (denoted suite) specifiers).sublist sub
    simpa only [firstSource_denoted] using ordered

/-- What `main` goes on with once the selection has succeeded. -/
theorem mainBenchmarks_ok (wellFormed : ∀ b ∈ suite.values, b.WellFormed parseInt) (checkJvm : Bool)
    (some : specifiers ≠ []) {selected result : List Core.BenchmarkDescriptor} {lines : List String}
    (all : selectBenchmarks suite specifiers = .ok selected)
    (kept : excludeIncompatible parseInt jvmVersion selected = .ok (result, lines)) :
    mainBenchmarks parseInt suite jvmVersion checkJvm specifiers =
      .ok (if checkJvm then result else selected) := by
  obtain ⟨first, others, rfl⟩ := List.exists_cons_of_ne_nil some
  rw [mainBenchmarks, realBenchmarks_ok wellFormed, all]
  cases checkJvm with
  | false => rfl
  | true =>
      show (do return (← excludeIncompatible parseInt jvmVersion selected).1) = _
      rw [kept]
      rfl

/-- The harness exits if and only if a specifier is not known. -/
theorem mainBenchmarks_exit_iff (wellFormed : ∀ b ∈ suite.values, b.WellFormed parseInt)
    (checkJvm : Bool) :
    (∃ line, mainBenchmarks parseInt suite jvmVersion checkJvm specifiers = .error (.exit line)) ↔
      ∃ specifier ∈ specifiers, ¬Known suite specifier := by
  constructor
  · rintro ⟨line, exits⟩
    by_contra none
    have known : ∀ specifier ∈ specifiers, Known suite specifier := by
      simpa using none
    obtain ⟨selected, result, lines, all, kept, -⟩ :=
      selected_kept jvmVersion wellFormed known
    cases specifiers with
    | nil =>
        rw [mainBenchmarks, realBenchmarks_ok wellFormed] at exits
        cases exits
    | cons first others =>
        rw [mainBenchmarks_ok wellFormed checkJvm (List.cons_ne_nil _ _) all kept] at exits
        cases exits
  · intro unknown
    obtain ⟨line, exits⟩ := selectBenchmarks_exit wellFormed unknown
    refine ⟨line, ?_⟩
    have nonempty : specifiers.isEmpty = false := by
      obtain ⟨specifier, mem, -⟩ := unknown
      exact List.isEmpty_eq_false_iff_exists_mem.mpr ⟨specifier, mem⟩
    rw [mainBenchmarks, realBenchmarks_ok wellFormed, exits, nonempty]
    rfl

/-- For metadata that can be read: where every specifier is known, `selectBenchmarks` followed by
`excludeIncompatible` selects the benchmarks for the JVM, and the harness goes on with them. It exits
before if and only if a specifier is not known. -/
theorem selectBenchmarks_selects (parseInt : String → Option ℤ)
    (order : IterationOrder (String × Core.BenchmarkDescriptor))
    (metadata parameterOverrides : List (String × String))
    (wellFormed : ∀ b ∈ (BenchmarkSuite.create order metadata parameterOverrides).values,
      b.WellFormed parseInt) (jvmVersion : Version) (specifiers : List String) :
    let suite := BenchmarkSuite.create order metadata parameterOverrides
    ((∀ specifier ∈ specifiers, Known suite specifier) →
      ∃ selected result lines, selectBenchmarks suite specifiers = .ok selected ∧
        excludeIncompatible parseInt jvmVersion selected = .ok (result, lines) ∧
        Selects parseInt suite jvmVersion specifiers result ∧
        (specifiers ≠ [] →
          mainBenchmarks parseInt suite jvmVersion true specifiers = .ok result)) ∧
      ∀ checkJvm,
        (∃ line, mainBenchmarks parseInt suite jvmVersion checkJvm specifiers =
          .error (.exit line)) ↔ ∃ specifier ∈ specifiers, ¬Known suite specifier := by
  intro suite
  refine ⟨fun known => ?_, mainBenchmarks_exit_iff wellFormed⟩
  obtain ⟨selected, result, lines, all, kept, selects⟩ :=
    selected_kept jvmVersion wellFormed known
  exact ⟨selected, result, lines, all, kept, selects,
    fun some => mainBenchmarks_ok wellFormed true some all kept⟩

/-- Decimal digits. -/
def parseDigits (text : String) : Option ℤ :=
  if text.toList ≠ [] ∧ text.toList.all Char.isDigit then
    some (text.toList.foldl (fun n c => 10 * n + (c.toNat - '0'.toNat)) 0)
  else none

def java8 : Version := ⟨[1, 8], by decide⟩

/-- Two benchmarks, of which one is a dummy. -/
def metadata : List (String × String) :=
  [("benchmark.scrabble.name", "scrabble"), ("benchmark.scrabble.groups", "jdk-streams, java8"),
    ("benchmark.scrabble.jvm_version_min", "1.8"), ("benchmark.dummy-empty.name", "dummy-empty"),
    ("benchmark.dummy-empty.groups", "dummy"), ("benchmark.dummy-empty.jvm_version_min", "")]

theorem metadata_wellFormed : ∀ b ∈ (BenchmarkSuite.create (.insertion _) metadata []).values,
    b.WellFormed parseDigits := by
  have values : (BenchmarkSuite.create (.insertion _) metadata []).values =
      [⟨"dummy-empty", metadata, []⟩, ⟨"scrabble", metadata, []⟩] := by
    decide +kernel
  intro b mem
  rw [values] at mem
  rcases List.mem_cons.mp mem with rfl | mem
  · exact ⟨⟨_, rfl⟩, ⟨_, rfl⟩, ⟨_, rfl⟩⟩
  · obtain rfl := List.mem_singleton.mp mem
    exact ⟨⟨_, rfl⟩, ⟨_, rfl⟩, ⟨_, rfl⟩⟩

theorem selectBenchmarks_selects_java8 :
    let suite := BenchmarkSuite.create (.insertion _) metadata []
    let specifiers := ["java8", "all", "scrabble"]
    ((∀ specifier ∈ specifiers, Known suite specifier) →
      ∃ selected result lines, selectBenchmarks suite specifiers = .ok selected ∧
        excludeIncompatible parseDigits java8 selected = .ok (result, lines) ∧
        Selects parseDigits suite java8 specifiers result ∧
        (specifiers ≠ [] →
          mainBenchmarks parseDigits suite java8 true specifiers = .ok result)) ∧
      ∀ checkJvm,
        (∃ line, mainBenchmarks parseDigits suite java8 checkJvm specifiers =
          .error (.exit line)) ↔ ∃ specifier ∈ specifiers, ¬Known suite specifier :=
  selectBenchmarks_selects parseDigits (.insertion _) metadata [] metadata_wellFormed java8
    ["java8", "all", "scrabble"]

/-- Metadata with nothing but a dummy. -/
def dummies : List (String × String) :=
  [("benchmark.dummy-empty.name", "dummy-empty"), ("benchmark.dummy-empty.groups", "dummy")]

/-- Metadata with a benchmark that has no groups. -/
def ungrouped : List (String × String) :=
  [("benchmark.als.name", "als"), ("benchmark.scrabble.name", "scrabble"),
    ("benchmark.scrabble.groups", "jdk-streams")]

/-- The keyword may denote nothing without an exit, and a group cannot be selected while a benchmark
has no groups. -/
theorem selection_of_incomplete_metadata :
    (∃ specifier ∈ ["all"],
      ∀ b, ¬Denotes (BenchmarkSuite.create (.insertion _) dummies []) specifier b) ∧
    (¬∃ line, mainBenchmarks parseDigits (BenchmarkSuite.create (.insertion _) dummies []) java8 true
      ["all"] = .error (.exit line)) ∧
    (∀ specifier ∈ ["jdk-streams"],
      ∃ b, Denotes (BenchmarkSuite.create (.insertion _) ungrouped []) specifier b) ∧
    ¬∃ selected, selectBenchmarks (BenchmarkSuite.create (.insertion _) ungrouped [])
      ["jdk-streams"] = .ok selected := by
  have none : mainBenchmarks parseDigits (BenchmarkSuite.create (.insertion _) dummies []) java8 true
      ["all"] = .ok [] := by
    decide +kernel
  have fails : selectBenchmarks (BenchmarkSuite.create (.insertion _) ungrouped []) ["jdk-streams"] =
      .error (.exception "benchmark 'als' has no such setting: groups") := by
    decide +kernel
  have empty : denoted (BenchmarkSuite.create (.insertion _) dummies []) "all" = [] := by
    decide +kernel
  have listed : ⟨"scrabble", ungrouped, []⟩ ∈
      denoted (BenchmarkSuite.create (.insertion _) ungrouped []) "jdk-streams" := by
    decide +kernel
  refine ⟨⟨"all", by simp, fun b denotes => ?_⟩, ?_, fun specifier mem => ?_, ?_⟩
  · rw [← mem_denoted, empty] at denotes
    cases denotes
  · rintro ⟨line, exits⟩
    rw [none] at exits
    cases exits
  · obtain rfl := List.mem_singleton.mp mem
    exact ⟨_, mem_denoted.mp listed⟩
  · rintro ⟨selected, done⟩
    rw [fails] at done
    cases done

end Renaissance.Selection
