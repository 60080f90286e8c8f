import Renaissance.Harness.SelectedBenchmarks

/-!
# The order of the benchmarks

The suite is made from a sorted set of names, but the descriptors are kept in a map that enumerates them in
an order of its own. `benchmarks_ascending_iff` says which lists of benchmarks are sorted nevertheless.
-/

namespace Renaissance.Selection

open JavaCollections Renaissance.Core

section Lists

variable (parseInt : String → Option ℤ) (suite : BenchmarkSuite) (jvmVersion : Version)

/-- The part of `main` that finds the benchmarks to print, for the list or for the raw list. -/
def listedBenchmarks (printRawList checkJvm : Bool) :
    Except Ending (List Core.BenchmarkDescriptor) := do
  let realBenchmarks ← thrown (suite.getMatchingBenchmarks benchmarkIsReal)
  if printRawList && checkJvm then
    thrown (realBenchmarks.filterM (BenchmarkSuite.isBenchmarkCompatible parseInt jvmVersion))
  else pure realBenchmarks

end Lists

/-! ## Sorted lists -/

/-- Every name is less than the next ones, as `compareTo` has it. -/
def Ascending (benchmarks : List Core.BenchmarkDescriptor) : Prop :=
  benchmarks.Pairwise fun b b' => utf16 b.benchmarkName < utf16 b'.benchmarkName

variable (metadata parameterOverrides : List (String × String))

/-- The benchmarks of the metadata by their names. -/
def descriptors : List Core.BenchmarkDescriptor :=
  (benchmarkNames metadata).map fun name => ⟨name, metadata, parameterOverrides⟩

/-- The matcher returns `true`. -/
def matched (matcher : Core.BenchmarkDescriptor → Except String Bool)
    (b : Core.BenchmarkDescriptor) : Bool :=
  match matcher b with
  | .ok isMatch => isMatch
  | .error _ => false

/-- Without a check of the JVM, every benchmark is fine. -/
def fits (parseInt : String → Option ℤ) (jvmVersion : Version) (check : Bool)
    (b : Core.BenchmarkDescriptor) : Bool :=
  !check || matched (BenchmarkSuite.isBenchmarkCompatible parseInt jvmVersion) b

/-- The benchmarks of a group, or all but the dummy ones. -/
def chosen (specifier : String) (b : Core.BenchmarkDescriptor) : Bool :=
  if (descriptors metadata parameterOverrides).any (·.inGroup specifier) then b.inGroup specifier
  else !b.inGroup "dummy"

variable {metadata parameterOverrides} {order : IterationOrder (String × Core.BenchmarkDescriptor)}

theorem values_create (metadata parameterOverrides : List (String × String))
    (order : IterationOrder (String × Core.BenchmarkDescriptor)) :
    (BenchmarkSuite.create order metadata parameterOverrides).values.Perm
      (descriptors metadata parameterOverrides) := by
  have entries := (order.perm (createBenchmarkDescriptors metadata parameterOverrides)).map Prod.snd
  rwa [createBenchmarkDescriptors, List.map_map] at entries

theorem values_reversed :
    (BenchmarkSuite.create (.reversed _) metadata parameterOverrides).values =
      (descriptors metadata parameterOverrides).reverse := by
  rw [BenchmarkSuite.values, descriptors, ← List.map_reverse]
  show ((createBenchmarkDescriptors metadata parameterOverrides).reverse).map Prod.snd = _
  rw [createBenchmarkDescriptors, ← List.map_reverse, List.map_map]
  rfl

theorem pairwise_descriptors (metadata parameterOverrides : List (String × String)) :
    (descriptors metadata parameterOverrides).Pairwise fun b b' =>
      utf16 b.benchmarkName ≤ utf16 b'.benchmarkName :=
  List.pairwise_map.mpr (pairwise_sorted _)

/-- In the order of a hash-based collection, only a list of at most one benchmark is surely sorted. -/
theorem ascending_filter_iff (p : Core.BenchmarkDescriptor → Bool) :
    (∀ order, Ascending ((BenchmarkSuite.create order metadata parameterOverrides).values.filter p)) ↔
      ((descriptors metadata parameterOverrides).filter p).length ≤ 1 := by
  constructor
  · intro ascending
    have backwards := ascending (.reversed _)
    rw [values_reversed, Ascending, List.filter_reverse, List.pairwise_reverse] at backwards
    have forwards := (pairwise_descriptors metadata parameterOverrides).filter p
    match (descriptors metadata parameterOverrides).filter p, backwards, forwards with
    | [], _, _ => exact Nat.zero_le 1
    | [_], _, _ => exact Nat.le_refl 1
    | first :: second :: _, backwards, forwards =>
        have greater := (List.pairwise_cons.mp backwards).1 second List.mem_cons_self
        have atMost := (List.pairwise_cons.mp forwards).1 second List.mem_cons_self
        exact absurd greater (not_lt_of_ge atMost)
  · intro short order
    rw [← ((values_create _ _ order).filter p).length_eq] at short
    rw [Ascending]
    match (BenchmarkSuite.create order metadata parameterOverrides).values.filter p, short with
    | [], _ => exact .nil
    | [b], _ => exact List.pairwise_singleton _ b

/-! ## The lists of the harness -/

theorem nodup_values (metadata parameterOverrides : List (String × String))
    (order : IterationOrder (String × Core.BenchmarkDescriptor)) :
    (BenchmarkSuite.create order metadata parameterOverrides).values.Nodup := by
  refine (values_create _ _ order).nodup_iff.mpr ?_
  refine (nodup_benchmarkNames metadata).map_on fun name _ name' _ same => ?_
  exact congrArg Core.BenchmarkDescriptor.benchmarkName same

theorem matched_iff {matcher : Core.BenchmarkDescriptor → Except String Bool}
    {b : Core.BenchmarkDescriptor} : matched matcher b = true ↔ matcher b = .ok true := by
  unfold matched
  cases matcher b <;> simp

theorem getMatchingBenchmarks_ok {matcher : Core.BenchmarkDescriptor → Except String Bool}
    (answers : ∀ b ∈ descriptors metadata parameterOverrides, ∃ isMatch, matcher b = .ok isMatch)
    (order : IterationOrder (String × Core.BenchmarkDescriptor)) :
    (BenchmarkSuite.create order metadata parameterOverrides).getMatchingBenchmarks matcher =
      .ok ((BenchmarkSuite.create order metadata parameterOverrides).values.filter
        (matched matcher)) := by
  refine Fallible.filterM_ok fun b mem => ?_
  obtain ⟨isMatch, found⟩ := answers b ((values_create _ _ order).mem_iff.mp mem)
  rw [matched, found]

theorem getMatchingBenchmarks_ascending_iff (metadata parameterOverrides : List (String × String))
    (matcher : Core.BenchmarkDescriptor → Except String Bool) :
    (∀ order, ∃ result,
      (BenchmarkSuite.create order metadata parameterOverrides).getMatchingBenchmarks matcher =
        .ok result ∧ Ascending result ∧
      ∀ b, b ∈ result ↔ b ∈ descriptors metadata parameterOverrides ∧ matcher b = .ok true) ↔
      (∀ b ∈ descriptors metadata parameterOverrides, ∃ isMatch, matcher b = .ok isMatch) ∧
        ((descriptors metadata parameterOverrides).filter (matched matcher)).length ≤ 1 := by
  constructor
  · intro sorted'
    have answers : ∀ b ∈ descriptors metadata parameterOverrides,
        ∃ isMatch, matcher b = .ok isMatch := by
      obtain ⟨result, found, -⟩ := sorted' (.insertion _)
      exact fun b mem =>
        Fallible.exists_ok_of_filterM found b ((values_create _ _ (.insertion _)).mem_iff.mpr mem)
    refine ⟨answers, (ascending_filter_iff _).mp fun order => ?_⟩
    obtain ⟨result, found, ascending, -⟩ := sorted' order
    rw [getMatchingBenchmarks_ok answers] at found
    cases found
    exact ascending
  · rintro ⟨answers, short⟩ order
    refine ⟨_, getMatchingBenchmarks_ok answers order, (ascending_filter_iff _).mpr short order,
      fun b => ?_⟩
    rw [List.mem_filter, matched_iff, (values_create _ _ order).mem_iff]

theorem denoted_create (order : IterationOrder (String × Core.BenchmarkDescriptor))
    {specifier : String} (unnamed : specifier ∉ benchmarkNames metadata)
    (several : (descriptors metadata parameterOverrides).any (·.inGroup specifier) = true ∨
      specifier = "all") :
    denoted (BenchmarkSuite.create order metadata parameterOverrides) specifier =
      (BenchmarkSuite.create order metadata parameterOverrides).values.filter
        (chosen metadata parameterOverrides specifier) := by
  have members := values_create metadata parameterOverrides order
  have unknown : ¬(BenchmarkSuite.create order metadata parameterOverrides).hasBenchmark specifier =
      true := by
    rw [hasBenchmark_iff]
    rintro ⟨b, mem, same⟩
    obtain ⟨name, listed, rfl⟩ := List.mem_map.mp (members.mem_iff.mp mem)
    exact unnamed (same ▸ listed)
  rw [denoted, if_neg unknown, members.any_eq]
  by_cases group : (descriptors metadata parameterOverrides).any (·.inGroup specifier) = true
  · rw [if_pos group]
    refine List.filter_congr fun b _ => ?_
    rw [chosen, if_pos group]
  · rw [if_neg group, if_pos (several.resolve_left group)]
    refine List.filter_congr fun b _ => ?_
    rw [chosen, if_neg group]

theorem eq_filter_of_sublist {xs ys : List Core.BenchmarkDescriptor}
    {p : Core.BenchmarkDescriptor → Bool} (sub : ys.Sublist xs) (distinct : xs.Nodup)
    (mem : ∀ b, b ∈ ys ↔ b ∈ xs ∧ p b = true) : ys = xs.filter p := by
  have kept : ys.filter p = ys := List.filter_eq_self.mpr fun b listed => ((mem b).mp listed).2
  have within : ys.Sublist (xs.filter p) := kept ▸ sub.filter p
  have members : ys.Perm (xs.filter p) :=
    (List.perm_ext_iff_of_nodup (distinct.sublist sub) (distinct.filter p)).mpr fun b => by
      rw [mem, List.mem_filter]
  exact within.eq_of_length members.length_eq

section WellFormed

variable {parseInt : String → Option ℤ}
  (wellFormed : ∀ b ∈ descriptors metadata parameterOverrides, b.WellFormed parseInt)
  (order : IterationOrder (String × Core.BenchmarkDescriptor)) (jvmVersion : Version)

include wellFormed

theorem wellFormed_values : ∀ b ∈ (BenchmarkSuite.create order metadata parameterOverrides).values,
    b.WellFormed parseInt :=
  fun b mem => wellFormed b ((values_create _ _ order).mem_iff.mp mem)

theorem isBenchmarkCompatible_eq (jvmVersion : Version) {b : Core.BenchmarkDescriptor}
    (mem : b ∈ descriptors metadata parameterOverrides) :
    BenchmarkSuite.isBenchmarkCompatible parseInt jvmVersion b =
        .ok (fits parseInt jvmVersion true b) ∧
      (fits parseInt jvmVersion true b = true ↔ b.Compatible parseInt jvmVersion) := by
  obtain ⟨isCompatible, decided, iff⟩ := isBenchmarkCompatible_ok jvmVersion (wellFormed b mem)
  have same : fits parseInt jvmVersion true b = isCompatible := by
    rw [fits, matched, decided]
    rfl
  rw [same]
  exact ⟨decided, iff⟩

theorem listedBenchmarks_ok (printRawList checkJvm : Bool) :
    listedBenchmarks parseInt (BenchmarkSuite.create order metadata parameterOverrides) jvmVersion
        printRawList checkJvm =
      .ok ((BenchmarkSuite.create order metadata parameterOverrides).values.filter fun b =>
        !b.inGroup "dummy" && fits parseInt jvmVersion (printRawList && checkJvm) b) := by
  rw [listedBenchmarks, realBenchmarks_ok (wellFormed_values wellFormed order)]
  cases check : printRawList && checkJvm with
  | false => simp [thrown, fits, Except.mapError, bind, Except.bind, pure, Except.pure]
  | true =>
      have filtered : ((BenchmarkSuite.create order metadata parameterOverrides).values.filter
          fun b => !b.inGroup "dummy").filterM
            (BenchmarkSuite.isBenchmarkCompatible parseInt jvmVersion) =
          .ok (((BenchmarkSuite.create order metadata parameterOverrides).values.filter
            fun b => !b.inGroup "dummy").filter (fits parseInt jvmVersion true)) := by
        refine Fallible.filterM_ok fun b mem => ?_
        have listed := (values_create _ _ order).mem_iff.mp (List.mem_filter.mp mem).1
        exact (isBenchmarkCompatible_eq wellFormed jvmVersion listed).1
      show thrown (List.filterM _ _) = _
      rw [filtered, List.filter_filter]
      simp only [thrown, Except.mapError, Bool.and_comm]

theorem mainBenchmarks_single (checkJvm : Bool) {specifier : String}
    (unnamed : specifier ∉ benchmarkNames metadata)
    (several : (descriptors metadata parameterOverrides).any (·.inGroup specifier) = true ∨
      specifier = "all") :
    mainBenchmarks parseInt (BenchmarkSuite.create order metadata parameterOverrides) jvmVersion
        checkJvm [specifier] =
      .ok ((BenchmarkSuite.create order metadata parameterOverrides).values.filter fun b =>
        chosen metadata parameterOverrides specifier b && fits parseInt jvmVersion checkJvm b) := by
  have readable := wellFormed_values wellFormed order
  have members := values_create metadata parameterOverrides order
  have known : ∀ other ∈ [specifier],
      Known (BenchmarkSuite.create order metadata parameterOverrides) other := by
    intro other mem
    obtain rfl := List.mem_singleton.mp mem
    refine .inr (several.imp_left fun group => ?_)
    rwa [← members.any_eq, List.any_eq_true] at group
  have distinct := (nodup_values metadata parameterOverrides order).filter
    (chosen metadata parameterOverrides specifier)
  have selected : selectBenchmarks (BenchmarkSuite.create order metadata parameterOverrides)
      [specifier] = .ok ((BenchmarkSuite.create order metadata parameterOverrides).values.filter
        (chosen metadata parameterOverrides specifier)) := by
    rw [selectBenchmarks_ok readable known, addAllEach, List.foldl_cons, List.foldl_nil,
      denoted_create order unnamed several, addAll_of_nodup distinct, List.nil_append]
  obtain ⟨result, lines, kept, sub, mem⟩ := excludeIncompatible_ok jvmVersion
    fun b listed => readable b (List.mem_filter.mp listed).1
  have compatible := eq_filter_of_sublist (p := fits parseInt jvmVersion true) sub distinct
    fun b => by
      rw [mem]
      refine and_congr_right fun listed => ?_
      have inSuite := members.mem_iff.mp (List.mem_filter.mp listed).1
      exact (isBenchmarkCompatible_eq wellFormed jvmVersion inSuite).2.symm
  rw [mainBenchmarks_ok readable checkJvm (List.cons_ne_nil _ _) selected kept, compatible]
  cases checkJvm with
  | false => simp [fits]
  | true =>
      rw [if_pos rfl, List.filter_filter]
      simp only [Bool.and_comm]

end WellFormed

theorem ascending_ok_iff {ε : Type} (p : Core.BenchmarkDescriptor → Bool)
    {found : IterationOrder (String × Core.BenchmarkDescriptor) →
      Except ε (List Core.BenchmarkDescriptor)}
    (filters : ∀ order, found order =
      .ok ((BenchmarkSuite.create order metadata parameterOverrides).values.filter p)) :
    (∀ order, ∃ result, found order = .ok result ∧ Ascending result) ↔
      ((descriptors metadata parameterOverrides).filter p).length ≤ 1 := by
  rw [← ascending_filter_iff]
  refine forall_congr' fun order => ?_
  rw [filters]
  constructor
  · rintro ⟨result, same, ascending⟩
    cases same
    exact ascending
  · exact fun ascending => ⟨_, rfl, ascending⟩

/-- Whatever a hash-based map does with the sorted names, a list of matching benchmarks is sorted only if at
most one benchmark matches. The same goes for the lists that the harness prints, and for the benchmarks that
it runs for a group or for the keyword. -/
theorem benchmarks_ascending_iff (metadata parameterOverrides : List (String × String))
    (parseInt : String → Option ℤ) (jvmVersion : Version) :
    (∀ matcher : Core.BenchmarkDescriptor → Except String Bool,
      (∀ order, ∃ result,
        (BenchmarkSuite.create order metadata parameterOverrides).getMatchingBenchmarks matcher =
          .ok result ∧ Ascending result ∧
        ∀ b, b ∈ result ↔ b ∈ descriptors metadata parameterOverrides ∧ matcher b = .ok true) ↔
        (∀ b ∈ descriptors metadata parameterOverrides, ∃ isMatch, matcher b = .ok isMatch) ∧
          ((descriptors metadata parameterOverrides).filter (matched matcher)).length ≤ 1) ∧
    ((∀ b ∈ descriptors metadata parameterOverrides, b.WellFormed parseInt) →
      (∀ printRawList checkJvm,
        (∀ order, ∃ listed,
          listedBenchmarks parseInt (BenchmarkSuite.create order metadata parameterOverrides)
            jvmVersion printRawList checkJvm = .ok listed ∧ Ascending listed) ↔
          ((descriptors metadata parameterOverrides).filter fun b => !b.inGroup "dummy" &&
            fits parseInt jvmVersion (printRawList && checkJvm) b).length ≤ 1) ∧
      ∀ checkJvm, ∀ specifier ∉ benchmarkNames metadata,
        ((descriptors metadata parameterOverrides).any (·.inGroup specifier) = true ∨
          specifier = "all") →
        ((∀ order, ∃ benchmarks,
          mainBenchmarks parseInt (BenchmarkSuite.create order metadata parameterOverrides)
            jvmVersion checkJvm [specifier] = .ok benchmarks ∧ Ascending benchmarks) ↔
          ((descriptors metadata parameterOverrides).filter fun b =>
            chosen metadata parameterOverrides specifier b &&
              fits parseInt jvmVersion checkJvm b).length ≤ 1)) := by
  refine ⟨getMatchingBenchmarks_ascending_iff metadata parameterOverrides, fun wellFormed => ⟨?_, ?_⟩⟩
  · intro printRawList checkJvm
    exact ascending_ok_iff _ fun order =>
      listedBenchmarks_ok wellFormed order jvmVersion printRawList checkJvm
  · intro checkJvm specifier unnamed several
    exact ascending_ok_iff _ fun order =>
      mainBenchmarks_single wellFormed order jvmVersion checkJvm unnamed several

theorem benchmarks_ascending_iff_java8 :
    (∀ order, ∃ listed,
      listedBenchmarks parseDigits (BenchmarkSuite.create order Selection.metadata []) java8 true
        true = .ok listed ∧ Ascending listed) ↔
      ((descriptors Selection.metadata []).filter fun b => !b.inGroup "dummy" &&
        fits parseDigits java8 (true && true) b).length ≤ 1 :=
  ((benchmarks_ascending_iff Selection.metadata [] parseDigits java8).2 fun b mem =>
    metadata_wellFormed b ((values_create _ _ _).mem_iff.mpr mem)).1 true true

/-- Benchmarks that a table with 16 buckets enumerates with `p` before `a`. -/
def twoBenchmarks : List (String × String) :=
  [("benchmark.a.name", "a"), ("benchmark.p.name", "p")]

theorem twoBenchmarks_not_ascending :
    ¬∀ (order : IterationOrder (String × Core.BenchmarkDescriptor))
      (metadata parameterOverrides : List (String × String))
      (matcher : Core.BenchmarkDescriptor → Except String Bool),
      (∀ b ∈ descriptors metadata parameterOverrides, ∃ isMatch, matcher b = .ok isMatch) →
      ∃ result,
        (BenchmarkSuite.create order metadata parameterOverrides).getMatchingBenchmarks matcher =
          .ok result ∧ Ascending result ∧
        ∀ b, b ∈ result ↔ b ∈ descriptors metadata parameterOverrides ∧ matcher b = .ok true := by
  intro ascending
  have short := (getMatchingBenchmarks_ascending_iff twoBenchmarks [] fun _ => .ok true).mp
    fun order => ascending order twoBenchmarks [] (fun _ => .ok true) fun _ _ => ⟨true, rfl⟩
  exact absurd short.2 (by decide +kernel)

end Renaissance.Selection
