import Renaissance.Harness.ResultWriter

/-!
# What a result writer has been told

A writer is a state machine that its notifications drive. Its hash maps hold the recorded values, and
`recorded` says what these are in terms of the notifications alone.

Results:
1. `values_collect`, `failed_collect`: the maps of a writer are what it was told, nothing more and
   nothing less.
2. `mem_sizes_iff`, `checkBenchmarkResults_iff`: the sanity check compares how often each metric of
   each benchmark was reported.
-/

namespace Renaissance

/-- The values that a notification reports for a metric of a benchmark. -/
def Notification.values (benchmark metric : String) : Notification → List Int
  | .onMeasurementResult b m value => if b = benchmark ∧ m = metric then [value] else []
  | _ => []

/-- The benchmark whose failure a notification reports. -/
def Notification.failure? : Notification → Option String
  | .onBenchmarkFailure b => some b
  | _ => none

/-- The values reported for a metric of a benchmark, in order. -/
def recorded (ns : List Notification) (benchmark metric : String) : List Int :=
  ns.flatMap (Notification.values benchmark metric)

/-- The benchmarks reported to have failed. -/
def failures (ns : List Notification) : List String :=
  ns.filterMap Notification.failure?

theorem recorded_append (ns ns' : List Notification) (b m : String) :
    recorded (ns ++ ns') b m = recorded ns b m ++ recorded ns' b m :=
  List.flatMap_append ..

theorem mem_recorded_iff (ns : List Notification) (b m : String) (value : Int) :
    value ∈ recorded ns b m ↔ .onMeasurementResult b m value ∈ ns := by
  simp only [recorded, List.mem_flatMap]
  constructor
  · rintro ⟨n, mem, reported⟩
    cases n with
    | onMeasurementResult b' m' value' =>
        simp only [Notification.values] at reported
        split at reported
        · rename_i same
          obtain rfl := List.mem_singleton.mp reported
          obtain ⟨rfl, rfl⟩ := same
          exact mem
        · cases reported
    | _ => cases reported
  · intro mem
    exact ⟨_, mem, by simp [Notification.values]⟩

namespace ResultWriter

/-- What the listener methods do to the writer. -/
def notified (writer : ResultWriter) : Notification → ResultWriter
  | .onMeasurementResult benchmark metric value => writer.onMeasurementResult benchmark metric value
  | .onBenchmarkFailure benchmark => writer.onBenchmarkFailure benchmark
  | .beforeHarnessShutdown => { writer with storeHook := false }
  | _ => writer

/-- A new writer after the given notifications. -/
def collect (kind : WriterKind) (ns : List Notification) : ResultWriter :=
  ns.foldl notified { kind }

/-- The values held for a metric of a benchmark; none if there is no entry. -/
def values (writer : ResultWriter) (benchmark metric : String) : List Int :=
  ((writer.resultsByBenchmarkName.lookup benchmark).bind (AList.lookup metric)).getD []

/-- There is no entry without a value: both maps are only ever filled together with a first value. -/
structure Filled (results : ResultsByBenchmarkName) : Prop where
  metrics : ∀ b metrics, results.lookup b = some metrics → metrics ≠ ∅
  values : ∀ b metrics m values, results.lookup b = some metrics → metrics.lookup m = some values →
    values ≠ []

theorem filled_empty : Filled ∅ where
  metrics := by simp
  values := by simp

variable {writer : ResultWriter}

theorem values_onMeasurementResult (b m : String) (value : Int) (benchmark metric : String) :
    (writer.onMeasurementResult b m value).values benchmark metric =
      writer.values benchmark metric ++ if b = benchmark ∧ m = metric then [value] else [] := by
  by_cases hb : benchmark = b
  · subst hb
    by_cases hm : metric = m
    · subst hm
      cases h : writer.resultsByBenchmarkName.lookup benchmark <;>
        simp [values, onMeasurementResult, h, -AList.insert_empty]
    · have : ¬ m = metric := fun same => hm same.symm
      cases h : writer.resultsByBenchmarkName.lookup benchmark <;>
        simp [values, onMeasurementResult, AList.lookup_insert_ne hm, this, h, -AList.insert_empty]
  · have : ¬ b = benchmark := fun same => hb same.symm
    simp [values, onMeasurementResult, AList.lookup_insert_ne hb, this]

theorem values_notified (n : Notification) (b m : String) :
    (writer.notified n).values b m = writer.values b m ++ n.values b m := by
  cases n with
  | onMeasurementResult benchmark metric value => exact values_onMeasurementResult ..
  | _ => simp [notified, Notification.values, values, onBenchmarkFailure]

theorem filled_notified (filled : Filled writer.resultsByBenchmarkName) (n : Notification) :
    Filled (writer.notified n).resultsByBenchmarkName := by
  cases n with
  | onMeasurementResult b m value =>
      constructor
      · intro benchmark metrics found
        by_cases same : benchmark = b
        · subst same
          simp only [notified, onMeasurementResult, AList.lookup_insert, Option.some.injEq] at found
          rw [← found]
          intro empty
          have := congrArg (AList.lookup m) empty
          simp at this
        · simp only [notified, onMeasurementResult, AList.lookup_insert_ne same] at found
          exact filled.metrics benchmark metrics found
      · intro benchmark metrics metric values found foundValues
        by_cases same : benchmark = b
        · subst same
          simp only [notified, onMeasurementResult, AList.lookup_insert, Option.some.injEq] at found
          subst found
          by_cases sameMetric : metric = m
          · subst sameMetric
            simp only [AList.lookup_insert, Option.some.injEq] at foundValues
            rw [← foundValues]
            simp
          · rw [AList.lookup_insert_ne sameMetric] at foundValues
            cases old : writer.resultsByBenchmarkName.lookup benchmark with
            | none => simp [old] at foundValues
            | some oldMetrics =>
                rw [old] at foundValues
                exact filled.values benchmark oldMetrics metric values old foundValues
        · simp only [notified, onMeasurementResult, AList.lookup_insert_ne same] at found
          exact filled.values benchmark metrics metric values found foundValues
  | _ => exact filled

theorem failed_notified (n : Notification) (b : String) :
    b ∈ (writer.notified n).failedBenchmarkNames ↔
      b ∈ writer.failedBenchmarkNames ∨ n.failure? = some b := by
  cases n with
  | onBenchmarkFailure benchmark =>
      simp [notified, onBenchmarkFailure, Notification.failure?, or_comm, eq_comm]
  | _ => simp [notified, Notification.failure?, onMeasurementResult]

/-! ## Whole streams of notifications -/

theorem values_foldl (ns : List Notification) (b m : String) :
    (ns.foldl notified writer).values b m = writer.values b m ++ recorded ns b m := by
  induction ns generalizing writer with
  | nil => simp [recorded]
  | cons n ns ih =>
      rw [List.foldl_cons, ih, values_notified, List.append_assoc]
      rfl

theorem filled_foldl (filled : Filled writer.resultsByBenchmarkName) (ns : List Notification) :
    Filled (ns.foldl notified writer).resultsByBenchmarkName := by
  induction ns generalizing writer with
  | nil => exact filled
  | cons n ns ih => exact ih (filled_notified filled n)

theorem failed_foldl (ns : List Notification) (b : String) :
    b ∈ (ns.foldl notified writer).failedBenchmarkNames ↔
      b ∈ writer.failedBenchmarkNames ∨ b ∈ failures ns := by
  induction ns generalizing writer with
  | nil => simp [failures]
  | cons n ns ih =>
      rw [List.foldl_cons, ih, failed_notified, failures, failures, List.mem_filterMap,
        List.mem_filterMap]
      simp [or_assoc]

theorem kind_notified (n : Notification) : (writer.notified n).kind = writer.kind := by
  cases n <;> rfl

theorem kind_foldl (ns : List Notification) :
    (ns.foldl notified writer).kind = writer.kind := by
  induction ns generalizing writer with
  | nil => rfl
  | cons n ns ih => rw [List.foldl_cons, ih, kind_notified]

variable {kind : WriterKind} {ns : List Notification}

@[simp] theorem values_collect (b m : String) :
    (collect kind ns).values b m = recorded ns b m := by
  rw [collect, values_foldl]
  simp [values]

@[simp] theorem failed_collect (b : String) :
    b ∈ (collect kind ns).failedBenchmarkNames ↔ b ∈ failures ns := by
  rw [collect, failed_foldl]
  simp

theorem filled_collect : Filled (collect kind ns).resultsByBenchmarkName :=
  filled_foldl filled_empty ns

@[simp] theorem kind_collect : (collect kind ns).kind = kind := kind_foldl ns

/-! ## Entries -/

variable {results : ResultsByBenchmarkName}

/-- A metric has an entry exactly if a value of it is held. -/
theorem lookup_metric (filled : Filled writer.resultsByBenchmarkName) {b : String}
    {metrics : MetricsByName} (found : writer.resultsByBenchmarkName.lookup b = some metrics)
    (m : String) :
    metrics.lookup m = if writer.values b m = [] then none else some (writer.values b m) := by
  have held : writer.values b m = (metrics.lookup m).getD [] := by
    rw [values, found]
    rfl
  cases h : metrics.lookup m with
  | none => simp [held, h]
  | some values =>
      have nonempty := filled.values b metrics m values found h
      simp [held, h, nonempty]

/-- A benchmark has an entry exactly if a value of some metric of it is held. -/
theorem mem_keys_iff (filled : Filled writer.resultsByBenchmarkName) (b : String) :
    b ∈ writer.resultsByBenchmarkName.keys ↔ ∃ m, writer.values b m ≠ [] := by
  rw [← AList.mem_keys]
  constructor
  · intro mem
    obtain ⟨metrics, found⟩ := Option.isSome_iff_exists.mp (AList.lookup_isSome.mpr mem)
    have nonempty := filled.metrics b metrics found
    obtain ⟨m, mem⟩ : ∃ m, m ∈ metrics := by
      by_contra none
      refine nonempty (AList.ext ?_)
      have keys : metrics.keys = [] :=
        List.eq_nil_iff_forall_not_mem.mpr fun m hm => none ⟨m, AList.mem_keys.mpr hm⟩
      simpa [AList.keys, List.keys] using keys
    obtain ⟨values, foundValues⟩ := Option.isSome_iff_exists.mp (AList.lookup_isSome.mpr mem)
    refine ⟨m, fun empty => ?_⟩
    rw [lookup_metric filled found, if_pos empty] at foundValues
    cases foundValues
  · rintro ⟨m, held⟩
    by_contra absent
    rw [values, AList.lookup_eq_none.mpr absent] at held
    exact held rfl

/-- Every size is how often some metric of some benchmark was reported. -/
theorem mem_sizes_iff (filled : Filled writer.resultsByBenchmarkName) (size : Nat) :
    size ∈ sizes writer.resultsByBenchmarkName ↔
      ∃ b m, writer.values b m ≠ [] ∧ size = (writer.values b m).length := by
  simp only [sizes, List.mem_flatMap, List.mem_map]
  constructor
  · rintro ⟨⟨b, metrics⟩, memB, ⟨m, values⟩, memM, rfl⟩
    have found := AList.mem_lookup_iff.mpr memB
    have foundValues : metrics.lookup m = some values := AList.mem_lookup_iff.mpr memM
    have held := lookup_metric filled found m
    rw [foundValues] at held
    split at held
    · cases held
    · rename_i nonempty
      exact ⟨b, m, nonempty, congrArg List.length (Option.some.inj held)⟩
  · rintro ⟨b, m, nonempty, rfl⟩
    obtain ⟨metrics, found⟩ := Option.isSome_iff_exists.mp
      (AList.lookup_isSome.mpr (AList.mem_keys.mpr ((mem_keys_iff filled b).mpr ⟨m, nonempty⟩)))
    have foundValues := lookup_metric filled found m
    rw [if_neg nonempty] at foundValues
    exact ⟨⟨b, metrics⟩, AList.mem_lookup_iff.mp found, ⟨m, _⟩, AList.mem_lookup_iff.mp foundValues,
      rfl⟩

/-- The sanity check: any two metrics, of any two benchmarks, were reported equally often. -/
theorem checkBenchmarkResults_iff (filled : Filled writer.resultsByBenchmarkName) :
    checkBenchmarkResults writer.resultsByBenchmarkName = none ↔
      ∀ b m b' m', writer.values b m ≠ [] → writer.values b' m' ≠ [] →
        (writer.values b m).length = (writer.values b' m').length := by
  have members := mem_sizes_iff filled
  have equal : checkBenchmarkResults writer.resultsByBenchmarkName = none ↔
      ∀ x ∈ sizes writer.resultsByBenchmarkName, ∀ y ∈ sizes writer.resultsByBenchmarkName,
        x = y := by
    unfold checkBenchmarkResults
    cases sizes writer.resultsByBenchmarkName with
    | nil => simp
    | cons head tail =>
        dsimp only
        split
        · rename_i differs
          refine iff_of_false (by simp) fun all => ?_
          obtain ⟨x, mem, ne⟩ := List.any_eq_true.mp differs
          exact absurd (all x mem head (by simp)) (by simpa using ne)
        · rename_i same
          refine iff_of_true rfl fun x hx y hy => ?_
          have toHead : ∀ x ∈ head :: tail, x = head := by simpa using same
          rw [toHead x hx, toHead y hy]
  rw [equal]
  constructor
  · intro all b m b' m' held held'
    exact all _ ((members _).mpr ⟨b, m, held, rfl⟩) _ ((members _).mpr ⟨b', m', held', rfl⟩)
  · intro all x hx y hy
    obtain ⟨b, m, held, rfl⟩ := (members x).mp hx
    obtain ⟨b', m', held', rfl⟩ := (members y).mp hy
    exact all b m b' m' held held'

end ResultWriter

end Renaissance
