import Renaissance.Build.BenchmarkInfo

/-!
# Benchmark metadata at run time

`createBenchmarkDescriptors` finds the benchmarks in the properties that the build has written, and a
`BenchmarkDescriptor` looks its settings up in them. `metadata_readsBack_iff` says for which benchmarks
everything is read back.
-/

namespace Renaissance

open JavaCollections

namespace Core

structure BenchmarkDescriptor where
  benchmarkName : String
  benchmarkSettings : List (String × String)
  parameterOverrides : List (String × String)

/-- A configuration of a benchmark. -/
structure Configuration where
  descriptor : BenchmarkDescriptor
  configurationName : String

structure Parameter where
  configuration : Configuration
  parameterName : String

namespace BenchmarkDescriptor

variable (descriptor : BenchmarkDescriptor)

def settingKey (name : String) : String :=
  "benchmark." ++ descriptor.benchmarkName ++ "." ++ name

def settingValue (name : String) : Option String :=
  descriptor.benchmarkSettings.lookup (descriptor.settingKey name)

/-- The message is that of a `NoSuchElementException`. -/
def requireSettingValue (name : String) : Except String String :=
  match descriptor.settingValue name with
  | some value => .ok value
  | none =>
      let benchmarkName := descriptor.benchmarkName
      .error s!"benchmark '{benchmarkName}' has no such setting: {name}"

def hasConfiguration (name : String) : Bool :=
  let first := "benchmark." ++ descriptor.benchmarkName ++ ".configuration." ++ name ++ "."
  descriptor.benchmarkSettings.any fun entry => JavaString.startsWith entry.1 first

def getConfiguration (name : String) : Except String Configuration :=
  if descriptor.hasConfiguration name then .ok ⟨descriptor, name⟩
  else
    let benchmarkName := descriptor.benchmarkName
    .error s!"benchmark '{benchmarkName}' has no such configuration: {name}"

end BenchmarkDescriptor

namespace Configuration

variable (configuration : Configuration)

def parameterKey (name : String) : String :=
  "benchmark." ++ configuration.descriptor.benchmarkName ++ ".configuration." ++
    configuration.configurationName ++ "." ++ name

def hasParameter (name : String) : Bool :=
  configuration.parameterKey name ∈ configuration.descriptor.benchmarkSettings.map Prod.fst

def overriddenParameters : List Parameter :=
  ((configuration.descriptor.parameterOverrides.map Prod.fst).filter configuration.hasParameter).map
    (⟨configuration, ·⟩)

def hasOverrides : Bool :=
  !configuration.overriddenParameters.isEmpty

/-- `visibleName`. -/
def name : String :=
  if configuration.hasOverrides then "modified-" ++ configuration.configurationName
  else configuration.configurationName

def getParameter (name : String) : Except String Parameter :=
  if configuration.hasParameter name then .ok ⟨configuration, name⟩
  else
    let configurationName := configuration.configurationName
    .error s!"configuration '{configurationName}' has no such parameter: {name}"

end Configuration

namespace Parameter

variable (parameter : Parameter)

/-- The value that `requireNonNull` lets pass. -/
def baseValue : Except String String :=
  let configuration := parameter.configuration
  match configuration.descriptor.benchmarkSettings.lookup
      (configuration.parameterKey parameter.parameterName) with
  | some value => .ok value
  | none => .error "NullPointerException"

def overrideValue : Option String :=
  parameter.configuration.descriptor.parameterOverrides.lookup parameter.parameterName

def effectiveValue : Except String String := do
  let base ← parameter.baseValue
  pure (parameter.overrideValue.getD base)

/-- The value with a computed-value tag replaced. -/
def interpretedValue (availableProcessors : Nat) : Except String String := do
  let value ← parameter.effectiveValue
  if JavaString.startsWith value "$" then
    if value = "$cpu.count" then pure (toString availableProcessors)
    else
      let parameterName := parameter.parameterName
      .error s!"parameter '{parameterName}' uses as unknown computed-value tag: {value}"
  else pure value

end Parameter

/-- The values of all keys that end like that of a name, in a sorted set. -/
def benchmarkNames (benchmarkProperties : List (String × String)) : List String :=
  sorted (((benchmarkProperties.filter fun e => JavaString.endsWith e.1 ".name").map
    fun e => JavaString.trim e.2.toList).dedup)

def createBenchmarkDescriptors (benchmarkProperties parameterOverrides : List (String × String)) :
    List (String × BenchmarkDescriptor) :=
  (benchmarkNames benchmarkProperties).map fun name =>
    (name, ⟨name, benchmarkProperties, parameterOverrides⟩)

/-! ## What should be read back -/

open Build

/-- The parameter has the value of the override or the one that the annotations declare. -/
def ReadsParameter (descriptor : BenchmarkDescriptor) (info : BenchmarkInfo)
    (confName name : String) : Prop :=
  ∃ configuration parameter, descriptor.getConfiguration confName = .ok configuration ∧
    configuration.getParameter name = .ok parameter ∧
    ∃ value, info.declaredValue confName name = some value ∧
      parameter.effectiveValue =
        .ok ((descriptor.parameterOverrides.lookup name).getD value)

/-- There is one descriptor for each benchmark and no other, and it has all parameters in all
configurations. -/
structure ReadsBack (benchmarks : List BenchmarkInfo) (props : List (String × String)) : Prop where
  names : ∀ overrides, ((createBenchmarkDescriptors props overrides).map Prod.fst).Perm
    (benchmarks.map (·.name))
  parameters : ∀ overrides, ∀ info ∈ benchmarks, ∀ descriptor,
    (info.name, descriptor) ∈ createBenchmarkDescriptors props overrides →
    ∀ confName ∈ info.configurationNames,
    ∀ name ∈ info.parameterAnnotations.map (·.name), ReadsParameter descriptor info confName name

/-- The names have no blanks around them, the values of a parameter called `name` are names of
benchmarks, and the default of a parameter called `_present` is `true` where it counts. -/
structure Readable (benchmarks : List BenchmarkInfo) : Prop where
  trimmed : ∀ info ∈ benchmarks, JavaString.trim info.name.toList = info.name
  nameParameter : ∀ info ∈ benchmarks, "name" ∈ info.parameterAnnotations.map (·.name) →
    ∀ confName ∈ info.configurationNames, ∀ value,
    info.declaredValue confName "name" = some value →
    JavaString.trim value.toList ∈ benchmarks.map (·.name)
  presentParameter : ∀ info ∈ benchmarks, "_present" ∈ info.parameterAnnotations.map (·.name) →
    ∀ confName ∈ info.configurationNames, info.declaredSetting confName "_present" = none →
    info.declaredDefault "_present" = some "true"

/-! ## Reading the parameters -/

variable {benchmarks : List BenchmarkInfo} {info : BenchmarkInfo}
  {props overrides : List (String × String)} {confName name value : String}

theorem parameterKey_eq (info : BenchmarkInfo) (props overrides : List (String × String))
    (confName name : String) :
    Configuration.parameterKey ⟨⟨info.name, props, overrides⟩, confName⟩ name =
      propertyKey info.name (Build.parameterKey confName name) := by
  apply String.toList_injective
  simp only [Configuration.parameterKey, propertyKey_eq, Build.parameterKey_eq, String.toList_append]
  simp

/-- What the properties say about a parameter, or about the presence of a configuration. -/
theorem lookup_parameter (plain : ∀ info ∈ benchmarks, info.PlainNames)
    (distinct : (benchmarks.map (·.name)).Nodup)
    (written : makeBenchmarksProperties benchmarks = .ok props) (listed : info ∈ benchmarks)
    (declared : confName ∈ info.configurationNames) (isDefault : info.defaultOf name = some value) :
    props.lookup (propertyKey info.name (Build.parameterKey confName name)) =
      some ((info.declaredSetting confName name).getD value) := by
  obtain ⟨entries, mapped, same⟩ :=
    lookup_makeBenchmarksProperties plain distinct written info listed
  rw [same, lookup_toMap_parameter (plain info listed) mapped declared isDefault]

theorem getConfiguration_ok (overrides : List (String × String))
    (plain : ∀ info ∈ benchmarks, info.PlainNames)
    (distinct : (benchmarks.map (·.name)).Nodup)
    (written : makeBenchmarksProperties benchmarks = .ok props) (listed : info ∈ benchmarks)
    (declared : confName ∈ info.configurationNames) :
    BenchmarkDescriptor.getConfiguration ⟨info.name, props, overrides⟩ confName =
      .ok ⟨⟨info.name, props, overrides⟩, confName⟩ := by
  have isDefault : info.defaultOf "_present" = some "true" := rfl
  have present := mem_of_lookup
    (lookup_parameter plain distinct written listed declared isDefault)
  refine if_pos (List.any_eq_true.mpr ⟨_, present, ?_⟩)
  rw [JavaString.startsWith, decide_eq_true_iff]
  refine ⟨"_present".toList, ?_⟩
  simp only [propertyKey_eq, Build.parameterKey_eq, String.toList_append]
  simp

theorem getParameter_ok (overrides : List (String × String))
    (plain : ∀ info ∈ benchmarks, info.PlainNames)
    (distinct : (benchmarks.map (·.name)).Nodup)
    (written : makeBenchmarksProperties benchmarks = .ok props) (listed : info ∈ benchmarks)
    (declared : confName ∈ info.configurationNames) (isDefault : info.defaultOf name = some value) :
    Configuration.getParameter ⟨⟨info.name, props, overrides⟩, confName⟩ name =
        .ok ⟨⟨⟨info.name, props, overrides⟩, confName⟩, name⟩ ∧
      Parameter.effectiveValue ⟨⟨⟨info.name, props, overrides⟩, confName⟩, name⟩ =
        .ok ((overrides.lookup name).getD ((info.declaredSetting confName name).getD value)) := by
  have found := lookup_parameter plain distinct written listed declared isDefault
  constructor
  · refine if_pos ?_
    rw [Configuration.hasParameter, decide_eq_true_iff, parameterKey_eq]
    exact List.mem_map.mpr ⟨_, mem_of_lookup found, rfl⟩
  · simp only [Parameter.effectiveValue, Parameter.baseValue, parameterKey_eq, found]
    rfl

theorem declaredValue_eq (isDefault : info.declaredDefault name = some value) :
    info.declaredValue confName name = some ((info.declaredSetting confName name).getD value) := by
  rw [BenchmarkInfo.declaredValue, isDefault]
  cases info.declaredSetting confName name <;> rfl

/-- A parameter is read back if it is overridden or set, or if its default was written. -/
theorem readsParameter_iff (plain : ∀ info ∈ benchmarks, info.PlainNames)
    (distinct : (benchmarks.map (·.name)).Nodup)
    (written : makeBenchmarksProperties benchmarks = .ok props) (listed : info ∈ benchmarks)
    (declared : confName ∈ info.configurationNames)
    (parameter : name ∈ info.parameterAnnotations.map (·.name)) :
    ReadsParameter ⟨info.name, props, overrides⟩ info confName name ↔
      ((overrides.lookup name).isSome ∨ (info.declaredSetting confName name).isSome ∨
        info.declaredDefault name = info.defaultOf name) := by
  obtain ⟨first, isFirst⟩ := declaredDefault_isSome parameter
  obtain ⟨second, isSecond⟩ := defaultOf_isSome (.inr parameter : info.Known name)
  have opened := getConfiguration_ok overrides plain distinct written listed declared
  obtain ⟨got, effective⟩ :=
    getParameter_ok overrides plain distinct written listed declared isSecond
  have reads : ReadsParameter ⟨info.name, props, overrides⟩ info confName name ↔
      (overrides.lookup name).getD ((info.declaredSetting confName name).getD second) =
        (overrides.lookup name).getD ((info.declaredSetting confName name).getD first) := by
    constructor
    · rintro ⟨configuration, found, opened', got', value, isValue, effective'⟩
      obtain rfl := Except.ok.inj (opened.symm.trans opened')
      obtain rfl := Except.ok.inj (got.symm.trans got')
      rw [declaredValue_eq isFirst] at isValue
      obtain rfl := Option.some.inj isValue
      exact Except.ok.inj (effective.symm.trans effective')
    · intro same
      exact ⟨_, _, opened, got, _, declaredValue_eq isFirst, by rw [effective, same]⟩
  rw [reads, isFirst, isSecond]
  cases overrides.lookup name with
  | some value => simp
  | none =>
      cases info.declaredSetting confName name with
      | some value => simp
      | none => simp [eq_comm]

/-! ## Finding the benchmarks -/

theorem mem_benchmarkNames {x : String} :
    x ∈ benchmarkNames props ↔
      ∃ entry ∈ props, JavaString.endsWith entry.1 ".name" = true ∧
        JavaString.trim entry.2.toList = x := by
  simp [benchmarkNames, and_assoc]

/-- The names of the benchmarks, and the values of their parameters called `name`. -/
theorem mem_benchmarkNames_iff (plain : ∀ info ∈ benchmarks, info.PlainNames)
    (distinct : (benchmarks.map (·.name)).Nodup)
    (written : makeBenchmarksProperties benchmarks = .ok props) {x : String} :
    x ∈ benchmarkNames props ↔
      (∃ info ∈ benchmarks, JavaString.trim info.name.toList = x) ∨
        ∃ info ∈ benchmarks, "name" ∈ info.parameterAnnotations.map (·.name) ∧
          ∃ confName ∈ info.configurationNames, ∃ value,
            info.declaredValue confName "name" = some value ∧ JavaString.trim value.toList = x := by
  have dotless : '.' ∉ "name".toList := by decide
  rw [mem_benchmarkNames]
  constructor
  · rintro ⟨entry, mem, ends', rfl⟩
    obtain ⟨info, listed, entries, mapped, entry', mem', rfl⟩ :=
      mem_makeBenchmarksProperties written mem
    have found := (keyed_toMap mapped).lookup_of_mem mem'
    rcases endsWith_name (plain info listed) mapped mem' ends' with
      key | ⟨parameter, confName, declared, key⟩
    · rw [key, lookup_toMap_name (plain info listed) mapped] at found
      exact .inl ⟨info, listed, by rw [Option.some.inj found]⟩
    · obtain ⟨value, isDefault⟩ := declaredDefault_isSome parameter
      have written' : info.defaultOf "name" = some value := isDefault
      rw [key, lookup_toMap_parameter (plain info listed) mapped declared written'] at found
      refine .inr ⟨info, listed, parameter, confName, declared, entry'.2, ?_, rfl⟩
      rw [declaredValue_eq isDefault, found]
  · rintro (⟨info, listed, rfl⟩ | ⟨info, listed, parameter, confName, declared, value, isValue, rfl⟩)
    · obtain ⟨entries, mapped, same⟩ :=
        lookup_makeBenchmarksProperties plain distinct written info listed
      have found : props.lookup (propertyKey info.name "name") = some info.name := by
        rw [same, lookup_toMap_name (plain info listed) mapped]
      exact ⟨_, mem_of_lookup found, (JavaString.endsWith_joined dotless dotless).mpr rfl, rfl⟩
    · obtain ⟨first, isDefault⟩ := declaredDefault_isSome parameter
      have written' : info.defaultOf "name" = some first := isDefault
      have found := lookup_parameter plain distinct written listed declared written'
      rw [declaredValue_eq isDefault] at isValue
      rw [Option.some.inj isValue] at found
      refine ⟨_, mem_of_lookup found, ?_, rfl⟩
      rw [propertyKey_parameterKey]
      exact (JavaString.endsWith_joined dotless dotless).mpr rfl

theorem nodup_benchmarkNames (props : List (String × String)) : (benchmarkNames props).Nodup :=
  (sorted_perm _).nodup_iff.mpr (List.nodup_dedup _)

theorem descriptorNames (props overrides : List (String × String)) :
    (createBenchmarkDescriptors props overrides).map Prod.fst = benchmarkNames props := by
  simp [createBenchmarkDescriptors, Function.comp_def]

theorem mem_createBenchmarkDescriptors {descriptor : BenchmarkDescriptor}
    (mem : (name, descriptor) ∈ createBenchmarkDescriptors props overrides) :
    descriptor = ⟨name, props, overrides⟩ := by
  obtain ⟨x, -, same⟩ := List.mem_map.mp mem
  obtain ⟨rfl, rfl⟩ := Prod.mk.inj same
  rfl

/-- The descriptors are those of the benchmarks. -/
theorem names_iff (plain : ∀ info ∈ benchmarks, info.PlainNames)
    (distinct : (benchmarks.map (·.name)).Nodup)
    (written : makeBenchmarksProperties benchmarks = .ok props) :
    (benchmarkNames props).Perm (benchmarks.map (·.name)) ↔
      (∀ info ∈ benchmarks, JavaString.trim info.name.toList = info.name) ∧
      ∀ info ∈ benchmarks, "name" ∈ info.parameterAnnotations.map (·.name) →
        ∀ confName ∈ info.configurationNames, ∀ value,
        info.declaredValue confName "name" = some value →
        JavaString.trim value.toList ∈ benchmarks.map (·.name) := by
  rw [List.perm_ext_iff_of_nodup (nodup_benchmarkNames props) distinct]
  constructor
  · intro same
    refine ⟨fun info listed => ?_, fun info listed parameter confName declared value isValue => ?_⟩
    · have mem := (same info.name).mpr (List.mem_map.mpr ⟨info, listed, rfl⟩)
      obtain ⟨entry, -, -, trimmed⟩ := mem_benchmarkNames.mp mem
      rw [← trimmed, JavaString.trim_trim]
    · exact (same _).mp ((mem_benchmarkNames_iff plain distinct written).mpr
        (.inr ⟨info, listed, parameter, confName, declared, value, isValue, rfl⟩))
  · rintro ⟨trimmed, values⟩ x
    rw [mem_benchmarkNames_iff plain distinct written]
    constructor
    · rintro (⟨info, listed, rfl⟩ |
        ⟨info, listed, parameter, confName, declared, value, isValue, rfl⟩)
      · exact List.mem_map.mpr ⟨info, listed, (trimmed info listed).symm⟩
      · exact values info listed parameter confName declared value isValue
    · intro mem
      obtain ⟨info, listed, rfl⟩ := List.mem_map.mp mem
      exact .inl ⟨info, listed, trimmed info listed⟩

/-- Once the properties were written, everything is read back if and only if the benchmarks are
readable. -/
theorem readsBack_iff (plain : ∀ info ∈ benchmarks, info.PlainNames)
    (distinct : (benchmarks.map (·.name)).Nodup)
    (written : makeBenchmarksProperties benchmarks = .ok props) :
    ReadsBack benchmarks props ↔ Readable benchmarks := by
  constructor
  · intro back
    have names := back.names []
    rw [descriptorNames] at names
    obtain ⟨trimmed, values⟩ := (names_iff plain distinct written).mp names
    refine ⟨trimmed, values, fun info listed parameter confName declared unset => ?_⟩
    have found : info.name ∈ benchmarkNames props :=
      names.mem_iff.mpr (List.mem_map.mpr ⟨info, listed, rfl⟩)
    have reads := back.parameters [] info listed ⟨info.name, props, []⟩
      (List.mem_map.mpr ⟨info.name, found, rfl⟩) confName declared "_present" parameter
    rw [readsParameter_iff plain distinct written listed declared parameter, unset] at reads
    simpa [BenchmarkInfo.defaultOf] using reads
  · intro readable
    refine ⟨fun overrides => ?_, fun overrides info listed descriptor mem confName declared name
      parameter => ?_⟩
    · rw [descriptorNames]
      exact (names_iff plain distinct written).mpr ⟨readable.trimmed, readable.nameParameter⟩
    · obtain rfl := mem_createBenchmarkDescriptors mem
      rw [readsParameter_iff plain distinct written listed declared parameter]
      by_cases present : name = "_present"
      · subst present
        cases unset : info.declaredSetting confName "_present" with
        | some value => exact .inr (.inl rfl)
        | none =>
            refine .inr (.inr ?_)
            rw [readable.presentParameter info listed parameter confName declared unset]
            rfl
      · exact .inr (.inr (if_neg present).symm)

/-- For benchmarks with distinct plain names: the properties are written and everything is read back
if and only if all settings are accepted and the benchmarks are readable. -/
theorem metadata_readsBack_iff {benchmarks : List BenchmarkInfo}
    (plain : ∀ info ∈ benchmarks, info.PlainNames) (distinct : (benchmarks.map (·.name)).Nodup) :
    (∃ props, makeBenchmarksProperties benchmarks = .ok props ∧ ReadsBack benchmarks props) ↔
      (∀ info ∈ benchmarks, ∀ conf ∈ info.configurationAnnotations, ∀ setting ∈ conf.settings,
        info.Accepts setting) ∧ Readable benchmarks := by
  rw [← makeBenchmarksProperties_ok_iff plain]
  constructor
  · rintro ⟨props, written, back⟩
    exact ⟨⟨props, written⟩, (readsBack_iff plain distinct written).mp back⟩
  · rintro ⟨⟨props, written⟩, readable⟩
    exact ⟨props, written, (readsBack_iff plain distinct written).mpr readable⟩

theorem plainName_of_all (name : String) (some : name ≠ "")
    (all : (name.toList.all fun c => c != '.' && c != ',' && c != '=') = true) : PlainName name := by
  refine ⟨some, fun c mem => ?_⟩
  simpa [and_assoc] using List.all_eq_true.mp all c mem

/-- One benchmark with a parameter and a configuration that sets it. -/
def scrabble : BenchmarkInfo where
  module := "jdk-streams"
  className := "org.renaissance.jdk.streams.Scrabble"
  scalaVersion := "2.13"
  name := "scrabble"
  groups := ["jdk-streams"]
  parameterAnnotations := [{ name := "input_path", defaultValue := "/shakespeare.txt" }]
  configurationAnnotations := [{ name := "test", settings := ["input_path = /shakespeare-10.txt"] }]

theorem scrabble_plain : scrabble.PlainNames where
  name := plainName_of_all _ (by decide) (by decide)
  configurations conf mem := by
    obtain rfl := List.mem_singleton.mp mem
    exact plainName_of_all _ (by decide) (by decide)
  parameters p mem := by
    obtain rfl := List.mem_singleton.mp mem
    exact plainName_of_all _ (by decide) (by decide)

theorem metadata_readsBack_iff_scrabble :
    (∃ props, makeBenchmarksProperties [scrabble] = .ok props ∧ ReadsBack [scrabble] props) ↔
      (∀ info ∈ [scrabble], ∀ conf ∈ info.configurationAnnotations, ∀ setting ∈ conf.settings,
        info.Accepts setting) ∧ Readable [scrabble] :=
  metadata_readsBack_iff (fun info mem => List.mem_singleton.mp mem ▸ scrabble_plain) (by decide)

/-- A benchmark with a parameter called `name`. -/
def named : BenchmarkInfo where
  module := "jdk-streams"
  className := "org.renaissance.jdk.streams.Named"
  scalaVersion := "2.13"
  name := "named"
  groups := ["jdk-streams"]
  parameterAnnotations := [{ name := "name", defaultValue := "World" }]

theorem named_plain : named.PlainNames where
  name := plainName_of_all _ (by decide) (by decide)
  configurations conf mem := by cases mem
  parameters p mem := by
    obtain rfl := List.mem_singleton.mp mem
    exact plainName_of_all _ (by decide) (by decide)

/-- The default of the parameter is taken for the name of another benchmark. -/
theorem name_parameter_not_readsBack :
    ¬ ∃ props, makeBenchmarksProperties [named] = .ok props ∧ ReadsBack [named] props := by
  rintro ⟨props, written, back⟩
  have plain : ∀ info ∈ [named], info.PlainNames :=
    fun info mem => List.mem_singleton.mp mem ▸ named_plain
  have readable := (readsBack_iff plain (by decide) written).mp back
  have value : named.declaredValue "default" "name" = some "World" := by decide
  have mem := readable.nameParameter named (by simp) (by decide) "default" (by decide) "World" value
  exact absurd mem (by decide)

end Core

end Renaissance
