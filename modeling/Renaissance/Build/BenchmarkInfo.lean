import Renaissance.Lib.Fallible
import Renaissance.Lib.JavaCollections
import Renaissance.Lib.JavaString

/-!
# Benchmark metadata at build time

`BenchmarkInfo` collects what the annotations of a benchmark class say. `toMap` turns it into
properties, and `makeBenchmarksProperties` puts the properties of all benchmarks under common keys.

Results:
1. `lookup_configurations`: which value each parameter has in each configuration.
2. `mem_toMap`: the keys that occur.
3. `lookup_makeBenchmarksProperties`, `mem_makeBenchmarksProperties`: the properties of different
   benchmarks do not get in each other's way.
-/

namespace Renaissance

open JavaCollections

inductive License where
  | apache2 | mit | bsd3 | publicDomain | mpl2 | epl1 | gpl2 | gpl3
deriving DecidableEq, Repr

def License.toString : License → String
  | .apache2 => "APACHE2"
  | .mit => "MIT"
  | .bsd3 => "BSD3"
  | .publicDomain => "PUBLIC"
  | .mpl2 => "MPL2"
  | .epl1 => "EPL1"
  | .gpl2 => "GPL2"
  | .gpl3 => "GPL3"

namespace Build

structure ParameterAnnotation where
  name : String
  defaultValue : String := ""
  summary : String := ""

structure ConfigurationAnnotation where
  name : String
  settings : List String := []

/-- What a benchmark class and its annotations say. The name and the groups are those that the class
has without annotations, too. -/
structure BenchmarkInfo where
  module : String
  className : String
  scalaVersion : String
  name : String
  groups : List String
  summaryAnnotation : Option String := none
  descriptionAnnotation : Option String := none
  licensesAnnotation : Option (List License) := none
  repetitionsAnnotation : Option Int32 := none
  requiresJvm : Option String := none
  supportsJvm : Option String := none
  parameterAnnotations : List ParameterAnnotation := []
  configurationAnnotations : List ConfigurationAnnotation := []

def parameterKey (confName name : String) : String :=
  "configuration." ++ confName ++ "." ++ name

/-- The name and the value in a setting. -/
def settingElements (setting : String) : Option (String × String) :=
  match (JavaString.split '=' setting.toList).map fun part => JavaString.trim part.toList with
  | [name, value] => some (name, value)
  | _ => none

def applySetting (confName : String) (result : List (String × String)) (setting : String) :
    Except String (List (String × String)) :=
  match settingElements setting with
  | none => .error s!"malformed setting in configuration '{confName}': {setting}"
  | some (name, value) =>
      let paramKey := parameterKey confName name
      if paramKey ∈ result.map Prod.fst then .ok (update result (paramKey, value))
      else .error s!"unknown parameter in configuration '{confName}': {name}"

/-- The distribution that the licenses allow. -/
def distroFromLicenses (licenses : List License) : License :=
  if licenses.any fun license => decide (license ∈ [.gpl2, .gpl3, .epl1, .mpl2]) then .gpl3 else .mit

namespace BenchmarkInfo

variable (info : BenchmarkInfo)

def printableGroups : String := ",".intercalate info.groups
def summary : String := info.summaryAnnotation.getD ""
def description : String := info.descriptionAnnotation.getD ""
def repetitions : Int32 := info.repetitionsAnnotation.getD 20
def jvmVersionMin : String := info.requiresJvm.getD "11"
def jvmVersionMax : String := info.supportsJvm.getD ""
def licenses : List License := info.licensesAnnotation.getD []
def printableLicenses : String := ",".intercalate (info.licenses.map License.toString)
def distro : License := distroFromLicenses info.licenses

def parameters : List (String × String) :=
  let entries := info.parameterAnnotations.flatMap fun p =>
    [("parameter." ++ p.name ++ ".default", p.defaultValue),
      ("parameter." ++ p.name ++ ".summary", p.summary)]
  entries.foldl update []

def parameterDefaults (confName : String) : List (String × String) :=
  let defaults := info.parameterAnnotations.map fun p =>
    (parameterKey confName p.name, p.defaultValue)
  update (defaults.foldl update []) (parameterKey confName "_present", "true")

/-- The defaults of a configuration and then its settings. -/
def applyConfiguration (result : List (String × String)) (conf : ConfigurationAnnotation) :
    Except String (List (String × String)) :=
  conf.settings.foldlM (applySetting conf.name)
    ((info.parameterDefaults conf.name).foldl update result)

def configurations : Except String (List (String × String)) :=
  info.configurationAnnotations.foldlM info.applyConfiguration
    ((info.parameterDefaults "default").foldl update [])

/-- The entries that every benchmark has. -/
def details : List (String × String) :=
  [("module", info.module), ("class", info.className), ("name", info.name),
    ("groups", info.printableGroups), ("summary", info.summary),
    ("description", info.description), ("licenses", info.printableLicenses),
    ("repetitions", toString info.repetitions.toInt), ("distro", info.distro.toString),
    ("jvm_version_min", info.jvmVersionMin), ("jvm_version_max", info.jvmVersionMax),
    ("scala_version", info.scalaVersion)]

def toMap : Except String (List (String × String)) := do
  let configurations ← info.configurations
  pure (configurations.foldl update (info.parameters.foldl update info.details))

end BenchmarkInfo

def propertyKey (benchmark key : String) : String :=
  "benchmark." ++ benchmark ++ "." ++ key

/-- Put the entries of one benchmark under its own keys. -/
def addProperties (name : String) (entries props : List (String × String)) :
    List (String × String) :=
  entries.foldl (fun props entry => update props (propertyKey name entry.1, entry.2)) props

def addBenchmark (props : List (String × String)) (bench : BenchmarkInfo) :
    Except String (List (String × String)) := do
  let entries ← bench.toMap
  pure (addProperties bench.name entries props)

def makeBenchmarksProperties (benchmarks : List BenchmarkInfo) :
    Except String (List (String × String)) :=
  benchmarks.foldlM addBenchmark []

/-! ## What the annotations declare -/

/-- The names of the configurations, the default one included. -/
def BenchmarkInfo.configurationNames (info : BenchmarkInfo) : List String :=
  "default" :: info.configurationAnnotations.map (·.name)

/-- The default value of a parameter, which is the one declared last. -/
def BenchmarkInfo.declaredDefault (info : BenchmarkInfo) (name : String) : Option String :=
  (info.parameterAnnotations.reverse.find? (·.name = name)).map (·.defaultValue)

/-- The value that a setting gives to the parameter. -/
def settingFor (name setting : String) : Option String :=
  match settingElements setting with
  | some (other, value) => if other = name then some value else none
  | none => none

def lastSetting (settings : List String) (name : String) : Option String :=
  settings.reverse.findSome? (settingFor name)

/-- The last setting of a parameter in a configuration. -/
def BenchmarkInfo.declaredSetting (info : BenchmarkInfo) (confName name : String) :
    Option String :=
  (info.configurationAnnotations.reverse.find? (·.name = confName)).bind fun conf =>
    lastSetting conf.settings name

/-- The value of a parameter in a configuration. -/
def BenchmarkInfo.declaredValue (info : BenchmarkInfo) (confName name : String) : Option String :=
  (info.declaredSetting confName name).or (info.declaredDefault name)

/-- The names of the benchmark can be parts of keys. -/
def PlainName (name : String) : Prop :=
  name ≠ "" ∧ ∀ c ∈ name.toList, c ≠ '.' ∧ c ≠ ',' ∧ c ≠ '='

structure BenchmarkInfo.PlainNames (info : BenchmarkInfo) : Prop where
  name : PlainName info.name
  configurations : ∀ conf ∈ info.configurationAnnotations, PlainName conf.name
  parameters : ∀ parameter ∈ info.parameterAnnotations, PlainName parameter.name

/-! ## The values of the parameters -/

section Configurations

variable {info : BenchmarkInfo} {confName other name : String}
  {result result' : List (String × String)}

theorem parameterKey_eq (confName name : String) :
    parameterKey confName name = "configuration." ++ confName ++ "." ++ name :=
  rfl

theorem propertyKey_eq (benchmark key : String) :
    propertyKey benchmark key = "benchmark." ++ benchmark ++ "." ++ key :=
  rfl

theorem parameterKey_injective (plain : '.' ∉ confName.toList) (plain' : '.' ∉ other.toList)
    {x y : String} (same : parameterKey confName x = parameterKey other y) :
    confName = other ∧ x = y :=
  JavaString.joined_injective plain plain' same

@[simp] theorem parameterKey_inj {x y : String} :
    parameterKey confName x = parameterKey confName y ↔ x = y := by
  constructor
  · intro same
    have lists := congrArg String.toList same
    simp only [parameterKey_eq, String.toList_append, List.append_cancel_left_eq] at lists
    exact String.toList_injective lists
  · exact congrArg _

/-- The default of a parameter, and the entry that says that the configuration is there. -/
def BenchmarkInfo.defaultOf (info : BenchmarkInfo) (name : String) : Option String :=
  if name = "_present" then some "true" else info.declaredDefault name

theorem lookup_map_name (parameters : List ParameterAnnotation) :
    (parameters.map fun p => (parameterKey confName p.name, p.defaultValue)).lookup
        (parameterKey confName name) =
      (parameters.find? (·.name = name)).map (·.defaultValue) := by
  induction parameters with
  | nil => rfl
  | cons p parameters ih =>
      rw [List.map_cons, List.lookup_cons]
      by_cases same : p.name = name
      · rw [List.find?_cons_of_pos (by simpa using same), same, beq_self_eq_true]
        rfl
      · have other : (parameterKey confName name == parameterKey confName p.name) = false :=
          beq_false_of_ne fun h => same (parameterKey_inj.mp h).symm
        rw [List.find?_cons_of_neg (by simpa using same), other]
        exact ih

theorem lookup_parameterDefaults (info : BenchmarkInfo) (confName name : String) :
    (info.parameterDefaults confName).lookup (parameterKey confName name) =
      info.defaultOf name := by
  rw [BenchmarkInfo.parameterDefaults, lookup_update, BenchmarkInfo.defaultOf]
  simp only [parameterKey_inj]
  split
  · rfl
  · rw [lookup_foldl_update_eq, ← List.map_reverse, lookup_map_name, List.lookup_nil,
      Option.or_none]
    rfl

theorem keyed_parameterDefaults (info : BenchmarkInfo) (confName : String) :
    Keyed (info.parameterDefaults confName) :=
  (Keyed.nil.foldl_update _).update _

/-- A name that occurs in the keys of the configurations. -/
def BenchmarkInfo.Known (info : BenchmarkInfo) (name : String) : Prop :=
  name = "_present" ∨ name ∈ info.parameterAnnotations.map (·.name)

theorem mem_parameterDefaults {entry : String × String}
    (mem : entry ∈ info.parameterDefaults confName) :
    ∃ name, info.Known name ∧ entry.1 = parameterKey confName name := by
  rcases mem_update mem with rfl | mem
  · exact ⟨"_present", .inl rfl, rfl⟩
  · rcases mem_foldl_update mem with mem | mem
    · obtain ⟨p, declared, rfl⟩ := List.mem_map.mp mem
      exact ⟨p.name, .inr (List.mem_map.mpr ⟨p, declared, rfl⟩), rfl⟩
    · cases mem

theorem declaredDefault_isSome (parameter : name ∈ info.parameterAnnotations.map (·.name)) :
    ∃ value, info.declaredDefault name = some value := by
  obtain ⟨p, declared, same⟩ := List.mem_map.mp parameter
  have found : (info.parameterAnnotations.reverse.find? (·.name = name)).isSome := by
    rw [List.find?_isSome]
    exact ⟨p, List.mem_reverse.mpr declared, by simpa using same⟩
  obtain ⟨q, found⟩ := Option.isSome_iff_exists.mp found
  exact ⟨q.defaultValue, by rw [BenchmarkInfo.declaredDefault, found]; rfl⟩

theorem defaultOf_isSome (known : info.Known name) : ∃ value, info.defaultOf name = some value := by
  unfold BenchmarkInfo.defaultOf
  split
  · exact ⟨_, rfl⟩
  · next other => exact declaredDefault_isSome (known.resolve_left other)

theorem applySetting_ok {setting : String}
    (applied : applySetting confName result setting = .ok result') :
    ∃ name value, settingElements setting = some (name, value) ∧
      parameterKey confName name ∈ result.map Prod.fst ∧
      result' = update result (parameterKey confName name, value) := by
  unfold applySetting at applied
  split at applied
  · cases applied
  · next name value elements =>
    simp only at applied
    split at applied
    · next known => exact ⟨name, value, elements, known, (Except.ok.inj applied).symm⟩
    · cases applied

/-- What the settings of a configuration change. -/
theorem applySettings_spec {settings : List String}
    (applied : settings.foldlM (applySetting confName) result = .ok result') :
    result'.map Prod.fst = result.map Prod.fst ∧
      (∀ name, result'.lookup (parameterKey confName name) =
        (lastSetting settings name).or (result.lookup (parameterKey confName name))) ∧
      ∀ key, (∀ name, key ≠ parameterKey confName name) →
        result'.lookup key = result.lookup key := by
  induction settings generalizing result with
  | nil =>
      cases applied
      exact ⟨rfl, fun _ => rfl, fun _ _ => rfl⟩
  | cons setting settings ih =>
      obtain ⟨next, first, rest⟩ := Fallible.foldlM_cons_ok.mp applied
      obtain ⟨changed, value, elements, known, rfl⟩ := applySetting_ok first
      obtain ⟨keys, own, others⟩ := ih rest
      refine ⟨?_, fun name => ?_, fun key apart => ?_⟩
      · rw [keys, keys_update, if_pos known]
      · rw [own, lookup_update, lastSetting, lastSetting, List.reverse_cons,
          List.findSome?_append]
        by_cases same : name = changed
        · subst same
          simp [settingFor, elements]
        · simp [settingFor, elements, same, Ne.symm same]
      · rw [others key apart, lookup_update, if_neg (apart changed)]

/-- One configuration: its own entries, and those of all others. -/
theorem applyConfiguration_spec {conf : ConfigurationAnnotation}
    (applied : info.applyConfiguration result conf = .ok result') :
    (∀ key ∈ result'.map Prod.fst, key ∈ result.map Prod.fst ∨
      ∃ name, info.Known name ∧ key = parameterKey conf.name name) ∧
    (∀ name value, info.defaultOf name = some value →
      result'.lookup (parameterKey conf.name name) =
        some ((lastSetting conf.settings name).getD value)) ∧
    (∀ key, (∀ name, key ≠ parameterKey conf.name name) →
      result'.lookup key = result.lookup key) ∧
    (Keyed result → Keyed result') := by
  have defaults := keyed_parameterDefaults info conf.name
  obtain ⟨keys, own, others⟩ := applySettings_spec applied
  refine ⟨fun key mem => ?_, fun name value isDefault => ?_, fun key apart => ?_, fun keyed => ?_⟩
  · rw [keys] at mem
    obtain ⟨entry, found, rfl⟩ := List.mem_map.mp mem
    rcases mem_foldl_update found with fresh | old
    · exact .inr (mem_parameterDefaults fresh)
    · exact .inl (List.mem_map_of_mem old)
  · rw [own, lookup_foldl_update_eq, defaults.lookup_reverse, lookup_parameterDefaults, isDefault]
    cases lastSetting conf.settings name <;> rfl
  · have absent : (info.parameterDefaults conf.name).lookup key = none := by
      rw [List.lookup_eq_none_iff]
      intro entry mem
      obtain ⟨name, -, same⟩ := mem_parameterDefaults mem
      simpa [same] using apart name
    rw [others key apart, lookup_foldl_update_eq, defaults.lookup_reverse, absent]
    rfl
  · rw [Keyed, keys]
    exact keyed.foldl_update _

/-- The configurations one after the other. The last one of a name is the one that counts. -/
theorem applyConfigurations_spec {confs : List ConfigurationAnnotation}
    (plain : ∀ conf ∈ confs, '.' ∉ conf.name.toList)
    (applied : confs.foldlM info.applyConfiguration result = .ok result') :
    (∀ key ∈ result'.map Prod.fst, key ∈ result.map Prod.fst ∨
      ∃ conf ∈ confs, ∃ name, info.Known name ∧ key = parameterKey conf.name name) ∧
    (∀ confName name value, '.' ∉ confName.toList → info.defaultOf name = some value →
      result'.lookup (parameterKey confName name) =
        match confs.reverse.find? (·.name = confName) with
        | some conf => some ((lastSetting conf.settings name).getD value)
        | none => result.lookup (parameterKey confName name)) ∧
    (Keyed result → Keyed result') := by
  induction confs generalizing result with
  | nil =>
      cases applied
      exact ⟨fun key mem => .inl mem, fun _ _ _ _ _ => rfl, id⟩
  | cons conf confs ih =>
      obtain ⟨next, first, rest⟩ := Fallible.foldlM_cons_ok.mp applied
      obtain ⟨keys, own, others, keyed⟩ := applyConfiguration_spec first
      obtain ⟨keys', values, keyed'⟩ := ih (fun other mem => plain other (by simp [mem])) rest
      refine ⟨fun key mem => ?_, fun confName name value plainConf isDefault => ?_,
        fun start => keyed' (keyed start)⟩
      · rcases keys' key mem with mem | ⟨other, listed, known⟩
        · exact (keys key mem).imp_right fun known => ⟨conf, by simp, known⟩
        · exact .inr ⟨other, by simp [listed], known⟩
      · rw [values confName name value plainConf isDefault, List.reverse_cons, List.find?_append]
        cases found : confs.reverse.find? (·.name = confName) with
        | some other => rfl
        | none =>
            by_cases same : conf.name = confName
            · subst same
              simp [own name value isDefault]
            · have apart : ∀ other, parameterKey confName name ≠ parameterKey conf.name other := by
                intro other h
                exact same (parameterKey_injective plainConf (plain conf (by simp)) h).1.symm
              simp [others _ apart, same]

/-- The value of a parameter in a configuration is the last setting or the default. -/
theorem lookup_configurations {entries : List (String × String)} (plain : info.PlainNames)
    (collected : info.configurations = .ok entries) {confName name value : String}
    (declared : confName ∈ info.configurationNames) (isDefault : info.defaultOf name = some value) :
    entries.lookup (parameterKey confName name) =
      some ((info.declaredSetting confName name).getD value) := by
  have plainConfs : ∀ conf ∈ info.configurationAnnotations, '.' ∉ conf.name.toList :=
    fun conf mem dot => ((plain.configurations conf mem).2 _ dot).1 rfl
  have plainConf : '.' ∉ confName.toList := by
    rcases List.mem_cons.mp declared with rfl | mem
    · decide
    · obtain ⟨conf, listed, rfl⟩ := List.mem_map.mp mem
      exact plainConfs conf listed
  obtain ⟨-, values, -⟩ := applyConfigurations_spec plainConfs collected
  rw [values confName name value plainConf isDefault, BenchmarkInfo.declaredSetting]
  cases found : info.configurationAnnotations.reverse.find? (·.name = confName) with
  | some conf => rfl
  | none =>
      rw [List.find?_eq_none] at found
      have isDefaultConf : confName = "default" := by
        rcases List.mem_cons.mp declared with same | mem
        · exact same
        · obtain ⟨conf, listed, same⟩ := List.mem_map.mp mem
          exact absurd (by simpa using same) (found conf (List.mem_reverse.mpr listed))
      subst isDefaultConf
      simp only [lookup_foldl_update_eq, (keyed_parameterDefaults info _).lookup_reverse,
        lookup_parameterDefaults, isDefault]
      rfl

theorem mem_configurations {entries : List (String × String)} (plain : info.PlainNames)
    (collected : info.configurations = .ok entries) {entry : String × String}
    (mem : entry ∈ entries) :
    ∃ confName ∈ info.configurationNames, ∃ name, info.Known name ∧
      entry.1 = parameterKey confName name := by
  have plainConfs : ∀ conf ∈ info.configurationAnnotations, '.' ∉ conf.name.toList :=
    fun conf mem dot => ((plain.configurations conf mem).2 _ dot).1 rfl
  obtain ⟨keys, -, -⟩ := applyConfigurations_spec plainConfs collected
  rcases keys entry.1 (List.mem_map_of_mem mem) with start | ⟨conf, listed, known⟩
  · obtain ⟨entry', mem', same⟩ := List.mem_map.mp start
    rcases mem_foldl_update mem' with fresh | empty
    · obtain ⟨name, known, key⟩ := mem_parameterDefaults fresh
      exact ⟨"default", by simp [BenchmarkInfo.configurationNames], name, known, same ▸ key⟩
    · cases empty
  · exact ⟨conf.name, List.mem_cons_of_mem _ (List.mem_map.mpr ⟨conf, listed, rfl⟩), known⟩

theorem keyed_configurations {entries : List (String × String)} (plain : info.PlainNames)
    (collected : info.configurations = .ok entries) : Keyed entries := by
  have plainConfs : ∀ conf ∈ info.configurationAnnotations, '.' ∉ conf.name.toList :=
    fun conf mem dot => ((plain.configurations conf mem).2 _ dot).1 rfl
  obtain ⟨-, -, keyed⟩ := applyConfigurations_spec plainConfs collected
  exact keyed (Keyed.nil.foldl_update _)

/-! ## Which annotations the build accepts -/

/-- The setting has a name and a value, and the name is known. -/
def BenchmarkInfo.Accepts (info : BenchmarkInfo) (setting : String) : Prop :=
  ∃ name value, settingElements setting = some (name, value) ∧ info.Known name

/-- The keys are those of configurations with known names. -/
def BenchmarkInfo.KnownKeys (info : BenchmarkInfo) (result : List (String × String)) : Prop :=
  ∀ key ∈ result.map Prod.fst, ∃ confName name, '.' ∉ confName.toList ∧ info.Known name ∧
    key = parameterKey confName name

theorem applySettings_ok_iff (known : ∀ name,
    parameterKey confName name ∈ result.map Prod.fst ↔ info.Known name) (settings : List String) :
    (∃ result', settings.foldlM (applySetting confName) result = .ok result') ↔
      ∀ setting ∈ settings, info.Accepts setting := by
  refine Fallible.foldlM_ok_iff (fun result => ∀ name,
    parameterKey confName name ∈ result.map Prod.fst ↔ info.Known name) ?_ ?_ known
  · intro result setting _ known
    constructor
    · rintro ⟨result', applied⟩
      obtain ⟨name, value, elements, mem, -⟩ := applySetting_ok applied
      exact ⟨name, value, elements, (known name).mp mem⟩
    · rintro ⟨name, value, elements, isKnown⟩
      refine ⟨update result (parameterKey confName name, value), ?_⟩
      simp only [applySetting, elements]
      rw [if_pos ((known name).mpr isKnown)]
  · intro result setting _ next known applied name
    obtain ⟨changed, value, -, mem, rfl⟩ := applySetting_ok applied
    rw [keys_update, if_pos mem]
    exact known name

theorem parameterKey_mem_iff (plain : '.' ∉ confName.toList) (known : info.KnownKeys result) :
    parameterKey confName name ∈
        ((info.parameterDefaults confName).foldl update result).map Prod.fst ↔
      info.Known name := by
  constructor
  · intro mem
    obtain ⟨entry, found, key⟩ := List.mem_map.mp mem
    rcases mem_foldl_update found with fresh | old
    · obtain ⟨other, isKnown, key'⟩ := mem_parameterDefaults fresh
      rw [key', parameterKey_inj] at key
      exact key ▸ isKnown
    · obtain ⟨conf, other, plain', isKnown, key'⟩ := known entry.1 (List.mem_map_of_mem old)
      rw [key'] at key
      exact (parameterKey_injective plain' plain key).2 ▸ isKnown
  · intro isKnown
    obtain ⟨value, isDefault⟩ := defaultOf_isSome isKnown
    have found : ((info.parameterDefaults confName).foldl update result).lookup
        (parameterKey confName name) = some value := by
      rw [lookup_foldl_update_eq, (keyed_parameterDefaults info confName).lookup_reverse,
        lookup_parameterDefaults, isDefault]
      rfl
    exact List.mem_map.mpr ⟨_, mem_of_lookup found, rfl⟩

theorem configurations_ok_iff (plain : ∀ conf ∈ info.configurationAnnotations,
    '.' ∉ conf.name.toList) :
    (∃ entries, info.configurations = .ok entries) ↔
      ∀ conf ∈ info.configurationAnnotations, ∀ setting ∈ conf.settings, info.Accepts setting := by
  refine Fallible.foldlM_ok_iff info.KnownKeys ?_ ?_ ?_
  · intro result conf mem known
    exact applySettings_ok_iff (fun name => parameterKey_mem_iff (plain conf mem) known) conf.settings
  · intro result conf mem next known applied key found
    obtain ⟨keys, -⟩ := applyConfiguration_spec applied
    rcases keys key found with old | ⟨name, isKnown, same⟩
    · exact known key old
    · exact ⟨conf.name, name, plain conf mem, isKnown, same⟩
  · intro key mem
    obtain ⟨entry, found, rfl⟩ := List.mem_map.mp mem
    rcases mem_foldl_update found with fresh | old
    · obtain ⟨name, isKnown, same⟩ := mem_parameterDefaults fresh
      exact ⟨"default", name, by decide, isKnown, same⟩
    · cases old

end Configurations

/-! ## The properties of one benchmark and of all -/

section Properties

variable {info : BenchmarkInfo} {entries : List (String × String)}

theorem propertyKey_injective {name other k k' : String} (plain : '.' ∉ name.toList)
    (plain' : '.' ∉ other.toList) (same : propertyKey name k = propertyKey other k') :
    name = other ∧ k = k' :=
  JavaString.joined_injective plain plain' same

theorem BenchmarkInfo.PlainNames.dotless (plain : info.PlainNames) : '.' ∉ info.name.toList :=
  fun dot => (plain.name.2 _ dot).1 rfl

theorem BenchmarkInfo.toMap_ok (written : info.toMap = .ok entries) :
    ∃ configurations, info.configurations = .ok configurations ∧
      entries = configurations.foldl update (info.parameters.foldl update info.details) := by
  obtain ⟨configurations, collected, rest⟩ := Fallible.bind_eq_ok.mp written
  exact ⟨configurations, collected, (Except.ok.inj rest).symm⟩

/-- The keys of the parameters end with what they describe. -/
theorem mem_parameters {entry : String × String} (mem : entry ∈ info.parameters) :
    ∃ front last, entry.1 = front ++ "." ++ last ∧ (last = "default" ∨ last = "summary") := by
  rcases mem_foldl_update mem with mem | mem
  · obtain ⟨p, -, mem⟩ := List.mem_flatMap.mp mem
    have two : entry = ("parameter." ++ p.name ++ ".default", p.defaultValue) ∨
        entry = ("parameter." ++ p.name ++ ".summary", p.summary) := by simpa using mem
    rcases two with rfl | rfl
    · exact ⟨"parameter." ++ p.name, "default", by simp [String.append_assoc], .inl rfl⟩
    · exact ⟨"parameter." ++ p.name, "summary", by simp [String.append_assoc], .inr rfl⟩
  · cases mem

def detailKeys : List String :=
  ["module", "class", "name", "groups", "summary", "description", "licenses", "repetitions",
    "distro", "jvm_version_min", "jvm_version_max", "scala_version"]

theorem keys_details (info : BenchmarkInfo) : info.details.map Prod.fst = detailKeys := rfl

theorem keyed_details (info : BenchmarkInfo) : Keyed info.details := by
  rw [Keyed, keys_details]
  decide

theorem mem_details {entry : String × String} (mem : entry ∈ info.details) :
    '.' ∉ entry.1.toList := by
  have keys : ∀ key ∈ detailKeys, '.' ∉ key.toList := by decide
  exact keys entry.1 (keys_details info ▸ List.mem_map_of_mem mem)

theorem keyed_parameters (info : BenchmarkInfo) : Keyed info.parameters :=
  Keyed.nil.foldl_update _

theorem keyed_toMap (written : info.toMap = .ok entries) : Keyed entries := by
  obtain ⟨configurations, -, rfl⟩ := info.toMap_ok written
  exact ((keyed_details info).foldl_update _).foldl_update _

theorem mem_toMap (written : info.toMap = .ok entries) {entry : String × String}
    (mem : entry ∈ entries) :
    (∃ configurations, info.configurations = .ok configurations ∧ entry ∈ configurations) ∨
      entry ∈ info.parameters ∨ entry ∈ info.details := by
  obtain ⟨configurations, collected, rfl⟩ := info.toMap_ok written
  exact (mem_foldl_update mem).imp (fun mem => ⟨configurations, collected, mem⟩) mem_foldl_update

theorem lookup_toMap_parameter (plain : info.PlainNames) (written : info.toMap = .ok entries)
    {confName name value : String} (declared : confName ∈ info.configurationNames)
    (isDefault : info.defaultOf name = some value) :
    entries.lookup (parameterKey confName name) =
      some ((info.declaredSetting confName name).getD value) := by
  obtain ⟨configurations, collected, rfl⟩ := info.toMap_ok written
  rw [lookup_foldl_update_eq, (keyed_configurations plain collected).lookup_reverse,
    lookup_configurations plain collected declared isDefault]
  rfl

theorem dot_mem_joined (front last : String) : '.' ∈ (front ++ "." ++ last).toList := by
  simp [String.toList_append]

/-- A dot is in the keys of configurations and parameters, so nothing replaces an entry that every
benchmark has. -/
theorem lookup_toMap_detail (plain : info.PlainNames) (written : info.toMap = .ok entries)
    {key value : String} (detail : (key, value) ∈ info.details) :
    entries.lookup key = some value := by
  obtain ⟨configurations, collected, rfl⟩ := info.toMap_ok written
  have plainKey : '.' ∉ key.toList := mem_details detail
  have notConfigured : configurations.lookup key = none := by
    rw [List.lookup_eq_none_iff]
    intro entry mem
    obtain ⟨confName, -, name, -, same⟩ := mem_configurations plain collected mem
    have apart : key ≠ entry.1 := by
      intro h
      rw [h, same] at plainKey
      exact plainKey (dot_mem_joined _ _)
    simpa using apart
  have notParameter : info.parameters.lookup key = none := by
    rw [List.lookup_eq_none_iff]
    intro entry mem
    obtain ⟨front, last, same, -⟩ := mem_parameters mem
    have apart : key ≠ entry.1 := by
      intro h
      rw [h, same] at plainKey
      exact plainKey (dot_mem_joined _ _)
    simpa using apart
  rw [lookup_foldl_update_eq, (keyed_configurations plain collected).lookup_reverse, notConfigured,
    lookup_foldl_update_eq, (keyed_parameters info).lookup_reverse, notParameter,
    (keyed_details info).lookup_of_mem detail]
  rfl

theorem lookup_toMap_name (plain : info.PlainNames) (written : info.toMap = .ok entries) :
    entries.lookup "name" = some info.name :=
  lookup_toMap_detail plain written (by simp [BenchmarkInfo.details])

theorem known_dotless {name : String} (plain : info.PlainNames) (known : info.Known name) :
    '.' ∉ name.toList := by
  rcases known with rfl | declared
  · decide
  · obtain ⟨p, mem, rfl⟩ := List.mem_map.mp declared
    exact fun dot => ((plain.parameters p mem).2 _ dot).1 rfl

theorem propertyKey_parameterKey (benchmark confName name : String) :
    propertyKey benchmark (parameterKey confName name) =
      "benchmark." ++ benchmark ++ "." ++ ("configuration." ++ confName) ++ "." ++ name := by
  simp only [propertyKey_eq, parameterKey_eq, String.append_assoc]

/-- The entries whose keys end like that of a name. -/
theorem endsWith_name (plain : info.PlainNames) (written : info.toMap = .ok entries)
    {entry : String × String} (mem : entry ∈ entries)
    (ends' : JavaString.endsWith (propertyKey info.name entry.1) ".name" = true) :
    entry.1 = "name" ∨ "name" ∈ info.parameterAnnotations.map (·.name) ∧
      ∃ confName ∈ info.configurationNames, entry.1 = parameterKey confName "name" := by
  have dotless : '.' ∉ "name".toList := by decide
  have joined : ∀ front last : String, '.' ∉ last.toList →
      propertyKey info.name entry.1 = front ++ "." ++ last → last = "name" := by
    intro front last plainLast key
    rw [key] at ends'
    exact (JavaString.endsWith_joined plainLast dotless).mp ends'
  rcases mem_toMap written mem with ⟨configurations, collected, mem⟩ | mem | mem
  · obtain ⟨confName, declared, name, known, key⟩ := mem_configurations plain collected mem
    have same : name = "name" := by
      refine joined ("benchmark." ++ info.name ++ "." ++ ("configuration." ++ confName)) name
        (known_dotless plain known) ?_
      rw [key, propertyKey_parameterKey]
    subst same
    exact .inr ⟨known.resolve_left (by decide), confName, declared, key⟩
  · obtain ⟨front, last, key, isLast⟩ := mem_parameters mem
    have plainLast : '.' ∉ last.toList := by rcases isLast with rfl | rfl <;> decide
    have same : last = "name" := by
      refine joined ("benchmark." ++ info.name ++ "." ++ front) last plainLast ?_
      rw [key, propertyKey_eq]
      simp [String.append_assoc]
    subst same
    exact absurd isLast (by decide)
  · exact .inl (joined ("benchmark." ++ info.name) entry.1 (mem_details mem) rfl)

section AllBenchmarks

variable {benchmarks : List BenchmarkInfo} {props props' : List (String × String)} {name : String}

theorem addProperties_eq (name : String) (entries props : List (String × String)) :
    addProperties name entries props =
      (entries.map fun entry => (propertyKey name entry.1, entry.2)).foldl update props := by
  rw [addProperties, List.foldl_map]

theorem propertyKey_inj (name : String) (k k' : String)
    (same : propertyKey name k = propertyKey name k') : k = k' := by
  have lists := congrArg String.toList same
  simp only [propertyKey_eq, String.toList_append, List.append_cancel_left_eq] at lists
  exact String.toList_injective lists

theorem mem_addProperties {entry : String × String} (mem : entry ∈ addProperties name entries props) :
    (∃ entry' ∈ entries, entry = (propertyKey name entry'.1, entry'.2)) ∨ entry ∈ props := by
  rw [addProperties_eq] at mem
  refine (mem_foldl_update mem).imp_left fun mem => ?_
  obtain ⟨entry', found, same⟩ := List.mem_map.mp mem
  exact ⟨entry', found, same.symm⟩

theorem lookup_addProperties (keyed : Keyed entries) (key : String) :
    (addProperties name entries props).lookup (propertyKey name key) =
      (entries.lookup key).or (props.lookup (propertyKey name key)) := by
  rw [addProperties_eq, lookup_foldl_update_eq, ← List.map_reverse,
    lookup_map_key (propertyKey_inj name), keyed.lookup_reverse]

theorem lookup_addProperties_other {other : String} (plain : '.' ∉ name.toList)
    (plain' : '.' ∉ other.toList) (apart : other ≠ name) (key : String) :
    (addProperties name entries props).lookup (propertyKey other key) =
      props.lookup (propertyKey other key) := by
  have absent : (entries.map fun entry => (propertyKey name entry.1, entry.2)).reverse.lookup
      (propertyKey other key) = none := by
    rw [List.lookup_eq_none_iff]
    intro entry mem
    obtain ⟨entry', -, rfl⟩ := List.mem_map.mp (List.mem_reverse.mp mem)
    have keys : propertyKey other key ≠ propertyKey name entry'.1 :=
      fun same => apart (propertyKey_injective plain' plain same).1
    simpa using keys
  rw [addProperties_eq, lookup_foldl_update_eq, absent, Option.none_or]

theorem addBenchmark_ok {bench : BenchmarkInfo} (added : addBenchmark props bench = .ok props') :
    ∃ entries, bench.toMap = .ok entries ∧ props' = addProperties bench.name entries props := by
  obtain ⟨entries, written, rest⟩ := Fallible.bind_eq_ok.mp added
  exact ⟨entries, written, (Except.ok.inj rest).symm⟩

theorem addBenchmarks_mem (added : benchmarks.foldlM addBenchmark props = .ok props')
    {entry : String × String} (mem : entry ∈ props') :
    (∃ bench ∈ benchmarks, ∃ entries, bench.toMap = .ok entries ∧
      ∃ entry' ∈ entries, entry = (propertyKey bench.name entry'.1, entry'.2)) ∨ entry ∈ props := by
  induction benchmarks generalizing props with
  | nil =>
      cases added
      exact .inr mem
  | cons bench benchmarks ih =>
      obtain ⟨next, first, rest⟩ := Fallible.foldlM_cons_ok.mp added
      obtain ⟨entries, written, rfl⟩ := addBenchmark_ok first
      rcases ih rest with ⟨other, listed, found⟩ | before
      · exact .inl ⟨other, by simp [listed], found⟩
      · exact (mem_addProperties before).imp_left fun found =>
          ⟨bench, by simp, entries, written, found⟩

/-- The properties of other benchmarks stay what they are. -/
theorem addBenchmarks_other (plain : ∀ bench ∈ benchmarks, bench.PlainNames)
    (added : benchmarks.foldlM addBenchmark props = .ok props') (plainName : '.' ∉ name.toList)
    (apart : name ∉ benchmarks.map (·.name)) (key : String) :
    props'.lookup (propertyKey name key) = props.lookup (propertyKey name key) := by
  induction benchmarks generalizing props with
  | nil =>
      cases added
      rfl
  | cons bench benchmarks ih =>
      obtain ⟨next, first, rest⟩ := Fallible.foldlM_cons_ok.mp added
      obtain ⟨entries, -, rfl⟩ := addBenchmark_ok first
      obtain ⟨apartFirst, apartRest⟩ := not_or.mp (fun h => apart (List.mem_cons.mpr h))
      rw [ih (fun other mem => plain other (by simp [mem])) rest apartRest,
        lookup_addProperties_other (plain bench (by simp)).dotless plainName apartFirst]

theorem addBenchmarks_lookup (plain : ∀ bench ∈ benchmarks, bench.PlainNames)
    (distinct : (benchmarks.map (·.name)).Nodup)
    (added : benchmarks.foldlM addBenchmark props = .ok props')
    (new : ∀ bench ∈ benchmarks, ∀ key, props.lookup (propertyKey bench.name key) = none) :
    ∀ bench ∈ benchmarks, ∃ entries, bench.toMap = .ok entries ∧
      ∀ key, props'.lookup (propertyKey bench.name key) = entries.lookup key := by
  induction benchmarks generalizing props with
  | nil => simp
  | cons bench benchmarks ih =>
      obtain ⟨next, first, rest⟩ := Fallible.foldlM_cons_ok.mp added
      obtain ⟨entries, written, rfl⟩ := addBenchmark_ok first
      obtain ⟨apart, distinct'⟩ := List.nodup_cons.mp distinct
      have plain' : ∀ other ∈ benchmarks, other.PlainNames :=
        fun other mem => plain other (by simp [mem])
      have plainName := (plain bench (by simp)).dotless
      refine List.forall_mem_cons.mpr ⟨⟨entries, written, fun key => ?_⟩,
        ih plain' distinct' rest fun other mem key => ?_⟩
      · rw [addBenchmarks_other plain' rest plainName apart,
          lookup_addProperties (keyed_toMap written), new bench (by simp), Option.or_none]
      · have ne : other.name ≠ bench.name := fun same =>
          apart (List.mem_map.mpr ⟨other, mem, same⟩)
        rw [lookup_addProperties_other plainName (plain' other mem).dotless ne,
          new other (by simp [mem])]

/-- The properties are written if the settings of all benchmarks are accepted. -/
theorem makeBenchmarksProperties_ok_iff (plain : ∀ bench ∈ benchmarks, bench.PlainNames) :
    (∃ props, makeBenchmarksProperties benchmarks = .ok props) ↔
      ∀ bench ∈ benchmarks, ∀ conf ∈ bench.configurationAnnotations,
        ∀ setting ∈ conf.settings, bench.Accepts setting := by
  refine Fallible.foldlM_ok_iff (fun _ => True) ?_ (fun _ _ _ _ _ _ => trivial) trivial
  intro props bench mem _
  have plainConfs : ∀ conf ∈ bench.configurationAnnotations, '.' ∉ conf.name.toList :=
    fun conf listed dot => (((plain bench mem).configurations conf listed).2 _ dot).1 rfl
  rw [← configurations_ok_iff plainConfs]
  constructor
  · rintro ⟨props', added⟩
    obtain ⟨entries, mapped, -⟩ := addBenchmark_ok added
    obtain ⟨configurations, collected, -⟩ := bench.toMap_ok mapped
    exact ⟨configurations, collected⟩
  · rintro ⟨configurations, collected⟩
    exact ⟨_, by rw [addBenchmark, BenchmarkInfo.toMap, collected]; rfl⟩

/-- Under the keys of a benchmark there is what its `toMap` has. -/
theorem lookup_makeBenchmarksProperties (plain : ∀ bench ∈ benchmarks, bench.PlainNames)
    (distinct : (benchmarks.map (·.name)).Nodup)
    (written : makeBenchmarksProperties benchmarks = .ok props) :
    ∀ bench ∈ benchmarks, ∃ entries, bench.toMap = .ok entries ∧
      ∀ key, props.lookup (propertyKey bench.name key) = entries.lookup key :=
  addBenchmarks_lookup plain distinct written fun _ _ _ => rfl

theorem mem_makeBenchmarksProperties (written : makeBenchmarksProperties benchmarks = .ok props)
    {entry : String × String} (mem : entry ∈ props) :
    ∃ bench ∈ benchmarks, ∃ entries, bench.toMap = .ok entries ∧
      ∃ entry' ∈ entries, entry = (propertyKey bench.name entry'.1, entry'.2) :=
  (addBenchmarks_mem written mem).resolve_right (by simp)

end AllBenchmarks

end Properties

end Build

end Renaissance
