import Renaissance.Harness.Config
import Renaissance.Harness.RenaissanceSuite

/-!
# From the command line to the dispatcher

The part of `main` between reading the command line and running the benchmarks: load the external
plugins, choose the execution policy, and put the plugins in the order in which they are registered.
The loaded plugins go through a map, whose order of enumeration is a parameter beyond four entries.

Result: `registers_in_option_order_iff` says when the external plugins are registered in the order of
their options.
-/

namespace Renaissance

open JavaCollections

/-- The class that an extension was instantiated from. -/
structure ExtensionClass where
  name : String
  interfaces : List Interface
deriving DecidableEq, Repr

/-- What surrounds the harness: files, the class loader, whose `ExtensionException` is represented by
its message, and the order in which a map of plugins enumerates its keys. -/
structure Host where
  pathSeparator : Char
  isReadable : String → Bool
  createExtension : List String → String → List String → Except String ExtensionClass
  createDescribedExtension : List String → String → List String → Except String ExtensionClass
  order : IterationOrder PluginSpecifier

/-- The policy object that `main` ends up with. -/
inductive PolicyInstance where
  | builtin (policy : BuiltinPolicy)
  | external (policy : ExternalPlugin)

def BuiltinPolicy.cls : BuiltinPolicy → PolicyClass
  | .fixedOpCount _ => .fixedOpCount
  | .fixedTime _ => .fixedTime
  | .fixedOpTime _ => .fixedOpTime

/-- The time limit of the policy. -/
def BuiltinPolicy.runTime? : BuiltinPolicy → Option Int
  | .fixedOpCount _ => none
  | .fixedTime policy => some policy.runTimeNanos
  | .fixedOpTime policy => some policy.operationRunTimeNanos

/-- The policy as a plugin. -/
def PolicyInstance.plugin : PolicyInstance → Plugin
  | .builtin policy => .builtinPolicy policy.cls
  | .external policy => .external policy

/-- The specifier of an external plugin. -/
def Plugin.specifier? : Plugin → Option PluginSpecifier
  | .external p => some p.specifier
  | _ => none

/-- What `main` hands over: the plugins and writers for `createEventDispatcher`, and the policy. -/
structure Registration where
  plugins : List Plugin
  writers : List ResultWriter
  policy : PolicyInstance

section Start

variable {π : Type} (registration : Registration)

/-- The harness that runs the benchmarks. -/
def Registration.harness (env : Env π) (vmStartNanos : Int) : Harness π where
  env := env
  dispatcher := createEventDispatcher Listener.isInstance (registration.plugins.map .plugin)
    ((List.range registration.writers.length).map .writer)
  policy :=
    match registration.policy with
    | .builtin _ => .builtin
    | .external p => .external p
  vmStartNanos := vmStartNanos

/-- The world in which it starts. Nothing asks the built-in policy if there is an external one. -/
def Registration.world (s : π) : World π where
  env := s
  policy :=
    match registration.policy with
    | .builtin policy => policy
    | .external _ => .fixedOpCount { countLimitProvider := fun _ => 0 }
  writers := registration.writers

end Start

def executionPolicyName : String :=
  "org.renaissance.Plugin$ExecutionPolicy"

namespace Host

variable (host : Host)

/-- The class is named by the specifier or by the manifest. -/
def instantiate (specifier : PluginSpecifier) (args : List String) :
    Except String ExtensionClass :=
  match specifier.className with
  | some className => host.createExtension specifier.paths className args
  | none => host.createDescribedExtension specifier.paths "Renaissance-Plugin" args

def loadExternalPlugin (specifier : PluginSpecifier) (args : List String) :
    Except String ExternalPlugin :=
  match specifier.paths.find? (!host.isReadable ·) with
  | some unreadablePath =>
      .error ("path element '" ++ unreadablePath ++ "' does not exist or is not readable")
  | none =>
      (host.instantiate specifier args).map fun cls =>
        { specifier, className := cls.name, interfaces := cls.interfaces }

def exitWithError {α : Type} (specifier : PluginSpecifier) (message : String) : Except Abort α :=
  .error (.error
    ("error: failed to load plugin '" ++ specifier.toString host.pathSeparator ++ "': " ++ message))

/-- `pluginOrigins`: through which specifier a class of a class path was loaded. -/
abbrev PluginOrigins := AList fun _ : List String × String => PluginSpecifier

/-- The loop over the specifiers. -/
def loadEach : PluginOrigins → List (PluginSpecifier × List String) →
    Except Abort (List (PluginSpecifier × ExternalPlugin))
  | _, [] => .ok []
  | pluginOrigins, (specifier, args) :: plugins =>
      match host.loadExternalPlugin specifier args with
      | .error message => host.exitWithError specifier message
      | .ok plugin =>
          match pluginOrigins.lookup (specifier.paths, plugin.className) with
          | some otherSpecifier =>
              host.exitWithError specifier
                ("plugin was already loaded via '" ++
                  otherSpecifier.toString host.pathSeparator ++ "'")
          | none => do
              let loadedPlugins ← loadEach
                (pluginOrigins.insert (specifier.paths, plugin.className) specifier) plugins
              pure ((specifier, plugin) :: loadedPlugins)

def loadExternalPlugins (plugins : List (PluginSpecifier × List String)) :
    Except Abort (List (PluginSpecifier × ExternalPlugin)) := do
  let loadedPlugins ← host.loadEach ∅ plugins
  pure (toMap host.order loadedPlugins)

/-- The global repetition count overrides the defaults of the benchmarks. Only names of selected
benchmarks are looked up, so the last value is never used. -/
def countProvider (config : Config) (benchmarks : List BenchmarkDescriptor) (name : String) : Int :=
  match config.repetitions with
  | some count => count.toInt
  | none => ((benchmarks.find? (·.name == name)).map (·.repetitions)).getD 0

def getExecutionPolicy (config : Config) (benchmarks : List BenchmarkDescriptor)
    (plugins : List (PluginSpecifier × ExternalPlugin)) : Except Abort PolicyInstance :=
  match config.policyType with
  | .fixedOpCount =>
      .ok (.builtin (.fixedOpCount { countLimitProvider := countProvider config benchmarks }))
  | .fixedOpTime =>
      .ok (.builtin (.fixedOpTime
        { operationRunTimeNanos := secondsToNanos config.runSeconds.toInt }))
  | .fixedTime =>
      .ok (.builtin (.fixedTime { runTimeNanos := secondsToNanos config.runSeconds.toInt }))
  | .external =>
      let policyPlugin :=
        match config.policyPlugin with
        | some specifier => specifier.toString host.pathSeparator
        | none => "null"
      match config.policyPlugin.bind fun specifier => plugins.lookup specifier with
      | none => .error (.uncaught (noSuchElement policyPlugin))
      | some policy =>
          if policy.interfaces.contains .executionPolicy then .ok (.external policy)
          else
            .error (.error
              ("Error: '" ++ policyPlugin ++ "' does not implement " ++ executionPolicyName))

/-- `main` from the command line to the call of `createEventDispatcher`. -/
def register (options : List CommandOption) (benchmarks : List BenchmarkDescriptor) :
    Except Abort Registration := do
  let config ← ConfigParser.parse host.pathSeparator options
  -- Load all plugins in given order (including external policy).
  let externalPlugins ← host.loadExternalPlugins config.pluginsWithArgs
  let plugins := externalPlugins.map fun entry => Plugin.external entry.2
  let policy ← host.getExecutionPolicy config benchmarks externalPlugins
  let plugins := if config.policyType ≠ .external then policy.plugin :: plugins else plugins
  let plugins := if config.forceGc then .forceGc :: plugins else plugins
  let writers := (config.csvOutput.map fun _ => { kind := .csv }).toList ++
    (config.jsonOutput.map fun _ => { kind := .json }).toList
  pure { plugins, writers, policy }

end Host

/-! ## The order of the plugins -/

/-- Every plugin of the configuration loads: `loaded` tells the instance for each specifier, no class
is loaded twice from one class path, and an external policy is one. -/
structure Host.Loads (host : Host) (config : Config) (loaded : PluginSpecifier → ExternalPlugin) :
    Prop where
  each : ∀ entry ∈ config.pluginsWithArgs,
    host.loadExternalPlugin entry.1 entry.2 = .ok (loaded entry.1)
  once : ((config.pluginsWithArgs.map Prod.fst).map fun specifier =>
    (specifier.paths, (loaded specifier).className)).Nodup
  policy : config.policyType = .external → ∀ specifier, config.policyPlugin = some specifier →
    Interface.executionPolicy ∈ (loaded specifier).interfaces

/-- The plugins that precede the external ones: the GC plugin, if GC is forced, and the built-in
policy, if there is one. -/
def Config.builtinPlugins (config : Config) : List Plugin :=
  (if config.forceGc then [Plugin.forceGc] else []) ++
    match config.policyType with
    | .fixedOpCount => [.builtinPolicy .fixedOpCount]
    | .fixedOpTime => [.builtinPolicy .fixedOpTime]
    | .fixedTime => [.builtinPolicy .fixedTime]
    | .external => []

namespace Host

variable {host : Host} {config : Config} {loaded : PluginSpecifier → ExternalPlugin}

theorem loadExternalPlugin_specifier {specifier : PluginSpecifier} {args : List String}
    {plugin : ExternalPlugin} (loads : host.loadExternalPlugin specifier args = .ok plugin) :
    plugin.specifier = specifier := by
  unfold loadExternalPlugin at loads
  split at loads
  · cases loads
  · cases created : host.instantiate specifier args with
    | error message => simp [created, Except.map] at loads
    | ok cls =>
        rw [created] at loads
        cases loads
        rfl

theorem loadEach_eq {plugins : List (PluginSpecifier × List String)} (origins : PluginOrigins)
    (each : ∀ entry ∈ plugins, host.loadExternalPlugin entry.1 entry.2 = .ok (loaded entry.1))
    (once : ((plugins.map Prod.fst).map fun specifier =>
      (specifier.paths, (loaded specifier).className)).Nodup)
    (new : ∀ specifier ∈ plugins.map Prod.fst,
      (specifier.paths, (loaded specifier).className) ∉ origins) :
    host.loadEach origins plugins =
      .ok ((plugins.map Prod.fst).map fun specifier => (specifier, loaded specifier)) := by
  induction plugins generalizing origins with
  | nil => rfl
  | cons entry plugins ih =>
      obtain ⟨specifier, args⟩ := entry
      have first : host.loadExternalPlugin specifier args = .ok (loaded specifier) :=
        each (specifier, args) (by simp)
      have unseen : origins.lookup (specifier.paths, (loaded specifier).className) = none :=
        AList.lookup_eq_none.mpr (new specifier (by simp))
      rw [List.map_cons, List.map_cons, List.nodup_cons] at once
      have newRest : ∀ other ∈ plugins.map Prod.fst, (other.paths, (loaded other).className) ∉
          origins.insert (specifier.paths, (loaded specifier).className) specifier := by
        intro other mem seen
        rcases (AList.mem_insert _).mp seen with same | seen
        · exact once.1 (List.mem_map.mpr ⟨other, mem, same⟩)
        · exact new other (by simp [mem]) seen
      have rest := ih _ (fun entry mem => each entry (by simp [mem])) once.2 newRest
      simp only [loadEach, first, unseen, rest]
      rfl

theorem loadExternalPlugins_eq (distinct : (config.pluginsWithArgs.map Prod.fst).Nodup)
    (loads : host.Loads config loaded) :
    host.loadExternalPlugins config.pluginsWithArgs =
      .ok ((enumerate host.order (config.pluginsWithArgs.map Prod.fst)).map fun specifier =>
        (specifier, loaded specifier)) := by
  rw [loadExternalPlugins, loadEach_eq ∅ loads.each loads.once (by simp)]
  simp only [bind, Except.bind, pure, Except.pure, toMap_map host.order distinct]

theorem getExecutionPolicy_eq (wf : config.WellFormed) (loads : host.Loads config loaded)
    (benchmarks : List BenchmarkDescriptor) :
    ∃ policy, host.getExecutionPolicy config benchmarks
        ((enumerate host.order (config.pluginsWithArgs.map Prod.fst)).map fun specifier =>
          (specifier, loaded specifier)) = .ok policy ∧
      ((if config.forceGc then [Plugin.forceGc] else []) ++
        if config.policyType ≠ .external then [policy.plugin] else []) = config.builtinPlugins := by
  cases type : config.policyType with
  | external =>
      obtain ⟨specifier, mem, named⟩ := wf.policyPlugin type
      have implements : (loaded specifier).interfaces.contains .executionPolicy = true :=
        List.contains_iff_mem.mpr (loads.policy type specifier named)
      have found := lookup_map (f := loaded)
        ((enumerate_perm host.order (config.pluginsWithArgs.map Prod.fst)).mem_iff.mpr mem)
      refine ⟨.external (loaded specifier), ?_, by simp [Config.builtinPlugins, type]⟩
      simp only [getExecutionPolicy, type, named, Option.bind_some, found, implements, if_true]
  | _ =>
      refine ⟨_, by simp only [getExecutionPolicy, type]; rfl, ?_⟩
      simp [Config.builtinPlugins, type, PolicyInstance.plugin, BuiltinPolicy.cls]

/-- The plugins in the order in which `main` registers them. -/
theorem register_eq {options : List CommandOption}
    (accepted : ConfigParser.parse host.pathSeparator options = .ok config)
    (loads : host.Loads config loaded) (benchmarks : List BenchmarkDescriptor) :
    ∃ registration, host.register options benchmarks = .ok registration ∧
      registration.plugins = config.builtinPlugins ++
        (enumerate host.order (specifiers host.pathSeparator options)).map fun specifier =>
          .external (loaded specifier) := by
  have wf := ConfigParser.parse_wellFormed accepted
  obtain ⟨policy, chosen, builtin⟩ := getExecutionPolicy_eq wf loads benchmarks
  have external := loadExternalPlugins_eq wf.distinct loads
  have names : config.pluginsWithArgs.map Prod.fst = specifiers host.pathSeparator options :=
    ConfigParser.parse_specifiers accepted
  refine ⟨_, by
    simp only [register, accepted, external, chosen, bind, Except.bind, pure, Except.pure]
    rfl, ?_⟩
  rw [← builtin, ← names]
  by_cases isExternal : config.policyType = .external <;> by_cases gc : config.forceGc <;>
    simp [isExternal, gc]

/-- Every instance knows the specifier it was loaded through. -/
theorem specifiers_of_loaded (loads : host.Loads config loaded) {keys : List PluginSpecifier}
    (known : ∀ key ∈ keys, key ∈ config.pluginsWithArgs.map Prod.fst) :
    (keys.map fun key => Plugin.external (loaded key)).filterMap Plugin.specifier? = keys := by
  have self : ∀ key ∈ keys, (loaded key).specifier = key := by
    intro key mem
    obtain ⟨entry, memEntry, rfl⟩ := List.mem_map.mp (known key mem)
    exact loadExternalPlugin_specifier (loads.each entry memEntry)
  rw [List.filterMap_map]
  calc keys.filterMap (Plugin.specifier? ∘ fun key => .external (loaded key))
      = keys.filterMap some := List.filterMap_congr fun key mem => congrArg some (self key mem)
    _ = keys := List.filterMap_some

/-- A built-in policy has the run time that was asked for, and is not an external plugin. -/
theorem builtin_of_getExecutionPolicy {benchmarks : List BenchmarkDescriptor}
    {plugins : List (PluginSpecifier × ExternalPlugin)} {policy : BuiltinPolicy}
    (chosen : host.getExecutionPolicy config benchmarks plugins = .ok (.builtin policy)) :
    config.policyType ≠ .external ∧
      ∀ limit, policy.runTime? = some limit → limit = secondsToNanos config.runSeconds.toInt := by
  unfold getExecutionPolicy at chosen
  cases type : config.policyType with
  | external =>
      simp only [type] at chosen
      split at chosen
      · cases chosen
      · split at chosen <;> cases chosen
  | _ =>
      simp only [type] at chosen
      cases chosen
      refine ⟨nofun, fun limit same => ?_⟩
      cases same
      try rfl

/-- With a built-in policy, the policy precedes the external plugins. -/
theorem register_builtin {options : List CommandOption} {benchmarks : List BenchmarkDescriptor}
    {registration : Registration} (registered : host.register options benchmarks = .ok registration)
    {policy : BuiltinPolicy} (builtin : registration.policy = .builtin policy) :
    (∃ (gc : Bool) (externals : List ExternalPlugin), registration.plugins =
      (if gc then [Plugin.forceGc] else []) ++
        .builtinPolicy policy.cls :: externals.map Plugin.external) ∧
    ∀ limit, policy.runTime? = some limit → 0 ≤ limit ∧ limit < 2 ^ 63 := by
  unfold register at registered
  obtain ⟨config, parsed, rest⟩ := Fallible.bind_eq_ok.mp registered
  obtain ⟨externals, -, rest⟩ := Fallible.bind_eq_ok.mp rest
  obtain ⟨instance', chosen, rest⟩ := Fallible.bind_eq_ok.mp rest
  cases rest
  obtain rfl : instance' = .builtin policy := builtin
  obtain ⟨notExternal, runTime⟩ := builtin_of_getExecutionPolicy chosen
  refine ⟨⟨config.forceGc, externals.map Prod.snd, ?_⟩, fun limit same => ?_⟩
  · cases config.forceGc <;> simp [notExternal, PolicyInstance.plugin]
  · have positive := (ConfigParser.parse_wellFormed parsed).runSeconds
    rw [runTime limit same, secondsToNanos]
    omega

theorem enumerate_eq_self_iff {κ : Type} (order : IterationOrder κ) (keys : List κ) :
    enumerate order keys = keys ↔ keys.length ≤ 4 ∨ order.arrange keys = keys := by
  unfold enumerate
  split
  · exact iff_of_true rfl (.inl ‹_›)
  · simp [*]

/-- A command line whose plugins all load leads to the dispatcher. The sequence of plugins is the GC
plugin, the built-in policy, and the external plugins in the order of their options, exactly if
there are at most four external plugins or the map happens to enumerate them in that order. -/
theorem registers_in_option_order_iff (host : Host) (options : List CommandOption)
    (benchmarks : List BenchmarkDescriptor) (config : Config)
    (loaded : PluginSpecifier → ExternalPlugin)
    (accepted : ConfigParser.parse host.pathSeparator options = .ok config)
    (loads : host.Loads config loaded) :
    (∃ registration, host.register options benchmarks = .ok registration ∧
        registration.plugins = config.builtinPlugins ++
          (specifiers host.pathSeparator options).map fun specifier =>
            .external (loaded specifier)) ↔
      (specifiers host.pathSeparator options).length ≤ 4 ∨
        host.order.arrange (specifiers host.pathSeparator options) =
          specifiers host.pathSeparator options := by
  obtain ⟨registration, registered, plugins⟩ := register_eq accepted loads benchmarks
  rw [← enumerate_eq_self_iff]
  constructor
  · rintro ⟨_, same, expected⟩
    cases registered.symm.trans same
    have order := List.append_cancel_left (plugins.symm.trans expected)
    have names : config.pluginsWithArgs.map Prod.fst = specifiers host.pathSeparator options :=
      ConfigParser.parse_specifiers accepted
    have keys := congrArg (List.filterMap Plugin.specifier?) order
    rw [specifiers_of_loaded loads fun key mem => names ▸ mem,
      specifiers_of_loaded loads fun key mem =>
        names ▸ (enumerate_perm host.order _).mem_iff.mp mem] at keys
    exact keys
  · intro same
    exact ⟨registration, registered, by rw [plugins, same]⟩

/-- A host where every class can be loaded, and which enumerates large maps from the last entry. -/
def reversing : Host where
  pathSeparator := ':'
  isReadable _ := true
  createExtension _ className _ := .ok { name := className, interfaces := [] }
  createDescribedExtension _ _ _ := .error "class name to load not found in manifests"
  order := { arrange := List.reverse, perm := fun keys => keys.reverse_perm }

/-- One option for each class of a class path. -/
def pluginOptions (classNames : List String) : List CommandOption :=
  classNames.map fun className => .plugin ("plugin.jar!" ++ className)

def configOf (classNames : List String) : Config where
  pluginArgs := classNames.map fun className => (⟨["plugin.jar"], some className⟩, [])

def instanceOf (specifier : PluginSpecifier) : ExternalPlugin where
  specifier := specifier
  className := specifier.className.getD ""
  interfaces := []

theorem reversing_loads {classNames : List String} (distinct : classNames.Nodup) :
    reversing.Loads (configOf classNames) instanceOf where
  each entry mem := by
    obtain ⟨className, -, rfl⟩ := List.mem_map.mp mem
    rfl
  once := by
    have names : ((configOf classNames).pluginsWithArgs.map Prod.fst).map (fun specifier =>
        (specifier.paths, (instanceOf specifier).className)) =
        classNames.map fun className => (["plugin.jar"], className) := by
      simp [Config.pluginsWithArgs, configOf, instanceOf, Function.comp_def]
    rw [names]
    exact distinct.map fun _ _ same => congrArg Prod.snd same
  policy external := by cases external

/-- Four plugins are registered in the order of their options. -/
theorem registers_four_in_order :
    ∃ registration, reversing.register (pluginOptions ["A", "B", "C", "D"]) [] = .ok registration ∧
      registration.plugins =
        [Plugin.forceGc, .builtinPolicy .fixedOpCount] ++
          (specifiers ':' (pluginOptions ["A", "B", "C", "D"])).map fun specifier =>
            .external (instanceOf specifier) :=
  (registers_in_option_order_iff reversing (pluginOptions ["A", "B", "C", "D"]) []
    (configOf ["A", "B", "C", "D"]) instanceOf rfl (reversing_loads (by decide))).mpr
    (.inl (by decide))

/-- Five plugins are not: the map that they are collected in forgets the order. -/
theorem five_plugins_out_of_order :
    ¬ ∀ (host : Host) (options : List CommandOption) (benchmarks : List BenchmarkDescriptor)
        (config : Config) (loaded : PluginSpecifier → ExternalPlugin),
        ConfigParser.parse host.pathSeparator options = .ok config → host.Loads config loaded →
          ∃ registration, host.register options benchmarks = .ok registration ∧
            registration.plugins = config.builtinPlugins ++
              (specifiers host.pathSeparator options).map fun specifier =>
                .external (loaded specifier) := by
  intro claim
  obtain ⟨registration, registered, inOrder⟩ := claim reversing
    (pluginOptions ["A", "B", "C", "D", "E"]) [] (configOf ["A", "B", "C", "D", "E"]) instanceOf rfl
    (reversing_loads (by decide))
  have reversed : (reversing.register (pluginOptions ["A", "B", "C", "D", "E"]) []).map
      (·.plugins) = .ok ([.forceGc, .builtinPolicy .fixedOpCount] ++
        ["E", "D", "C", "B", "A"].map fun className =>
          .external (instanceOf ⟨["plugin.jar"], some className⟩)) := rfl
  rw [registered] at reversed
  rw [Except.map, Except.ok.injEq, inOrder] at reversed
  exact absurd reversed (by decide)

end Host

end Renaissance
