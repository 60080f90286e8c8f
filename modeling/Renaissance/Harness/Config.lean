import Mathlib.Data.List.ModifyLast
import Renaissance.Harness.Plugin
import Renaissance.Lib.Fallible
import Renaissance.Lib.JavaCollections
import Renaissance.Lib.JavaString
import Renaissance.Lib.UnixPath

/-!
# The command line

`ConfigParser` turns the options of the command line into a `Config`. An option arrives with its value
already read as the type it is declared with. `File.pathSeparator` is a parameter.

Results:
1. `parse_accepts_iff`: which command lines are accepted.
2. `parse_specifiers`: a configuration has one entry of `pluginArgs` for each `--plugin` and `--policy`
   option, in the order of the options.
3. `parse_wellFormed`: no specifier comes twice, that of an external policy is among them, and counts
   and times are positive.
-/

namespace Renaissance

/-- Why the harness exits with status 1 before it runs a benchmark: the option parser has reported
the errors of the command line, a line was printed for the user, or an exception was not caught. -/
inductive Abort where
  | usage
  | error (line : String)
  | uncaught (cause : Throwable)
deriving DecidableEq, Repr

namespace PluginSpecifier

/-- The text before and after the last occurrence of a character. -/
def splitAtLast (c : Char) : List Char → Option (List Char × List Char)
  | [] => none
  | first :: rest =>
      match splitAtLast c rest with
      | some (before, after) => some (first :: before, after)
      | none => if first = c then some ([], rest) else none

/-- `codePaths.split(File.pathSeparator)`. -/
def split (pathSeparator : Char) (codePaths : List Char) : List String :=
  JavaString.split pathSeparator codePaths

def apply (pathSeparator : Char) (specifier : String) : PluginSpecifier :=
  match splitAtLast '!' specifier.toList with
  | none => { paths := split pathSeparator specifier.toList, className := none }
  | some (codePaths, className) =>
      { paths := split pathSeparator codePaths, className := some (String.ofList className) }

def toString (pathSeparator : Char) (specifier : PluginSpecifier) : String :=
  let ps := pathSeparator.toString.intercalate specifier.paths
  match specifier.className with
  | some cn => ps ++ "!" ++ cn
  | none => ps

end PluginSpecifier

inductive PolicyType where
  | fixedOpCount | fixedOpTime | fixedTime | external
deriving DecidableEq, Repr

structure Config where
  pluginArgs : List (PluginSpecifier × List String) := []
  policyType : PolicyType := .fixedOpCount
  repetitions : Option Int32 := none
  runSeconds : Int32 := 240
  policyPlugin : Option PluginSpecifier := none
  csvOutput : Option String := none
  jsonOutput : Option String := none
  forceGc : Bool := true
  benchmarkSpecifiers : List String := []
  printList : Bool := false
  printRawList : Bool := false
  printGroupList : Bool := false
  configuration : String := "default"
  parameterOverrides : List (String × String) := []
  checkJvm : Bool := true
  useModules : Bool := true
  scratchBase : UnixPath := UnixPath.get ""
  keepScratch : Bool := false
  benchmarkMetadataOverrideUri : Option String := none

namespace Config

/-- The plugin specifiers, in the order of insertion, with their arguments. -/
def pluginsWithArgs (config : Config) : List (PluginSpecifier × List String) :=
  config.pluginArgs

/-- The buffer for further arguments is that of the entry added last. Before the first entry it is a
buffer that nothing reads. -/
def withExtraArg (arg : String) (config : Config) : Config :=
  { config with
    pluginArgs := config.pluginArgs.modifyLast fun entry => (entry.1, entry.2 ++ [arg]) }

def withPlugin (pathSeparator : Char) (specifier : PluginSpecifier) (config : Config) :
    Except Abort Config :=
  if specifier ∈ config.pluginArgs.map Prod.fst then
    .error (.error ("error: duplicate plugin specifier: " ++ specifier.toString pathSeparator))
  else .ok { config with pluginArgs := config.pluginArgs ++ [(specifier, [])] }

def withRepetitions (count : Int32) (config : Config) : Config :=
  { config with policyType := .fixedOpCount, repetitions := some count }

def withRunSeconds (seconds : Int32) (config : Config) : Config :=
  { config with policyType := .fixedTime, runSeconds := seconds }

def withOperationRunSeconds (seconds : Int32) (config : Config) : Config :=
  { config with policyType := .fixedOpTime, runSeconds := seconds }

def withPolicy (pathSeparator : Char) (specifier : String) (config : Config) :
    Except Abort Config :=
  let plugin := PluginSpecifier.apply pathSeparator specifier
  withPlugin pathSeparator plugin { config with policyType := .external, policyPlugin := some plugin }

def withCsvOutput (outputFile : String) (config : Config) : Config :=
  { config with csvOutput := some outputFile }

def withJsonOutput (outputFile : String) (config : Config) : Config :=
  { config with jsonOutput := some outputFile }

def withoutForcedGc (config : Config) : Config :=
  { config with forceGc := false }

def withBenchmarkSpecification (v : String) (config : Config) : Config :=
  let parts := (JavaString.split ',' v.toList).map fun part => JavaString.trim part.toList
  { config with benchmarkSpecifiers := config.benchmarkSpecifiers ++ parts }

def withList (config : Config) : Config :=
  { config with printList := true }

def withRawList (config : Config) : Config :=
  { config with printRawList := true }

def withGroupList (config : Config) : Config :=
  { config with printGroupList := true }

def withConfiguration (name : String) (config : Config) : Config :=
  { config with configuration := name }

/-- The specifier is split at the first equals sign, which a valid one has. -/
def withParameterOverride (specifier : String) (config : Config) : Config :=
  let name := JavaString.trim (specifier.toList.takeWhile (· ≠ '='))
  let value := JavaString.trim (specifier.toList.dropWhile (· ≠ '=')).tail
  { config with
    parameterOverrides := JavaCollections.update config.parameterOverrides (name, value) }

def withoutJvmCheck (config : Config) : Config :=
  { config with checkJvm := false }

def withStandalone (config : Config) : Config :=
  { config with useModules := false }

def withScratchBase (name : String) (config : Config) : Config :=
  { config with scratchBase := UnixPath.get name }

def withKeepScratch (config : Config) : Config :=
  { config with keepScratch := true }

def withBenchmarkMetadata (uri : String) (config : Config) : Config :=
  { config with benchmarkMetadataOverrideUri := some uri }

end Config

inductive CommandOption where
  | repetitions (count : Int32)
  | runSeconds (seconds : Int32)
  | operationRunSeconds (seconds : Int32)
  | policy (specifier : String)
  | plugin (specifier : String)
  | withArg (arg : String)
  | csv (file : String)
  | json (file : String)
  | noForcedGc
  | configuration (name : String)
  | override (specifier : String)
  | scratchBase (dir : String)
  | keepScratch
  | noJvmCheck
  | list
  | rawList
  | groupList
  | benchmarkMetadata (uri : String)
  | standalone
  | benchmarkSpecification (specification : String)
deriving DecidableEq

namespace ConfigParser

/-- The message of a failed validation. -/
def validate : CommandOption → Option String
  | .repetitions v => if v.toInt > 0 then none else some "<count> must be greater than 0"
  | .runSeconds v | .operationRunSeconds v =>
      if v.toInt > 0 then none else some "<seconds> must be greater than 0"
  | .policy v =>
      -- The last '!' is neither the first nor the last character.
      match PluginSpecifier.splitAtLast '!' v.toList with
      | some (_ :: _, _ :: _) => none
      | _ => some "expected <class-path>!<class-name> in external policy specification"
  | .override v =>
      -- There is an equals sign after the first character.
      if '=' ∈ v.toList ∧ v.toList.head? ≠ some '=' then none
      else some "expected <name>=<value> in benchmark parameter override"
  | _ => none

def action (pathSeparator : Char) (config : Config) : CommandOption → Except Abort Config
  | .repetitions v => .ok (config.withRepetitions v)
  | .runSeconds v => .ok (config.withRunSeconds v)
  | .operationRunSeconds v => .ok (config.withOperationRunSeconds v)
  | .policy v => config.withPolicy pathSeparator v
  | .plugin v => config.withPlugin pathSeparator (.apply pathSeparator v)
  | .withArg v => .ok (config.withExtraArg v)
  | .csv v => .ok (config.withCsvOutput v)
  | .json v => .ok (config.withJsonOutput v)
  | .noForcedGc => .ok config.withoutForcedGc
  | .configuration v => .ok (config.withConfiguration v)
  | .override v => .ok (config.withParameterOverride v)
  | .scratchBase v => .ok (config.withScratchBase v)
  | .keepScratch => .ok config.withKeepScratch
  | .noJvmCheck => .ok config.withoutJvmCheck
  | .list => .ok config.withList
  | .rawList => .ok config.withRawList
  | .groupList => .ok config.withGroupList
  | .benchmarkMetadata v => .ok (config.withBenchmarkMetadata v)
  | .standalone => .ok config.withStandalone
  | .benchmarkSpecification v => .ok (config.withBenchmarkSpecification v)

/-- The long name of an option that may be given once; `none` for an unbounded one. -/
def onceOnly : CommandOption → Option String
  | .repetitions _ => some "repetitions"
  | .runSeconds _ => some "run-seconds"
  | .operationRunSeconds _ => some "operation-run-seconds"
  | .policy _ => some "policy"
  | .csv _ => some "csv"
  | .json _ => some "json"
  | .noForcedGc => some "no-forced-gc"
  | .configuration _ => some "configuration"
  | .scratchBase _ => some "scratch-base"
  | .keepScratch => some "keep-scratch"
  | .noJvmCheck => some "no-jvm-check"
  | .list => some "list"
  | .rawList => some "raw-list"
  | .groupList => some "group-list"
  | .benchmarkMetadata _ => some "benchmark-metadata"
  | .standalone => some "standalone"
  | .plugin _ | .withArg _ | .override _ | .benchmarkSpecification _ => none

/-- Every option is valid, and none is given too often. -/
def wellFormed (options : List CommandOption) : Bool :=
  options.all (validate · == none) && decide (options.filterMap onceOnly).Nodup

/-- The actions of the valid options run in order. The parser reports errors and goes on; a
configuration comes out if there were none. -/
def parse (pathSeparator : Char) (options : List CommandOption) : Except Abort Config := do
  let config ← (options.filter (validate · == none)).foldlM (action pathSeparator) {}
  if wellFormed options then pure config else .error .usage

end ConfigParser

/-! ## What an accepted command line says -/

/-- The specifier that an option adds. -/
def CommandOption.specifier? (pathSeparator : Char) : CommandOption → Option PluginSpecifier
  | .policy v | .plugin v => some (.apply pathSeparator v)
  | _ => none

/-- The specifiers of the `--plugin` and `--policy` options in the order of the command line. -/
def specifiers (pathSeparator : Char) (options : List CommandOption) : List PluginSpecifier :=
  options.filterMap (CommandOption.specifier? pathSeparator)

/-- What the harness relies on in a configuration. -/
structure Config.WellFormed (config : Config) : Prop where
  distinct : (config.pluginArgs.map Prod.fst).Nodup
  policyPlugin : config.policyType = .external →
    ∃ specifier ∈ config.pluginArgs.map Prod.fst, config.policyPlugin = some specifier
  repetitions : ∀ count, config.repetitions = some count → 0 < count.toInt
  runSeconds : 0 < config.runSeconds.toInt

theorem Config.wellFormed_default : Config.WellFormed {} where
  distinct := List.nodup_nil
  policyPlugin external := by cases external
  repetitions _ given := by cases given
  runSeconds := by decide

namespace ConfigParser

variable {sep : Char} {config config' : Config} {o : CommandOption} {options : List CommandOption}

theorem withExtraArg_specifiers (arg : String) :
    (config.withExtraArg arg).pluginArgs.map Prod.fst = config.pluginArgs.map Prod.fst := by
  rcases List.eq_nil_or_concat config.pluginArgs with none | ⟨entries, entry, some⟩
  · simp [Config.withExtraArg, none, List.modifyLast, List.modifyLast.go]
  · simp [Config.withExtraArg, some, List.modifyLast_concat]

theorem withPlugin_ok {specifier : PluginSpecifier}
    (added : config.withPlugin sep specifier = .ok config') :
    specifier ∉ config.pluginArgs.map Prod.fst ∧
      config' = { config with pluginArgs := config.pluginArgs ++ [(specifier, [])] } := by
  unfold Config.withPlugin at added
  split at added
  · cases added
  · exact ⟨‹_›, (Except.ok.inj added).symm⟩

/-- An action adds the specifier of its option, which must be a new one. -/
theorem action_specifiers (acted : action sep config o = .ok config') :
    config'.pluginArgs.map Prod.fst =
        config.pluginArgs.map Prod.fst ++ (o.specifier? sep).toList ∧
      ∀ specifier, o.specifier? sep = some specifier →
        specifier ∉ config.pluginArgs.map Prod.fst := by
  cases o with
  | policy v | plugin v =>
      obtain ⟨new, rfl⟩ := withPlugin_ok acted
      refine ⟨by simp [CommandOption.specifier?], fun specifier same => ?_⟩
      cases same
      exact new
  | withArg arg =>
      cases acted
      exact ⟨by simp [withExtraArg_specifiers, CommandOption.specifier?], fun _ same => by cases same⟩
  | _ =>
      cases acted
      exact ⟨(List.append_nil _).symm, fun _ same => by cases same⟩

/-- The only action that fails is that of a duplicate specifier. -/
theorem action_ok (config : Config) (new : ∀ specifier, o.specifier? sep = some specifier →
    specifier ∉ config.pluginArgs.map Prod.fst) : ∃ config', action sep config o = .ok config' := by
  cases o with
  | policy v | plugin v => exact ⟨_, if_neg (new _ rfl)⟩
  | _ => exact ⟨_, rfl⟩

theorem action_wellFormed (valid : validate o = none) (acted : action sep config o = .ok config')
    (wf : config.WellFormed) : config'.WellFormed := by
  obtain ⟨added, new⟩ := action_specifiers acted
  have distinct : (config'.pluginArgs.map Prod.fst).Nodup := by
    rw [added, List.nodup_append]
    refine ⟨wf.distinct, by cases o.specifier? sep <;> simp, ?_⟩
    rintro old mem specifier isNew rfl
    exact new _ (Option.mem_toList.mp isNew) mem
  have kept : ∀ specifier ∈ config.pluginArgs.map Prod.fst,
      specifier ∈ config'.pluginArgs.map Prod.fst := fun specifier mem => by
    rw [added]
    exact List.mem_append_left _ mem
  -- An action changes the policy, the number of repetitions or the run time, or neither of them.
  cases o with
  | repetitions v =>
      have positive : v.toInt > 0 := by
        by_contra least
        simp [validate, least] at valid
      cases acted
      exact { distinct, policyPlugin := nofun, runSeconds := wf.runSeconds,
              repetitions := fun _ given => by cases given; exact positive }
  | runSeconds v | operationRunSeconds v =>
      have positive : v.toInt > 0 := by
        by_contra least
        simp [validate, least] at valid
      cases acted
      exact { distinct, policyPlugin := nofun, repetitions := wf.repetitions, runSeconds := positive }
  | policy v =>
      obtain ⟨-, rfl⟩ := withPlugin_ok acted
      exact { distinct, repetitions := wf.repetitions, runSeconds := wf.runSeconds,
              policyPlugin := fun _ => ⟨.apply sep v, by simp, rfl⟩ }
  | plugin v =>
      obtain ⟨-, rfl⟩ := withPlugin_ok acted
      refine { distinct, repetitions := wf.repetitions, runSeconds := wf.runSeconds,
               policyPlugin := fun external => ?_ }
      obtain ⟨specifier, mem, same⟩ := wf.policyPlugin external
      exact ⟨specifier, kept _ mem, same⟩
  | _ =>
      cases acted
      refine { distinct, repetitions := wf.repetitions, runSeconds := wf.runSeconds,
               policyPlugin := fun external => ?_ }
      obtain ⟨specifier, mem, same⟩ := wf.policyPlugin external
      exact ⟨specifier, kept _ mem, same⟩

theorem actions_cons :
    (o :: options).foldlM (action sep) config = .ok config' ↔
      ∃ next, action sep config o = .ok next ∧ options.foldlM (action sep) next = .ok config' := by
  rw [List.foldlM_cons, Fallible.bind_eq_ok]

theorem actions_wellFormed (valid : ∀ o ∈ options, validate o = none)
    (acted : options.foldlM (action sep) config = .ok config') (wf : config.WellFormed) :
    config'.WellFormed ∧
      config'.pluginArgs.map Prod.fst =
        config.pluginArgs.map Prod.fst ++ specifiers sep options := by
  induction options generalizing config with
  | nil =>
      cases acted
      exact ⟨wf, by simp [specifiers]⟩
  | cons o options ih =>
      obtain ⟨next, first, rest⟩ := actions_cons.mp acted
      have wfNext := action_wellFormed (valid o (by simp)) first wf
      obtain ⟨wf', same⟩ := ih (fun o mem => valid o (by simp [mem])) rest wfNext
      refine ⟨wf', ?_⟩
      rw [same, (action_specifiers first).1, List.append_assoc, specifiers, specifiers,
        List.filterMap_cons]
      cases o.specifier? sep <;> rfl

theorem actions_ok (config : Config)
    (distinct : (config.pluginArgs.map Prod.fst ++ specifiers sep options).Nodup) :
    ∃ config', options.foldlM (action sep) config = .ok config' := by
  induction options generalizing config with
  | nil => exact ⟨config, rfl⟩
  | cons o options ih =>
      have split : specifiers sep (o :: options) =
          (o.specifier? sep).toList ++ specifiers sep options := by
        rw [specifiers, specifiers, List.filterMap_cons]
        cases o.specifier? sep <;> rfl
      rw [split, ← List.append_assoc] at distinct
      have new : ∀ specifier, o.specifier? sep = some specifier →
          specifier ∉ config.pluginArgs.map Prod.fst := by
        intro specifier isNew old
        have disjoint := (List.nodup_append.mp (List.nodup_append.mp distinct).1).2.2
        exact disjoint _ old _ (by simp [isNew]) rfl
      obtain ⟨next, acted⟩ := action_ok config new
      obtain ⟨config', rest⟩ := ih next (by rwa [(action_specifiers acted).1])
      exact ⟨config', actions_cons.mpr ⟨next, acted, rest⟩⟩

theorem valid_of_wellFormed (wf : wellFormed options = true) : ∀ o ∈ options, validate o = none := by
  rw [wellFormed, Bool.and_eq_true, List.all_eq_true] at wf
  exact fun o mem => by simpa using wf.1 o mem

theorem parse_eq_ok :
    parse sep options = .ok config ↔
      wellFormed options = true ∧ options.foldlM (action sep) {} = .ok config := by
  have all : wellFormed options = true → options.filter (validate · == none) = options :=
    fun wf => List.filter_eq_self.mpr fun o mem => by simp [valid_of_wellFormed wf o mem]
  rw [parse, Fallible.bind_eq_ok]
  constructor
  · rintro ⟨result, acted, checked⟩
    split at checked
    · cases checked
      exact ⟨‹_›, all ‹_› ▸ acted⟩
    · cases checked
  · rintro ⟨wf, acted⟩
    exact ⟨config, (all wf).symm ▸ acted, if_pos wf⟩

theorem parse_wellFormed (accepted : parse sep options = .ok config) : config.WellFormed := by
  obtain ⟨wf, acted⟩ := parse_eq_ok.mp accepted
  exact (actions_wellFormed (valid_of_wellFormed wf) acted Config.wellFormed_default).1

theorem parse_specifiers (accepted : parse sep options = .ok config) :
    config.pluginArgs.map Prod.fst = specifiers sep options := by
  obtain ⟨wf, acted⟩ := parse_eq_ok.mp accepted
  simpa using (actions_wellFormed (valid_of_wellFormed wf) acted Config.wellFormed_default).2

/-- A command line is accepted if every option is valid, none is given too often, and no plugin is
specified twice. -/
theorem parse_accepts_iff :
    (∃ config, parse sep options = .ok config) ↔
      wellFormed options = true ∧ (specifiers sep options).Nodup := by
  constructor
  · rintro ⟨config, accepted⟩
    refine ⟨(parse_eq_ok.mp accepted).1, ?_⟩
    rw [← parse_specifiers accepted]
    exact (parse_wellFormed accepted).distinct
  · rintro ⟨wf, distinct⟩
    obtain ⟨config, acted⟩ := actions_ok {} (by simpa using distinct)
    exact ⟨config, parse_eq_ok.mpr ⟨wf, acted⟩⟩

end ConfigParser

end Renaissance
