import Renaissance.Harness.PluginLoading

/-!
# Plugins, their arguments and the policy

What a command line says about the plugins and the policy, as opposed to what the actions of its options
do one after the other.

`ArgBuffers` is the part of the configuration that collects arguments as the source has it: `extraArgs` is
one of the buffers that the entries of the map refer to. `Refines` relates it to `Config`.

Result: `parse_plugins_and_policy`.
-/

namespace Renaissance

open JavaCollections

/-! ## Arguments in shared buffers -/

/-- The buffers that were created so far, and references to them. -/
structure ArgBuffers where
  buffers : List (List String) := [[]]
  extraArgs : Nat := 0
  pluginArgs : List (PluginSpecifier × Nat) := []

namespace ArgBuffers

def withExtraArg (arg : String) (args : ArgBuffers) : ArgBuffers :=
  { args with buffers := args.buffers.modify args.extraArgs (· ++ [arg]) }

def withPlugin (pathSeparator : Char) (specifier : PluginSpecifier) (args : ArgBuffers) :
    Except Abort ArgBuffers :=
  if specifier ∈ args.pluginArgs.map Prod.fst then
    .error (.error ("error: duplicate plugin specifier: " ++ specifier.toString pathSeparator))
  else
    .ok { buffers := args.buffers ++ [[]], extraArgs := args.buffers.length,
          pluginArgs := args.pluginArgs ++ [(specifier, args.buffers.length)] }

def contents (args : ArgBuffers) (entry : PluginSpecifier × Nat) : PluginSpecifier × List String :=
  (entry.1, (args.buffers[entry.2]?).getD [])

def pluginsWithArgs (args : ArgBuffers) : List (PluginSpecifier × List String) :=
  args.pluginArgs.map args.contents

/-- What the action of an option does to the arguments. -/
def action (pathSeparator : Char) (args : ArgBuffers) : CommandOption → Except Abort ArgBuffers
  | .policy v | .plugin v => args.withPlugin pathSeparator (.apply pathSeparator v)
  | .withArg v => .ok (args.withExtraArg v)
  | _ => .ok args

/-- The entries have the arguments of the configuration. Only the last one shares its buffer with
`extraArgs`. -/
structure Refines (args : ArgBuffers) (config : Config) : Prop where
  entries : args.pluginsWithArgs = config.pluginArgs
  allocated : ∀ entry ∈ args.pluginArgs, entry.2 < args.buffers.length
  shared : ∀ front entry, args.pluginArgs = front ++ [entry] →
    entry.2 = args.extraArgs ∧ ∀ other ∈ front, other.2 ≠ args.extraArgs

variable {sep : Char} {args : ArgBuffers} {config config' : Config}

theorem refines_default : Refines {} {} where
  entries := rfl
  allocated := by simp
  shared front entry same := by simp at same

theorem Refines.specifiers (refines : args.Refines config) :
    args.pluginArgs.map Prod.fst = config.pluginArgs.map Prod.fst := by
  rw [← refines.entries, pluginsWithArgs, List.map_map]
  rfl

theorem Refines.withExtraArg (refines : args.Refines config) (arg : String) :
    (args.withExtraArg arg).Refines (config.withExtraArg arg) := by
  refine ⟨?_, by simpa [ArgBuffers.withExtraArg] using refines.allocated, refines.shared⟩
  rw [Config.withExtraArg, ← refines.entries]
  rcases List.eq_nil_or_concat' args.pluginArgs with none | ⟨front, entry, entries⟩
  · simp [pluginsWithArgs, ArgBuffers.withExtraArg, none, List.modifyLast, List.modifyLast.go]
  · obtain ⟨same, others⟩ := refines.shared front entry entries
    have small : args.extraArgs < args.buffers.length := by
      rw [← same]
      exact refines.allocated entry (by simp [entries])
    -- the buffer that grows is that of the last entry
    have kept : front.map (args.withExtraArg arg).contents = front.map args.contents := by
      refine List.map_congr_left fun other mem => ?_
      simp [contents, ArgBuffers.withExtraArg, (others other mem).symm]
    have grown : (args.withExtraArg arg).contents entry =
        (entry.1, (args.contents entry).2 ++ [arg]) := by
      simp [contents, ArgBuffers.withExtraArg, same, small]
    have unchanged : (args.withExtraArg arg).pluginArgs = front ++ [entry] := entries
    rw [pluginsWithArgs, pluginsWithArgs, unchanged, entries, List.map_append, List.map_append, kept,
      List.map_singleton, List.map_singleton, List.modifyLast_concat, grown]
    rfl

theorem Refines.withPlugin {specifier : PluginSpecifier} (refines : args.Refines config)
    (added : config.withPlugin sep specifier = .ok config') :
    ∃ args', args.withPlugin sep specifier = .ok args' ∧ args'.Refines config' := by
  obtain ⟨new, rfl⟩ := ConfigParser.withPlugin_ok added
  rw [← refines.specifiers] at new
  refine ⟨_, if_neg new, ?_, ?_, ?_⟩
  · have kept : ∀ entry ∈ args.pluginArgs,
        ((args.buffers ++ [[]])[entry.2]?).getD [] = (args.buffers[entry.2]?).getD [] :=
      fun entry mem => by rw [List.getElem?_append_left (refines.allocated entry mem)]
    simp only [pluginsWithArgs, ← refines.entries, List.map_append, List.map_singleton]
    congr 1
    · exact List.map_congr_left fun entry mem => congrArg (entry.1, ·) (kept entry mem)
    · simp [contents]
  · intro entry mem
    rw [List.length_append]
    rcases List.mem_append.mp mem with old | last
    · exact Nat.lt_succ_of_lt (refines.allocated entry old)
    · rw [List.mem_singleton.mp last]
      exact Nat.lt_succ_self _
  · intro front entry same
    obtain ⟨rfl, last⟩ := List.append_inj' same rfl
    cases last
    exact ⟨rfl, fun other mem => (refines.allocated other mem).ne⟩

theorem Refines.action {o : CommandOption} (refines : args.Refines config)
    (acted : ConfigParser.action sep config o = .ok config') :
    ∃ args', args.action sep o = .ok args' ∧ args'.Refines config' := by
  cases o with
  | policy v =>
      have selected : args.Refines { config with
          policyType := .external, policyPlugin := some (.apply sep v) } :=
        ⟨refines.entries, refines.allocated, refines.shared⟩
      exact selected.withPlugin acted
  | plugin v => exact refines.withPlugin acted
  | withArg arg =>
      cases acted
      exact ⟨_, rfl, refines.withExtraArg arg⟩
  | _ =>
      cases acted
      exact ⟨_, rfl, refines.entries, refines.allocated, refines.shared⟩

theorem Refines.actions {options : List CommandOption} (refines : args.Refines config)
    (acted : options.foldlM (ConfigParser.action sep) config = .ok config') :
    ∃ args', options.foldlM (ArgBuffers.action sep) args = .ok args' ∧ args'.Refines config' := by
  induction options generalizing config args with
  | nil =>
      cases acted
      exact ⟨args, rfl, refines⟩
  | cons o options ih =>
      obtain ⟨next, first, rest⟩ := ConfigParser.actions_cons.mp acted
      obtain ⟨args', first', refines'⟩ := refines.action first
      obtain ⟨args'', rest', refines''⟩ := ih refines' rest
      exact ⟨args'', Fallible.foldlM_cons_ok.mpr ⟨args', first', rest'⟩, refines''⟩

end ArgBuffers

/-! ## What the options say -/

/-- A policy with what limits its run. -/
inductive PolicyChoice where
  | fixedOpCount (repetitions : Option Int32)
  | fixedOpTime (seconds : Int32)
  | fixedTime (seconds : Int32)
  | external (specifier : PluginSpecifier)

namespace CommandOption

/-- The argument that an option adds. -/
def arg? : CommandOption → Option String
  | .withArg arg => some arg
  | _ => none

/-- The policy that an option selects. -/
def choice? (pathSeparator : Char) : CommandOption → Option PolicyChoice
  | .repetitions count => some (.fixedOpCount (some count))
  | .operationRunSeconds seconds => some (.fixedOpTime seconds)
  | .runSeconds seconds => some (.fixedTime seconds)
  | .policy specifier => some (.external (.apply pathSeparator specifier))
  | _ => none

end CommandOption

section Stated

variable (pathSeparator : Char)

/-- The arguments before the next plugin or policy. -/
def leadingArgs (options : List CommandOption) : List String :=
  (options.takeWhile fun o => (o.specifier? pathSeparator).isNone).filterMap CommandOption.arg?

/-- Each plugin and policy with the arguments that follow it. -/
def statedPlugins : List CommandOption → List (PluginSpecifier × List String)
  | [] => []
  | o :: options =>
      match o.specifier? pathSeparator with
      | some specifier => (specifier, leadingArgs pathSeparator options) :: statedPlugins options
      | none => statedPlugins options

/-- The policy that is selected last. -/
def statedPolicy (options : List CommandOption) : PolicyChoice :=
  ((options.filterMap (CommandOption.choice? pathSeparator)).getLast?).getD (.fixedOpCount none)

end Stated

/-- The type of the policy, and the field that is read for this type. -/
def Config.Selects (config : Config) : PolicyChoice → Prop
  | .fixedOpCount repetitions =>
      config.policyType = .fixedOpCount ∧ config.repetitions = repetitions
  | .fixedOpTime seconds => config.policyType = .fixedOpTime ∧ config.runSeconds = seconds
  | .fixedTime seconds => config.policyType = .fixedTime ∧ config.runSeconds = seconds
  | .external specifier =>
      config.policyType = .external ∧ config.policyPlugin = some specifier

namespace ConfigParser

variable {sep : Char} {config config' : Config} {o : CommandOption} {options : List CommandOption}

/-- The last entry gets further arguments. -/
def extend (entries : List (PluginSpecifier × List String)) (args : List String) :
    List (PluginSpecifier × List String) :=
  entries.modifyLast fun entry => (entry.1, entry.2 ++ args)

@[simp] theorem extend_concat (entries : List (PluginSpecifier × List String))
    (entry : PluginSpecifier × List String) (args : List String) :
    extend (entries ++ [entry]) args = entries ++ [(entry.1, entry.2 ++ args)] :=
  List.modifyLast_concat _ _ _

@[simp] theorem extend_nil (entries : List (PluginSpecifier × List String)) :
    extend entries [] = entries := by
  rcases List.eq_nil_or_concat' entries with rfl | ⟨front, entry, rfl⟩
  · simp [extend, List.modifyLast, List.modifyLast.go]
  · simp

theorem extend_extend (entries : List (PluginSpecifier × List String)) (args args' : List String) :
    extend (extend entries args) args' = extend entries (args ++ args') := by
  rcases List.eq_nil_or_concat' entries with rfl | ⟨front, entry, rfl⟩
  · simp [extend, List.modifyLast, List.modifyLast.go]
  · simp

/-- An option extends the last entry or starts a new one. -/
theorem action_pluginArgs (acted : action sep config o = .ok config') :
    config'.pluginArgs =
      extend config.pluginArgs o.arg?.toList ++ (o.specifier? sep).toList.map (·, []) := by
  cases o with
  | policy v | plugin v =>
      obtain ⟨-, rfl⟩ := withPlugin_ok acted
      simp [CommandOption.specifier?, CommandOption.arg?]
  | withArg arg =>
      cases acted
      simp [Config.withExtraArg, CommandOption.specifier?, CommandOption.arg?, extend]
  | _ =>
      cases acted
      show config.pluginArgs = extend config.pluginArgs [] ++ []
      rw [extend_nil, List.append_nil]

theorem arg?_of_specifier? {specifier : PluginSpecifier} (adds : o.specifier? sep = some specifier) :
    o.arg? = none := by
  cases o with
  | policy v | plugin v => rfl
  | _ => cases adds

theorem actions_pluginArgs (acted : options.foldlM (action sep) config = .ok config') :
    config'.pluginArgs =
      extend config.pluginArgs (leadingArgs sep options) ++ statedPlugins sep options := by
  induction options generalizing config with
  | nil =>
      cases acted
      simp [leadingArgs, statedPlugins]
  | cons o options ih =>
      obtain ⟨next, first, rest⟩ := actions_cons.mp acted
      rw [ih rest, action_pluginArgs first]
      cases adds : o.specifier? sep with
      | none =>
          have leading : leadingArgs sep (o :: options) = o.arg?.toList ++ leadingArgs sep options := by
            rw [leadingArgs, List.takeWhile_cons_of_pos (by simp [adds]), List.filterMap_cons]
            cases o.arg? <;> rfl
          simp [statedPlugins, adds, leading, extend_extend]
      | some specifier =>
          have leading : leadingArgs sep (o :: options) = [] := by
            rw [leadingArgs, List.takeWhile_cons_of_neg (by simp [adds]), List.filterMap_nil]
          simp [statedPlugins, adds, leading, arg?_of_specifier? adds]

/-- An option that selects no policy keeps the fields of all of them. -/
theorem action_selects {choice : PolicyChoice} (acted : action sep config o = .ok config')
    (selects : config.Selects choice) : config'.Selects ((o.choice? sep).getD choice) := by
  cases o with
  | repetitions v | runSeconds v | operationRunSeconds v =>
      cases acted
      exact ⟨rfl, rfl⟩
  | policy v =>
      obtain ⟨-, rfl⟩ := withPlugin_ok acted
      exact ⟨rfl, rfl⟩
  | plugin v =>
      obtain ⟨-, rfl⟩ := withPlugin_ok acted
      cases choice <;> exact selects
  | _ =>
      cases acted
      cases choice <;> exact selects

theorem actions_selects {choice : PolicyChoice}
    (acted : options.foldlM (action sep) config = .ok config') (selects : config.Selects choice) :
    config'.Selects (((options.filterMap (CommandOption.choice? sep)).getLast?).getD choice) := by
  induction options generalizing config choice with
  | nil =>
      cases acted
      exact selects
  | cons o options ih =>
      obtain ⟨next, first, rest⟩ := actions_cons.mp acted
      have later := ih rest (action_selects first selects)
      rw [List.filterMap_cons]
      cases selected : o.choice? sep with
      | none => simpa [selected] using later
      | some choice' =>
          simpa [selected, List.getLast?_cons] using later

end ConfigParser

namespace Host

variable {host : Host}

theorem loadEach_keys {plugins : List (PluginSpecifier × List String)} {origins : PluginOrigins}
    {loaded : List (PluginSpecifier × ExternalPlugin)}
    (loads : host.loadEach origins plugins = .ok loaded) :
    loaded.map Prod.fst = plugins.map Prod.fst := by
  induction plugins generalizing origins loaded with
  | nil =>
      cases loads
      rfl
  | cons entry plugins ih =>
      obtain ⟨specifier, args⟩ := entry
      rw [loadEach] at loads
      split at loads
      · cases loads
      · split at loads
        · cases loads
        · obtain ⟨rest, loadsRest, same⟩ := Fallible.bind_eq_ok.mp loads
          cases same
          rw [List.map_cons, List.map_cons, ih loadsRest]

/-- The specifier of an external policy is among those that were loaded. -/
theorem exists_policyPlugin {config : Config} (wf : config.WellFormed)
    (external : config.policyType = .external) {plugins : List (PluginSpecifier × ExternalPlugin)}
    (loads : host.loadExternalPlugins config.pluginsWithArgs = .ok plugins) :
    ∃ specifier plugin, config.policyPlugin = some specifier ∧
      plugins.lookup specifier = some plugin := by
  obtain ⟨specifier, mem, named⟩ := wf.policyPlugin external
  obtain ⟨loaded, loadsEach, same⟩ := Fallible.bind_eq_ok.mp loads
  cases same
  have isKey : specifier ∈ loaded.map Prod.fst := by
    rw [loadEach_keys loadsEach]
    exact mem
  obtain ⟨plugin, found⟩ := exists_lookup_toMap host.order isKey
  exact ⟨specifier, plugin, named, found⟩

/-- Looking up the policy among the plugins does not fail. -/
theorem getExecutionPolicy_ne_uncaught {config : Config} (wf : config.WellFormed)
    {plugins : List (PluginSpecifier × ExternalPlugin)}
    (loads : host.loadExternalPlugins config.pluginsWithArgs = .ok plugins)
    (benchmarks : List BenchmarkDescriptor) (cause : Throwable) :
    host.getExecutionPolicy config benchmarks plugins ≠ .error (.uncaught cause) := by
  unfold getExecutionPolicy
  cases type : config.policyType with
  | external =>
      obtain ⟨specifier, plugin, named, found⟩ := exists_policyPlugin wf type loads
      simp only [named, Option.bind_some, found]
      split <;> nofun
  | _ => nofun

/-- The plugins, their arguments and the policy of an accepted command line. The arguments are the same
if they are collected in shared buffers. If the policy is an external one and the plugins load, it is one
of them. -/
theorem parse_plugins_and_policy {options : List CommandOption} {config : Config}
    (accepted : ConfigParser.parse host.pathSeparator options = .ok config) :
    config.pluginsWithArgs = statedPlugins host.pathSeparator options ∧
      (∃ args, options.foldlM (ArgBuffers.action host.pathSeparator) {} = .ok args ∧
        args.pluginsWithArgs = config.pluginsWithArgs) ∧
      config.Selects (statedPolicy host.pathSeparator options) ∧
      ∀ plugins, host.loadExternalPlugins config.pluginsWithArgs = .ok plugins →
        config.policyType = .external →
          (∃ specifier plugin, config.policyPlugin = some specifier ∧
            plugins.lookup specifier = some plugin) ∧
          ∀ benchmarks cause,
            host.getExecutionPolicy config benchmarks plugins ≠ .error (.uncaught cause) := by
  have acted := (ConfigParser.parse_eq_ok.mp accepted).2
  refine ⟨?_, ?_, ?_, fun plugins loads external => ?_⟩
  · rw [Config.pluginsWithArgs, ConfigParser.actions_pluginArgs acted]
    rfl
  · obtain ⟨args, collected, refines⟩ := ArgBuffers.refines_default.actions acted
    exact ⟨args, collected, refines.entries⟩
  · exact ConfigParser.actions_selects acted ⟨rfl, rfl⟩
  · have wf := ConfigParser.parse_wellFormed accepted
    exact ⟨exists_policyPlugin wf external loads, getExecutionPolicy_ne_uncaught wf loads⟩

/-- An argument before the first plugin goes nowhere. -/
def mixedOptions : List CommandOption :=
  [.withArg "lost", .plugin "a.jar!A", .withArg "x", .policy "p.jar!P", .repetitions 5, .withArg "y",
    .runSeconds 30, .withArg "z"]

def mixedConfig : Config where
  pluginArgs := [(⟨["a.jar"], some "A"⟩, ["x"]), (⟨["p.jar"], some "P"⟩, ["y", "z"])]
  policyType := .fixedTime
  repetitions := some 5
  runSeconds := 30
  policyPlugin := some ⟨["p.jar"], some "P"⟩

theorem parse_mixedOptions :
    mixedConfig.pluginsWithArgs = statedPlugins ':' mixedOptions ∧
      mixedConfig.Selects (.fixedTime 30) := by
  have accepted : ConfigParser.parse reversing.pathSeparator mixedOptions = .ok mixedConfig := rfl
  have stated := parse_plugins_and_policy accepted
  exact ⟨stated.1, stated.2.2.1⟩

end Host

end Renaissance
