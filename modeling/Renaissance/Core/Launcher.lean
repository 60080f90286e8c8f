import Renaissance.Harness.Config

/-!
# The scratch options of the launcher

The launcher looks for two options of the harness in the arguments before the harness reads them.
`getScratchBase` and `getKeepScratch` take the first argument that is spelled like the option, while
the harness asks an option parser, which is a parameter here. `Argument` says how an option may be
written.

`scratchOptions_agree_iff` says for which arguments both come to the same result.
-/

namespace Renaissance

/-! ## The launcher -/

namespace Launcher

/-- Case folding for comparisons with ASCII text. Four other characters are letters then. -/
def foldCase (c : Char) : Char :=
  if c = 'İ' ∨ c = 'ı' then 'i'
  else if c = 'ſ' then 's'
  else if c = 'K' then 'k'
  else c.toLower

/-- `name.equalsIgnoreCase(text)` for an ASCII name. -/
def equalsIgnoreCase (name text : String) : Bool :=
  text.toList.map foldCase = name.toList.map foldCase

def arrayIndexOf {α : Type} (array : List α) (matcher : α → Bool) : Option Nat :=
  array.findIdx? matcher

/-- The message of the `LaunchException`, or the scratch base. -/
def getScratchBase (args : List String) : Except String UnixPath :=
  match arrayIndexOf args (equalsIgnoreCase "--scratch-base") with
  | some optIndex =>
      let valIndex := optIndex + 1
      match args[valIndex]? with
      | none => .error "Missing directory after --scratch-base option!"
      | some value => .ok (UnixPath.get value)
  | none => .ok (UnixPath.get "")

def getKeepScratch (args : List String) : Bool :=
  (arrayIndexOf args (equalsIgnoreCase "--keep-scratch")).isSome

end Launcher

/-! ## The option parser -/

namespace CommandOption

/-- How the option may be called on the command line. -/
def names : CommandOption → List String
  | .repetitions _ => ["--repetitions", "-r"]
  | .runSeconds _ => ["--run-seconds", "-t"]
  | .operationRunSeconds _ => ["--operation-run-seconds"]
  | .policy _ => ["--policy"]
  | .plugin _ => ["--plugin"]
  | .withArg _ => ["--with-arg"]
  | .csv _ => ["--csv"]
  | .json _ => ["--json"]
  | .configuration _ => ["--configuration", "-c"]
  | .override _ => ["--override", "-o"]
  | .scratchBase _ => ["--scratch-base"]
  | .keepScratch => ["--keep-scratch"]
  | .noForcedGc => ["--no-forced-gc"]
  | .noJvmCheck => ["--no-jvm-check"]
  | .list => ["--list"]
  | .rawList => ["--raw-list"]
  | .groupList => ["--group-list"]
  | .benchmarkMetadata _ => ["--benchmark-metadata"]
  | .standalone => ["--standalone"]
  | .benchmarkSpecification _ => []

/-- The option has no value. -/
def IsFlag : CommandOption → Prop
  | .keepScratch | .noForcedGc | .noJvmCheck | .list | .rawList | .groupList | .standalone => True
  | _ => False

/-- The text may be read as the value of the option. How numbers are written is left open. -/
def Takes (text : String) : CommandOption → Prop
  | .repetitions _ | .runSeconds _ | .operationRunSeconds _ => True
  | .policy v | .plugin v | .withArg v | .csv v | .json v | .configuration v | .override v
  | .scratchBase v | .benchmarkMetadata v => text = v
  | _ => False

end CommandOption

/-- How one option is written: the argument with its name and, if that is another one, the argument
with its value. -/
inductive Spells : CommandOption → String → Option String → Prop
  | flag {o : CommandOption} {name : String} : name ∈ o.names → o.IsFlag → Spells o name none
  | separate {o : CommandOption} {name value : String} : name ∈ o.names → o.Takes value →
      Spells o name (some value)
  | inline {o : CommandOption} {name value : String} (sign : Char) : sign = '=' ∨ sign = ':' →
      name ∈ o.names → o.IsFlag ∨ o.Takes value → Spells o (name ++ sign.toString ++ value) none
  | specification {text : String} : text.toList.take 2 ≠ ['-', '-'] →
      Spells (.benchmarkSpecification text) text none

structure Argument where
  option : CommandOption
  first : String
  value : Option String
  spelled : Spells option first value

namespace Argument

def texts (argument : Argument) : List String :=
  argument.first :: argument.value.toList

/-- The option parser divides the arguments into options. -/
def ReadBy (scopt : List String → Option (List Argument)) : Prop :=
  ∀ args arguments, scopt args = some arguments → args = arguments.flatMap texts

end Argument

/-! ## Arguments that look like a scratch option -/

namespace Launcher

variable {name text : String}

theorem foldCase_minus {c : Char} (minus : foldCase c = '-') : c = '-' := by
  unfold foldCase at minus
  split at minus
  · cases minus
  · split at minus
    · cases minus
    · split at minus
      · cases minus
      · unfold Char.toLower at minus
        split at minus
        · next upper =>
          have value : (c.val + 32).toNat = 45 := congrArg (fun c => c.val.toNat) minus
          have lower : 65 ≤ c.val.toNat := UInt32.le_iff_toNat_le.mp upper.1
          have higher : c.val.toNat ≤ 90 := UInt32.le_iff_toNat_le.mp upper.2
          rw [UInt32.toNat_add] at value
          have sum : (c.val.toNat + 32) % 2 ^ 32 = 45 := value
          omega
        · exact minus

/-- The names of the scratch options. -/
def IsScratchName (name : String) : Prop :=
  name = "--scratch-base" ∨ name = "--keep-scratch"

theorem equalsIgnoreCase_self (name : String) : equalsIgnoreCase name name = true := by
  simp [equalsIgnoreCase]

/-- A character that both must have. -/
theorem mem_of_equalsIgnoreCase {c : Char} (same : equalsIgnoreCase name text = true)
    (mem : c ∈ text.toList) : foldCase c ∈ name.toList.map foldCase := by
  rw [equalsIgnoreCase, decide_eq_true_iff] at same
  rw [← same]
  exact List.mem_map_of_mem mem

theorem take_of_equalsIgnoreCase (scratch : IsScratchName name)
    (same : equalsIgnoreCase name text = true) : text.toList.take 2 = ['-', '-'] := by
  rw [equalsIgnoreCase, decide_eq_true_iff] at same
  have start : (name.toList.map foldCase).take 2 = ['-', '-'] := by
    rcases scratch with rfl | rfl <;> decide
  rw [← same, ← List.map_take] at start
  obtain ⟨c, cs, pair, first, rest⟩ := List.map_eq_cons_iff.mp start
  obtain ⟨d, ds, single, second, none⟩ := List.map_eq_cons_iff.mp rest
  rw [pair, single, List.map_eq_nil_iff.mp none, foldCase_minus first, foldCase_minus second]

/-- Only its own name looks like a scratch option. -/
theorem eq_of_mem_names (scratch : IsScratchName name) {o : CommandOption}
    (mem : text ∈ o.names) (same : equalsIgnoreCase name text = true) : text = name := by
  have all : ∀ text ∈ o.names, equalsIgnoreCase name text = true → text = name := by
    rcases scratch with rfl | rfl <;> cases o <;> simp only [CommandOption.names] <;> decide
  exact all text mem same

/-- An argument that starts like a scratch option is one. -/
theorem looksLike_first (scratch : IsScratchName name) {argument : Argument}
    (same : equalsIgnoreCase name argument.first = true) :
    argument.first = name ∧ name ∈ argument.option.names ∧
      (argument.option.IsFlag ∧ argument.value = none ∨
        ∃ value, argument.value = some value ∧ argument.option.Takes value) := by
  obtain ⟨option, first, value, spelled⟩ := argument
  cases spelled with
  | flag mem isFlag =>
      obtain rfl := eq_of_mem_names scratch mem same
      exact ⟨rfl, mem, .inl ⟨isFlag, rfl⟩⟩
  | separate mem takes =>
      obtain rfl := eq_of_mem_names scratch mem same
      exact ⟨rfl, mem, .inr ⟨_, rfl, takes⟩⟩
  | inline sign isSign mem _ =>
      have found := mem_of_equalsIgnoreCase (c := sign) same (by simp [String.toList_append])
      rcases scratch with rfl | rfl <;> rcases isSign with rfl | rfl <;> exact absurd found (by decide)
  | specification plain => exact absurd (take_of_equalsIgnoreCase scratch same) plain

/-- What follows the first argument that is spelled like the option. -/
theorem getScratchBase_eq (args : List String) :
    getScratchBase args =
      match args.dropWhile fun text => !equalsIgnoreCase "--scratch-base" text with
      | [] => .ok (UnixPath.get "")
      | [_] => .error "Missing directory after --scratch-base option!"
      | _ :: value :: _ => .ok (UnixPath.get value) := by
  unfold getScratchBase arrayIndexOf
  induction args with
  | nil => rfl
  | cons text args ih =>
      rw [List.findIdx?_cons]
      cases same : equalsIgnoreCase "--scratch-base" text with
      | true =>
          rw [if_pos rfl, List.dropWhile_cons_of_neg (by simp [same])]
          cases args <;> rfl
      | false =>
          rw [if_neg (by simp), List.dropWhile_cons_of_pos (by simp [same]), ← ih]
          cases args.findIdx? (equalsIgnoreCase "--scratch-base") <;> rfl

theorem getKeepScratch_eq (args : List String) :
    getKeepScratch args = args.any (equalsIgnoreCase "--keep-scratch") :=
  List.findIdx?_isSome

/-- Nothing in the argument looks like the option. -/
def plain (name : String) (argument : Argument) : Bool :=
  argument.texts.all fun text => !equalsIgnoreCase name text

theorem dropWhile_flatMap {α β : Type} (f : α → List β) (p : β → Bool) (xs : List α) :
    (xs.flatMap f).dropWhile p =
      match xs.dropWhile fun x => (f x).all p with
      | [] => []
      | x :: rest => (f x).dropWhile p ++ rest.flatMap f := by
  induction xs with
  | nil => rfl
  | cons x xs ih =>
      rw [List.flatMap_cons]
      cases all : (f x).all p with
      | true =>
          rw [List.dropWhile_append_of_pos (List.all_eq_true.mp all), ih,
            List.dropWhile_cons_of_pos (by exact all)]
      | false =>
          have found : ((f x).dropWhile p).isEmpty = false := by
            rw [List.isEmpty_eq_false_iff]
            intro empty
            rw [List.all_eq_true.mpr (List.dropWhile_eq_nil_iff.mp empty)] at all
            cases all
          rw [List.dropWhile_append, found, List.dropWhile_cons_of_neg (by simp [all])]
          rfl

end Launcher

/-! ## The harness -/

namespace CommandOption

/-- The directory of a `--scratch-base` option. -/
def directory? : CommandOption → Option String
  | .scratchBase dir => some dir
  | _ => none

end CommandOption

namespace ConfigParser

variable {sep : Char} {config config' : Config} {o : CommandOption} {options : List CommandOption}

theorem action_scratch (acted : action sep config o = .ok config') :
    config'.scratchBase = (o.directory?.map UnixPath.get).getD config.scratchBase ∧
      config'.keepScratch = (config.keepScratch || decide (o = .keepScratch)) := by
  cases o with
  | policy v | plugin v =>
      obtain ⟨-, rfl⟩ := withPlugin_ok acted
      exact ⟨rfl, (Bool.or_false _).symm⟩
  | keepScratch =>
      cases acted
      exact ⟨rfl, (Bool.or_true _).symm⟩
  | _ =>
      cases acted
      exact ⟨rfl, (Bool.or_false _).symm⟩

theorem once_of_cons (once : ((o :: options).filterMap onceOnly).Nodup) :
    (options.filterMap onceOnly).Nodup := by
  rw [List.filterMap_cons] at once
  split at once
  · exact once
  · exact (List.nodup_cons.mp once).2

/-- There is one `--scratch-base` option at most. -/
theorem scratchBase_once {dir : String}
    (once : ((.scratchBase dir :: options).filterMap onceOnly).Nodup) (other : String) :
    .scratchBase other ∉ options := by
  intro mem
  have old : "scratch-base" ∈ options.filterMap onceOnly :=
    List.mem_filterMap.mpr ⟨.scratchBase other, mem, rfl⟩
  exact (List.nodup_cons.mp once).1 old

/-- The scratch base is the directory of the one option that gives it. -/
theorem actions_scratchBase (once : (options.filterMap onceOnly).Nodup)
    (acted : options.foldlM (action sep) config = .ok config') :
    config'.scratchBase =
      ((options.findSome? CommandOption.directory?).map UnixPath.get).getD config.scratchBase := by
  induction options generalizing config with
  | nil =>
      cases acted
      rfl
  | cons o options ih =>
      obtain ⟨next, first, rest⟩ := actions_cons.mp acted
      rw [ih (once_of_cons once) rest, (action_scratch first).1, List.findSome?_cons]
      cases base : o.directory? with
      | none => rfl
      | some dir =>
          have only : options.findSome? CommandOption.directory? = none := by
            rw [List.findSome?_eq_none_iff]
            intro other mem
            cases o <;> cases base
            cases other with
            | scratchBase other => exact absurd mem (scratchBase_once once other)
            | _ => rfl
          rw [only]
          rfl

theorem actions_keepScratch (acted : options.foldlM (action sep) config = .ok config') :
    config'.keepScratch = (config.keepScratch || decide (.keepScratch ∈ options)) := by
  induction options generalizing config with
  | nil =>
      cases acted
      exact (Bool.or_false _).symm
  | cons o options ih =>
      obtain ⟨next, first, rest⟩ := actions_cons.mp acted
      rw [ih rest, (action_scratch first).2, Bool.or_assoc, ← Bool.decide_or]
      simp only [List.mem_cons, eq_comm]

/-- What an accepted command line says about the scratch directories. -/
theorem parse_scratch (accepted : parse sep options = .ok config) :
    config.scratchBase =
        UnixPath.get ((options.findSome? CommandOption.directory?).getD "") ∧
      config.keepScratch = decide (.keepScratch ∈ options) := by
  obtain ⟨wf, acted⟩ := parse_eq_ok.mp accepted
  rw [wellFormed, Bool.and_eq_true, decide_eq_true_iff] at wf
  refine ⟨?_, by simpa using actions_keepScratch acted⟩
  rw [actions_scratchBase wf.2 acted]
  cases options.findSome? CommandOption.directory? <;> rfl

theorem findSome?_directory (once : (options.filterMap onceOnly).Nodup) {dir : String}
    (mem : .scratchBase dir ∈ options) :
    options.findSome? CommandOption.directory? = some dir := by
  induction options with
  | nil => cases mem
  | cons o options ih =>
      rw [List.findSome?_cons]
      rcases List.mem_cons.mp mem with rfl | later
      · rfl
      · cases o with
        | scratchBase first => exact absurd later (scratchBase_once once dir)
        | _ => exact ih (once_of_cons once) later

end ConfigParser

/-! ## Both together -/

namespace Launcher

/-- The directory that the options give, or the current one. -/
def given (arguments : List Argument) : String :=
  ((arguments.map Argument.option).findSome? CommandOption.directory?).getD ""

/-- The first argument that looks like `--scratch-base` is the option. Otherwise it is the value of
another option and followed by the directory that was given all the same, or there is no such
argument, and what was given after an equals sign or a colon is the current directory. -/
def ScratchBaseInSync (arguments : List Argument) : Prop :=
  match arguments.dropWhile (plain "--scratch-base") with
  | [] => ∀ dir, .scratchBase dir ∈ arguments.map Argument.option →
      UnixPath.get dir = UnixPath.get ""
  | argument :: after => argument.first = "--scratch-base" ∨
      ∃ next rest, after.flatMap Argument.texts = next :: rest ∧
        UnixPath.get next = UnixPath.get (given arguments)

/-- `--keep-scratch` is an argument, or some value looks like it exactly when it is given with an
equals sign or a colon. -/
def KeepScratchInSync (arguments : List Argument) : Prop :=
  (∃ argument ∈ arguments, argument.first = "--keep-scratch") ∨
    ((∃ argument ∈ arguments, ∃ value, argument.value = some value ∧
        equalsIgnoreCase "--keep-scratch" value = true) ↔
      .keepScratch ∈ arguments.map Argument.option)

variable {arguments : List Argument}

theorem given_eq (once : ((arguments.map Argument.option).filterMap ConfigParser.onceOnly).Nodup)
    {dir : String} (mem : .scratchBase dir ∈ arguments.map Argument.option) :
    given arguments = dir := by
  rw [given, ConfigParser.findSome?_directory once mem]
  rfl

theorem given_eq_empty (none : ∀ dir, .scratchBase dir ∉ arguments.map Argument.option) :
    given arguments = "" := by
  have absent : (arguments.map Argument.option).findSome? CommandOption.directory? = .none := by
    rw [List.findSome?_eq_none_iff]
    intro o mem
    cases o with
    | scratchBase dir => exact absurd mem (none dir)
    | _ => rfl
  rw [given, absent]
  rfl

/-- The option itself comes with its directory. -/
theorem scratchBase_own {argument : Argument}
    (same : equalsIgnoreCase "--scratch-base" argument.first = true) :
    ∃ dir, argument.option = .scratchBase dir ∧ argument.texts = ["--scratch-base", dir] := by
  obtain ⟨first, mem, form⟩ := looksLike_first (.inl rfl) same
  cases h : argument.option with
  | scratchBase dir =>
      rw [h] at form
      rcases form with ⟨isFlag, -⟩ | ⟨value, given, takes⟩
      · cases isFlag
      · obtain rfl : value = dir := takes
        exact ⟨value, rfl, by simp [Argument.texts, first, given]⟩
  | _ =>
      rw [h] at mem
      simp [CommandOption.names] at mem

/-- An argument that looks like the option without being it is followed by nothing of its own. -/
theorem texts_of_value {name : String} {argument : Argument}
    (other : equalsIgnoreCase name argument.first = false)
    (like : plain name argument = false) :
    ∃ value, argument.value = some value ∧ equalsIgnoreCase name value = true ∧
      (argument.texts.dropWhile fun text => !equalsIgnoreCase name text) = [value] := by
  unfold plain Argument.texts at like
  unfold Argument.texts
  cases h : argument.value with
  | none => simp [h, other] at like
  | some value =>
      have same : equalsIgnoreCase name value = true := by simpa [h, other] using like
      exact ⟨value, rfl, same, by simp [other, same]⟩

theorem scratchBase_agrees_iff
    (once : ((arguments.map Argument.option).filterMap ConfigParser.onceOnly).Nodup) :
    getScratchBase (arguments.flatMap Argument.texts) = .ok (UnixPath.get (given arguments)) ↔
      ScratchBaseInSync arguments := by
  rw [getScratchBase_eq, dropWhile_flatMap, ScratchBaseInSync]
  change _ ↔ match arguments.dropWhile fun argument =>
    argument.texts.all fun text => !equalsIgnoreCase "--scratch-base" text with | [] => _ | _ :: _ => _
  cases h : arguments.dropWhile fun argument =>
    argument.texts.all fun text => !equalsIgnoreCase "--scratch-base" text with
  | nil =>
      -- no text is like the option, so the loop finds nothing
      constructor
      · intro same dir mem
        rw [← given_eq once mem]
        exact (Except.ok.inj same).symm
      · intro current
        by_cases some : ∃ dir, .scratchBase dir ∈ arguments.map Argument.option
        · obtain ⟨dir, mem⟩ := some
          rw [given_eq once mem, current dir mem]
        · rw [given_eq_empty fun dir mem => some ⟨dir, mem⟩]
  | cons argument after =>
      have mem : argument ∈ arguments :=
        (List.dropWhile_sublist _).subset (h ▸ List.mem_cons_self)
      have like : plain "--scratch-base" argument = false := by
        have first := List.head?_dropWhile_not (fun argument : Argument =>
          argument.texts.all fun text => !equalsIgnoreCase "--scratch-base" text) arguments
        rw [h] at first
        exact first
      cases own : equalsIgnoreCase "--scratch-base" argument.first with
      | true =>
          obtain ⟨dir, option, texts⟩ := scratchBase_own own
          have first : argument.first = "--scratch-base" := (List.cons.inj texts).1
          have isGiven : given arguments = dir :=
            given_eq once (List.mem_map.mpr ⟨argument, mem, option⟩)
          simp only [texts, isGiven]
          rw [List.dropWhile_cons_of_neg (by decide)]
          exact ⟨fun _ => .inl first, fun _ => rfl⟩
      | false =>
          -- the value of an earlier option is taken for the name
          obtain ⟨value, -, -, rest⟩ := texts_of_value own like
          have apart : argument.first ≠ "--scratch-base" := by
            intro same
            rw [same, equalsIgnoreCase_self] at own
            cases own
          simp only [rest, apart, false_or]
          cases after.flatMap Argument.texts with
          | nil => simp
          | cons next others => simp

/-- An argument that looks like the option is its name or some value. -/
theorem any_looksLike_iff {name : String} (scratch : IsScratchName name) :
    (arguments.flatMap Argument.texts).any (equalsIgnoreCase name) = true ↔
      (∃ argument ∈ arguments, argument.first = name) ∨
        ∃ argument ∈ arguments, ∃ value, argument.value = some value ∧
          equalsIgnoreCase name value = true := by
  rw [List.any_eq_true]
  constructor
  · rintro ⟨text, mem, same⟩
    obtain ⟨argument, listed, mem⟩ := List.mem_flatMap.mp mem
    rcases List.mem_cons.mp mem with rfl | isValue
    · exact .inl ⟨argument, listed, (looksLike_first scratch same).1⟩
    · exact .inr ⟨argument, listed, text, Option.mem_toList.mp isValue, same⟩
  · rintro (⟨argument, listed, rfl⟩ | ⟨argument, listed, value, isValue, same⟩)
    · exact ⟨argument.first, List.mem_flatMap.mpr ⟨argument, listed, List.mem_cons_self⟩,
        equalsIgnoreCase_self _⟩
    · exact ⟨value, List.mem_flatMap.mpr ⟨argument, listed,
        List.mem_cons_of_mem _ (Option.mem_toList.mpr isValue)⟩, same⟩

theorem keepScratch_own {argument : Argument} (own : argument.first = "--keep-scratch") :
    argument.option = .keepScratch := by
  have same : equalsIgnoreCase "--keep-scratch" argument.first = true := by
    rw [own, equalsIgnoreCase_self]
  have mem := (looksLike_first (.inr rfl) same).2.1
  cases h : argument.option with
  | keepScratch => rfl
  | _ =>
      rw [h] at mem
      simp [CommandOption.names] at mem

theorem keepScratch_agrees_iff :
    getKeepScratch (arguments.flatMap Argument.texts) =
        decide (.keepScratch ∈ arguments.map Argument.option) ↔ KeepScratchInSync arguments := by
  rw [getKeepScratch_eq, Bool.eq_iff_iff, any_looksLike_iff (.inr rfl), decide_eq_true_iff,
    KeepScratchInSync]
  by_cases own : ∃ argument ∈ arguments, argument.first = "--keep-scratch"
  · obtain ⟨argument, mem, first⟩ := own
    have isGiven : .keepScratch ∈ arguments.map Argument.option :=
      List.mem_map.mpr ⟨argument, mem, keepScratch_own first⟩
    have isOwn : ∃ argument ∈ arguments, argument.first = "--keep-scratch" :=
      ⟨argument, mem, first⟩
    exact ⟨fun _ => .inl isOwn, fun _ => ⟨fun _ => isGiven, fun _ => .inl isOwn⟩⟩
  · rw [or_iff_right own, or_iff_right own]

/-- The launcher and the harness come to the same scratch directories if and only if the options
are in sync. -/
theorem scratchOptions_agree_iff {scopt : List String → Option (List Argument)}
    (reads : Argument.ReadBy scopt) {pathSeparator : Char} {args : List String}
    {arguments : List Argument} {config : Config} (parsed : scopt args = some arguments)
    (accepted : ConfigParser.parse pathSeparator (arguments.map Argument.option) = .ok config) :
    (getScratchBase args = .ok config.scratchBase ∧ getKeepScratch args = config.keepScratch) ↔
      ScratchBaseInSync arguments ∧ KeepScratchInSync arguments := by
  obtain ⟨base, keep⟩ := ConfigParser.parse_scratch accepted
  have once := (ConfigParser.parse_eq_ok.mp accepted).1
  rw [ConfigParser.wellFormed, Bool.and_eq_true, decide_eq_true_iff] at once
  rw [reads args arguments parsed, base, keep, ← given, scratchBase_agrees_iff once.2,
    keepScratch_agrees_iff]

/-- `--scratch-base /data --keep-scratch dummy-empty`. -/
def plainArguments : List Argument :=
  [⟨.scratchBase "/data", "--scratch-base", some "/data", .separate (by decide) rfl⟩,
    ⟨.keepScratch, "--keep-scratch", none, .flag (by decide) trivial⟩,
    ⟨.benchmarkSpecification "dummy-empty", "dummy-empty", none, .specification (by decide)⟩]

/-- `--scratch-base=/data dummy-empty`. -/
def inlineArguments : List Argument :=
  [⟨.scratchBase "/data", "--scratch-base=/data", none,
      @Spells.inline (.scratchBase "/data") "--scratch-base" "/data" '=' (.inl rfl) (by decide)
        (.inr rfl)⟩,
    ⟨.benchmarkSpecification "dummy-empty", "dummy-empty", none, .specification (by decide)⟩]

/-- An option parser that only knows one command line. -/
def reader (arguments : List Argument) (args : List String) : Option (List Argument) :=
  if args = arguments.flatMap Argument.texts then some arguments else none

theorem reader_readBy (arguments : List Argument) : Argument.ReadBy (reader arguments) := by
  intro args read parsed
  unfold reader at parsed
  split at parsed
  · next known =>
    cases parsed
    exact known
  · cases parsed

theorem reader_self (arguments : List Argument) :
    reader arguments (arguments.flatMap Argument.texts) = some arguments :=
  if_pos rfl

theorem scratchOptions_agree_plain : ∃ config,
    ConfigParser.parse ':' (plainArguments.map Argument.option) = .ok config ∧
      ((getScratchBase (plainArguments.flatMap Argument.texts) = .ok config.scratchBase ∧
        getKeepScratch (plainArguments.flatMap Argument.texts) = config.keepScratch) ↔
      ScratchBaseInSync plainArguments ∧ KeepScratchInSync plainArguments) := by
  obtain ⟨config, accepted⟩ := (@ConfigParser.parse_accepts_iff ':'
    (plainArguments.map Argument.option)).mpr ⟨by decide, by decide⟩
  exact ⟨config, accepted, scratchOptions_agree_iff (reader_readBy plainArguments)
    (reader_self plainArguments) accepted⟩

/-- With an equals sign the harness has `/data` and the launcher the current directory. -/
theorem inline_scratchBase_differs : ∃ config,
    ConfigParser.parse ':' (inlineArguments.map Argument.option) = .ok config ∧
      reader inlineArguments ["--scratch-base=/data", "dummy-empty"] = some inlineArguments ∧
      config.scratchBase = UnixPath.get "/data" ∧
      getScratchBase ["--scratch-base=/data", "dummy-empty"] ≠ .ok config.scratchBase := by
  obtain ⟨config, accepted⟩ := (@ConfigParser.parse_accepts_iff ':'
    (inlineArguments.map Argument.option)).mpr ⟨by decide, by decide⟩
  have base : config.scratchBase = UnixPath.get "/data" :=
    (ConfigParser.parse_scratch accepted).1
  refine ⟨config, accepted, reader_self inlineArguments, base, ?_⟩
  rw [base]
  decide

end Launcher

end Renaissance
