import Renaissance.Core.Launcher
import Renaissance.Core.ModuleLoader
import Renaissance.Lib.Fallible
import Renaissance.Lib.JavaFormat
import Renaissance.Lib.JavaString

/-!
# What the launcher does about failures

`Launcher.main` creates a scratch directory, extracts the jars of the harness and invokes the main method
of the harness in them. What goes wrong on the way is thrown as an exception that one of the catch clauses
is for, and reported in the end. `Sound` says which failures take another way.

`main_handsOver_or_reports`: the main method is invoked with its arguments and returns, or the failure is
reported.
-/

namespace Renaissance.Launcher

/-- The exceptions that the catch clauses tell apart. Nothing is there for unchecked ones. -/
inductive Kind
  | launch
  | moduleLoading
  | io
  | reflective
  | unchecked (name : String)
  deriving DecidableEq, Repr

/-- An exception or an error. -/
inductive Throwable
  | mk (kind : Kind) (message : Option String) (cause : Option Throwable)

namespace Throwable

def kind : Throwable → Kind
  | mk kind _ _ => kind

def unchecked (name : String) : Throwable :=
  mk (.unchecked name) none none

end Throwable

/-- What becomes of the invocation of a main method: it returns or ends the process, or throws, or cannot
be invoked. -/
inductive Invocation
  | returns
  | throws (target : Throwable)
  | fails (failure : Throwable)

/-- What the launcher finds. An `IOException` without a message has the message `null` here, as it is
printed. -/
structure Environment where
  specificationTitle : Option String
  implementationVersion : Option String
  createScratchDirectory : UnixPath → String → Bool → Except Throwable (UnixPath × FileSystem)
  moduleJars : Except Throwable (String → Option Core.ResourcePaths)
  world : Core.Surroundings
  faults : Core.Faults
  findMain : List UnixPath → String → Except Throwable Unit
  invoke : String → List (Option String) → Invocation
  toUpperCase : String → String
  hashCode : String → ℕ

inductive Ending
  | returned
  | exited (status : ℤ) (printed : Option String) (logged : Throwable)
  | escaped (thrown : Throwable)

/-- The class whose main method was invoked, with its arguments, and how the launcher ended. -/
structure Run where
  invoked : Option (String × List (Option String))
  ending : Ending

def markdownGenerator : String := "org.renaissance.harness.MarkdownGenerator"

def harnessMainClass : String := "org.renaissance.harness.RenaissanceSuite"

def harnessModuleName : String := "renaissance-harness_3"

/-! ## The steps -/

/-- A catch clause that throws a `LaunchException` instead. -/
def rethrow {α : Type} (kind : Kind) (message : String) : Except Throwable α → Except Throwable α
  | .error e => if e.kind = kind then .error (.mk .launch (some message) (some e)) else .error e
  | .ok a => .ok a

/-- An array of the package may hold a null, which is not spelled like an option. -/
def texts (args : List (Option String)) : List String :=
  args.map (·.getD "")

/-- `Paths.get` does not take the character zero. -/
def scratchBase (args : List (Option String)) : Except Throwable UnixPath :=
  match getScratchBase (texts args) with
  | .error message => .error (.mk .launch (some message) none)
  | .ok path =>
      if path.components.any (Char.ofNat 0 ∈ ·.toList) then .error (.unchecked "InvalidPathException")
      else .ok path

section Steps

variable (env : Environment)

def createScratchRoot (scratchBaseDir : UnixPath) (keepScratch : Bool) :
    Except Throwable (UnixPath × FileSystem) :=
  rethrow .io "failed to create scratch directory"
    (env.createScratchDirectory scratchBaseDir "launcher-" keepScratch)

/-- The exception as an argument of its own message, which is taken for a format string. -/
def formatted (message : String) : Option String :=
  JavaFormat.format env.toUpperCase message [⟨"java.io.IOException: " ++ message, env.hashCode message⟩]

/-- The exceptions of `createClassLoaderForModule`. -/
def createClassLoader (loader : Core.ModuleLoader) (fs : FileSystem) :
    Except Throwable (List UnixPath) :=
  match (Core.createClassLoaderForModule env.world env.faults loader harnessModuleName fs).1 with
  | .ok filePaths => .ok filePaths
  | .error (.moduleNotFound name) => .error (.mk .moduleLoading (some s!"module not found: {name}") none)
  | .error (.noModuleJarsDirectory message) =>
      .error (.mk .moduleLoading (some s!"error creating module jar directory: {message}") none)
  | .error (.notExtracted message) =>
      match formatted env message with
      | some text => .error (.mk .moduleLoading (some text) none)
      | none => .error (.unchecked "IllegalFormatException")

def loadAndInvokeHarnessClass (loader : Core.ModuleLoader) (className : String)
    (args : List (Option String)) (fs : FileSystem) :
    Option (String × List (Option String)) × Except Throwable Unit :=
  let failed := fun e : Throwable => rethrow .reflective "Failed to initialize harness: "
    (rethrow .moduleLoading "Failed to load harness: " (.error e))
  match createClassLoader env loader fs >>= (env.findMain · className) with
  | .error e => (none, failed e)
  | .ok () =>
      match env.invoke className args with
      | .returns => (some (className, args), .ok ())
      | .throws target =>
          (some (className, args), .error (.mk .launch (some "Harness failed with ") (some target)))
      | .fails e => (none, failed e)

def launchHarnessClass (className : String) (args : List (Option String)) :
    Option (String × List (Option String)) × Except Throwable Unit :=
  match scratchBase args >>= (createScratchRoot env · (getKeepScratch (texts args))) with
  | .error e => (none, .error e)
  | .ok (scratchRootDir, fs) =>
      let (invoked, result) := match env.moduleJars with
        | .error e => (none, .error e)
        | .ok moduleJars => loadAndInvokeHarnessClass env ⟨scratchRootDir, moduleJars⟩ className args fs
      (invoked, rethrow .io "failed to create module loader" result)

/-- `Optional.of(e.getCause())` throws where there is no cause. -/
def report : Except Throwable Unit → Ending
  | .ok () => .returned
  | .error (.mk .launch message (some cause)) => .exited 1 message cause
  | .error (.mk .launch _ none) => .escaped (.unchecked "NullPointerException")
  | .error e => .escaped e

def isReadme : List String → Bool
  | [arg] => equalsIgnoreCase "--readme" arg
  | _ => false

/-- The title and the first part of the version. -/
def generatorArgs : Except Throwable (List (Option String)) :=
  match env.implementationVersion with
  | none => .error (.unchecked "NullPointerException")
  | some fullVersion =>
      match (JavaString.split '-' fullVersion.toList)[0]? with
      | none => .error (.unchecked "ArrayIndexOutOfBoundsException")
      | some version => .ok [some "--title", env.specificationTitle, some "--version", some version]

/-- The class to launch and its arguments. -/
def launched (args : List String) : Except Throwable (String × List (Option String)) :=
  if isReadme args then (generatorArgs env).map (markdownGenerator, ·)
  else .ok (harnessMainClass, args.map some)

def main (args : List String) : Run :=
  match launched env args with
  | .error e => ⟨none, report (.error e)⟩
  | .ok (className, args) =>
      let (invoked, result) := launchHarnessClass env className args
      ⟨invoked, report result⟩

end Steps

/-! ## Failures and how they end -/

/-- The main method was invoked with the arguments and returned. -/
def HandsOver (run : Run) (className : String) (args : List (Option String)) : Prop :=
  run.invoked = some (className, args) ∧ run.ending = .returned

/-- A message was printed, and the status is 1. -/
def Reports (run : Run) : Prop :=
  ∃ message cause, run.ending = .exited 1 (some message) cause

/-- Where something fails, it throws what it declares. -/
structure Declared (env : Environment) : Prop where
  scratch : ∀ base name keep e, env.createScratchDirectory base name keep = .error e → e.kind = .io
  metadata : ∀ e, env.moduleJars = .error e → e.kind = .io
  lookup : ∀ classPath className e, env.findMain classPath className = .error e → e.kind = .reflective
  invocation : ∀ className args e, env.invoke className args = .fails e → e.kind = .reflective

/-- There is a directory after `--scratch-base`, and the message for a jar that cannot be extracted is a
format string. -/
structure Sound (env : Environment) (args : List (Option String)) : Prop where
  directory : ∃ base, scratchBase args = .ok base
  messages : ∀ base scratchRootDir fs moduleJars message, scratchBase args = .ok base →
    env.createScratchDirectory base "launcher-" (getKeepScratch (texts args)) = .ok (scratchRootDir, fs) →
    env.moduleJars = .ok moduleJars →
    (Core.createClassLoaderForModule env.world env.faults ⟨scratchRootDir, moduleJars⟩ harnessModuleName
      fs).1 = .error (.notExtracted message) →
    ∃ text, formatted env message = some text

/-- A failure that is reported. -/
def Reported (e : Throwable) : Prop :=
  ∃ message cause, e = .mk .launch (some message) (some cause)

section Failures

variable {env : Environment} {className : String} {args : List (Option String)} {α : Type}

theorem rethrow_ok {kind : Kind} {message : String} {result : Except Throwable α} {a : α} :
    rethrow kind message result = .ok a ↔ result = .ok a := by
  cases result with
  | error e =>
      rw [rethrow]
      split <;> exact ⟨nofun, nofun⟩
  | ok b => rfl

/-- What a catch clause is for is reported, and what was to be reported before still is. -/
theorem reported_of_rethrow {kind : Kind} {message : String} {result : Except Throwable α} {e : Throwable}
    (throws : ∀ e', result = .error e' → e'.kind = kind ∨ Reported e')
    (rethrown : rethrow kind message result = .error e) : Reported e := by
  cases result with
  | ok a => cases rethrown
  | error e' =>
      have reported := throws e' rfl
      rw [rethrow] at rethrown
      split at rethrown
      · cases rethrown
        exact ⟨message, e', rfl⟩
      · next other =>
        obtain rfl := Except.error.inj rethrown
        exact reported.resolve_left other

/-- The message is the only thing that can go wrong about the class loader besides loading the module. -/
theorem createClassLoader_error {loader : Core.ModuleLoader} {fs : FileSystem} {e : Throwable}
    (messages : ∀ message, (Core.createClassLoaderForModule env.world env.faults loader harnessModuleName
      fs).1 = .error (.notExtracted message) → ∃ text, formatted env message = some text)
    (fails : createClassLoader env loader fs = .error e) : e.kind = .moduleLoading := by
  unfold createClassLoader at fails
  split at fails
  · cases fails
  · cases fails
    rfl
  · cases fails
    rfl
  · next message notExtracted =>
    obtain ⟨text, isText⟩ := messages message notExtracted
    rw [isText] at fails
    cases fails
    rfl

/-- The two catch clauses for what goes wrong before the main method runs. -/
theorem reported_of_failed {e e' : Throwable} (checked : e.kind = .moduleLoading ∨ e.kind = .reflective)
    (failed : rethrow .reflective "Failed to initialize harness: "
      (rethrow .moduleLoading "Failed to load harness: " (.error e : Except Throwable Unit)) = .error e') :
    Reported e' := by
  refine reported_of_rethrow (fun e'' first => ?_) failed
  rcases checked with loading | reflective
  · exact .inr (reported_of_rethrow (fun _ same => .inl (by cases same; exact loading)) first)
  · have other : e.kind ≠ .moduleLoading := by
      rw [reflective]
      decide
    rw [rethrow, if_neg other] at first
    cases first
    exact .inl reflective

theorem loadAndInvoke_reported (declared : Declared env) {loader : Core.ModuleLoader} {fs : FileSystem}
    (messages : ∀ message, (Core.createClassLoaderForModule env.world env.faults loader harnessModuleName
      fs).1 = .error (.notExtracted message) → ∃ text, formatted env message = some text) {e : Throwable}
    (fails : (loadAndInvokeHarnessClass env loader className args fs).2 = .error e) : Reported e := by
  unfold loadAndInvokeHarnessClass at fails
  dsimp only at fails
  split at fails
  · next e' notFound =>
    refine reported_of_failed ?_ fails
    cases created : createClassLoader env loader fs with
    | error e'' =>
        rw [created] at notFound
        cases notFound
        exact .inl (createClassLoader_error messages created)
    | ok classPath =>
        rw [created] at notFound
        exact .inr (declared.lookup classPath className e' notFound)
  · split at fails
    · cases fails
    · next target _ =>
      cases fails
      exact ⟨_, target, rfl⟩
    · next e' notInvoked => exact reported_of_failed (.inr (declared.invocation className args e' notInvoked)) fails

theorem loadAndInvoke_invoked {loader : Core.ModuleLoader} {fs : FileSystem}
    (returns : (loadAndInvokeHarnessClass env loader className args fs).2 = .ok ()) :
    (loadAndInvokeHarnessClass env loader className args fs).1 = some (className, args) := by
  unfold loadAndInvokeHarnessClass at returns ⊢
  dsimp only at returns ⊢
  split at returns
  · rw [rethrow_ok, rethrow_ok] at returns
    cases returns
  · split at returns
    · rfl
    · cases returns
    · rw [rethrow_ok, rethrow_ok] at returns
      cases returns

/-- Where every message is a format string, failures are reported. -/
theorem launch_reported (declared : Declared env) (sound : Sound env args) {e : Throwable}
    (fails : (launchHarnessClass env className args).2 = .error e) : Reported e := by
  obtain ⟨base, isBase⟩ := sound.directory
  unfold launchHarnessClass at fails
  rw [isBase, Fallible.ok_bind] at fails
  split at fails
  · next e' notCreated =>
    cases fails
    exact reported_of_rethrow (fun e' refused => .inl (declared.scratch _ _ _ e' refused)) notCreated
  · next scratchRootDir fs created =>
    have created := rethrow_ok.mp created
    refine reported_of_rethrow (fun e' failed => ?_) fails
    cases metadata : env.moduleJars with
    | error e'' =>
        rw [metadata] at failed
        obtain rfl := Except.error.inj failed
        exact .inl (declared.metadata _ metadata)
    | ok moduleJars =>
        rw [metadata] at failed
        exact .inr (loadAndInvoke_reported declared
          (sound.messages base scratchRootDir fs moduleJars · isBase created metadata) failed)

theorem launch_invoked (returns : (launchHarnessClass env className args).2 = .ok ()) :
    (launchHarnessClass env className args).1 = some (className, args) := by
  unfold launchHarnessClass at returns ⊢
  split at returns
  · cases returns
  · next created =>
    have returns := rethrow_ok.mp returns
    cases metadata : env.moduleJars with
    | error e =>
        rw [metadata] at returns
        cases returns
    | ok moduleJars =>
        rw [metadata] at returns
        exact loadAndInvoke_invoked returns

theorem main_eq {mainArgs : List String} (launches : launched env mainArgs = .ok (className, args)) :
    main env mainArgs = ⟨(launchHarnessClass env className args).1,
      report (launchHarnessClass env className args).2⟩ := by
  rw [main, launches]

/-- The main method is invoked with its arguments and returns, or a message is printed and the status is 1.
With the one argument `--readme`, it is that of another class, with other arguments. -/
theorem main_handsOver_or_reports (declared : Declared env) {mainArgs : List String}
    (launches : launched env mainArgs = .ok (className, args)) (sound : Sound env args) :
    HandsOver (main env mainArgs) className args ∨ Reports (main env mainArgs) := by
  rw [main_eq launches]
  cases result : (launchHarnessClass env className args).2 with
  | ok =>
      left
      exact ⟨launch_invoked result, rfl⟩
  | error e =>
      right
      obtain ⟨message, cause, rfl⟩ := launch_reported declared sound result
      exact ⟨message, cause, rfl⟩

/-- Only a percent sign keeps a message from being a format string. -/
theorem formatted_of_no_percent {message : String} (plain : '%' ∉ message.toList) :
    formatted env message = some message :=
  JavaFormat.format_of_no_percent env.toUpperCase plain _

theorem scratchBase_error {e : Throwable} (refused : scratchBase args = .error e) :
    (∃ message, e = .mk .launch (some message) none) ∨ e = .unchecked "InvalidPathException" := by
  unfold scratchBase at refused
  split at refused
  · next message _ =>
    cases refused
    exact .inl ⟨message, rfl⟩
  · split at refused
    · cases refused
      exact .inr rfl
    · cases refused

theorem launch_of_message {base scratchRootDir : UnixPath} {fs : FileSystem}
    {moduleJars : String → Option Core.ResourcePaths} {message : String}
    (isBase : scratchBase args = .ok base)
    (created : env.createScratchDirectory base "launcher-" (getKeepScratch (texts args)) =
      .ok (scratchRootDir, fs))
    (metadata : env.moduleJars = .ok moduleJars)
    (notExtracted : (Core.createClassLoaderForModule env.world env.faults ⟨scratchRootDir, moduleJars⟩
      harnessModuleName fs).1 = .error (.notExtracted message))
    (noFormat : formatted env message = none) :
    (launchHarnessClass env className args).2 = .error (.unchecked "IllegalFormatException") := by
  have failed : createClassLoader env ⟨scratchRootDir, moduleJars⟩ fs =
      .error (.unchecked "IllegalFormatException") := by
    simp only [createClassLoader, notExtracted, noFormat]
  have root : createScratchRoot env base (getKeepScratch (texts args)) = .ok (scratchRootDir, fs) := by
    rw [createScratchRoot, created]
    rfl
  unfold launchHarnessClass loadAndInvokeHarnessClass
  rw [isBase, Fallible.ok_bind, root, metadata]
  dsimp only
  rw [failed]
  rfl

/-- Otherwise an exception leaves `main`: there is no cause where the directory is missing, and the
exception that a format string throws is not checked. -/
theorem main_escapes {mainArgs : List String} (launches : launched env mainArgs = .ok (className, args))
    (unsound : ¬Sound env args) : ∃ thrown, (main env mainArgs).ending = .escaped thrown := by
  rw [main_eq launches]
  cases base : scratchBase args with
  | error e =>
      have result : (launchHarnessClass env className args).2 = .error e := by
        unfold launchHarnessClass
        rw [base]
        rfl
      rw [result]
      rcases scratchBase_error base with ⟨message, rfl⟩ | rfl
      · exact ⟨_, rfl⟩
      · exact ⟨_, rfl⟩
  | ok base' =>
      have messages : ∃ scratchRootDir fs moduleJars message,
          env.createScratchDirectory base' "launcher-" (getKeepScratch (texts args)) =
            .ok (scratchRootDir, fs) ∧ env.moduleJars = .ok moduleJars ∧
          (Core.createClassLoaderForModule env.world env.faults ⟨scratchRootDir, moduleJars⟩
            harnessModuleName fs).1 = .error (.notExtracted message) ∧ formatted env message = none := by
        by_contra none'
        refine unsound ⟨⟨base', base⟩, fun other root fs jars message isBase created metadata failed => ?_⟩
        obtain rfl := Except.ok.inj (base.symm.trans isBase)
        by_contra noText
        exact none' ⟨root, fs, jars, message, created, metadata, failed,
          Option.eq_none_iff_forall_not_mem.mpr fun text isText => noText ⟨text, isText⟩⟩
      obtain ⟨root, fs, jars, message, created, metadata, failed, noFormat⟩ := messages
      rw [launch_of_message base created metadata failed noFormat]
      exact ⟨_, rfl⟩

end Failures

/-- The launcher is started in the root directory with a jar, and whatever is invoked returns. -/
def working : Environment where
  specificationTitle := some "Renaissance"
  implementationVersion := some "1.0-dev"
  createScratchDirectory base name _ :=
    .ok (base.resolve (name ++ "120000-1"), ⟨fun _ => none, [[], ["launcher-120000-1"]]⟩)
  moduleJars := .ok fun name =>
    if name = harnessModuleName then some ⟨["harness.jar"], by decide⟩ else none
  world := ⟨fun resource => if resource = "/harness.jar" then some [1, 2, 3] else none, []⟩
  faults := ⟨fun _ => none, fun _ => .completes⟩
  findMain _ _ := .ok ()
  invoke _ _ := .returns
  toUpperCase text := text
  hashCode _ := 0

theorem working_declared : Declared working where
  scratch _ _ _ _ refused := by cases refused
  metadata _ missing := by cases missing
  lookup _ _ _ missing := by cases missing
  invocation _ _ _ failed := by cases failed

theorem working_sound : Sound working [some "dummy"] where
  directory := ⟨_, rfl⟩
  messages base _ _ _ message isBase created metadata failed := by
    cases isBase
    cases created
    cases metadata
    cases failed

theorem main_handsOver_or_reports_dummy :
    HandsOver (main working ["dummy"]) harnessMainClass [some "dummy"] ∨ Reports (main working ["dummy"]) :=
  main_handsOver_or_reports working_declared rfl working_sound

/-- The generator is invoked with other arguments, and the harness is not. -/
theorem readme_not_handsOver : ¬∀ env args, Declared env →
    HandsOver (main env args) harnessMainClass (args.map some) ∨ Reports (main env args) := by
  intro all
  have generates : main working ["--readme"] = ⟨some (markdownGenerator,
      [some "--title", some "Renaissance", some "--version", some "1.0"]), .returned⟩ := rfl
  rcases all working ["--readme"] working_declared with ⟨invoked, -⟩ | ⟨message, cause, ending⟩
  · rw [generates] at invoked
    exact absurd invoked (by decide)
  · rw [generates] at ending
    cases ending

end Renaissance.Launcher
