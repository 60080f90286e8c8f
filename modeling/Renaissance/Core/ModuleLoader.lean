import Mathlib.Data.List.Forall2
import Renaissance.Lib.FileSystem

/-!
# Loading modules

`createClassLoaderForModule` extracts the jars of a module into a directory of its own and returns
the files, which are the class path of the new class loader. A file that is already there is not
extracted again. The names of the files are the base names of the resources.

Results:
1. `extractResources_spec`: what one extraction returns and leaves behind.
2. `classLoaders_complete`: in a run where no failure leaves a part of a file, every class path that
   is returned consists of the complete resources.
-/

namespace Renaissance.Core

/-- A `LinkedHashSet`: the resources of a module in their order, each once. -/
structure ResourcePaths where
  paths : List String
  distinct : paths.Nodup

structure ModuleLoader where
  scratchRootDir : UnixPath
  jarResourcePathsByModule : String → Option ResourcePaths

/-- The resources on the class path of the launcher, and where relative paths start. -/
structure Surroundings where
  getResourceAsStream : String → Option Bytes
  workingDirectory : Location

/-- What goes wrong during one call: the directories that cannot be created, and what becomes of the
copy to a file. -/
structure Faults where
  refuses : Location → Option String
  outcome : Location → FileSystem.CopyOutcome

/-- Why a class loader was not created. The messages are those of the exceptions that were caught. -/
inductive ModuleLoadingException where
  | moduleNotFound (name : String)
  | notExtracted (message : String)
  | noModuleJarsDirectory (message : String)
deriving DecidableEq

def resourceAbsolutePath (resourcePath : String) : String :=
  if resourcePath.toList.head? = some '/' then resourcePath else "/" ++ resourcePath

def resourceFileName (resourcePath : String) : String :=
  UnixPath.baseName resourcePath

section

variable (world : Surroundings) (faults : Faults)

def extractResource (resourcePath : String) (outputFilePath : UnixPath) (fs : FileSystem) :
    Except String Unit × FileSystem :=
  let target := outputFilePath.location world.workingDirectory
  match world.getResourceAsStream (resourceAbsolutePath resourcePath) with
  | none => (.error "resource not found", fs)
  | some content => FileSystem.copy (faults.outcome target) content target fs

def couldNotExtract (resourcePath : String) (outputFilePath : UnixPath) (message : String) :
    String :=
  let target := outputFilePath.toString
  s!"could not extract resource '{resourcePath}' into '{target}': {message}"

/-- Extract a resource unless its file is there. -/
def ensureExtracted (resourcePath : String) (outputFilePath : UnixPath) (fs : FileSystem) :
    Except String Unit × FileSystem :=
  if fs.present (outputFilePath.location world.workingDirectory) then (.ok (), fs)
  else extractResource world faults resourcePath outputFilePath fs

def extractResources (outputDirPath : UnixPath) :
    List String → FileSystem → Except String (List UnixPath) × FileSystem
  | [], fs => (.ok [], fs)
  | resourcePath :: resourcePaths, fs =>
      let outputFilePath := outputDirPath.resolve (resourceFileName resourcePath)
      match ensureExtracted world faults resourcePath outputFilePath fs with
      | (.error message, fs') =>
          (.error (couldNotExtract resourcePath outputFilePath message), fs')
      | (.ok (), fs') =>
          match extractResources outputDirPath resourcePaths fs' with
          | (.error message, fs'') => (.error message, fs'')
          | (.ok result, fs'') => (.ok (outputFilePath :: result), fs'')

/-- `<scratch-root>/<module-name>/lib`. -/
def moduleJarsDir (loader : ModuleLoader) (name : String) : UnixPath :=
  (loader.scratchRootDir.resolve name).resolve "lib"

def createModuleJarsDirectory (loader : ModuleLoader) (name : String) (fs : FileSystem) :
    Except String UnixPath × FileSystem :=
  let result := moduleJarsDir loader name
  match FileSystem.createDirectories faults.refuses (result.ways world.workingDirectory) fs with
  | (.error message, fs') => (.error message, fs')
  | (.ok (), fs') => (.ok result, fs')

/-- The class path of the class loader. The path of a file always converts to a URL. -/
def createClassLoaderForModule (loader : ModuleLoader) (name : String) (fs : FileSystem) :
    Except ModuleLoadingException (List UnixPath) × FileSystem :=
  match loader.jarResourcePathsByModule name with
  | none => (.error (.moduleNotFound name), fs)
  | some jarResourcePaths =>
      match createModuleJarsDirectory world faults loader name fs with
      | (.error message, fs') => (.error (.noModuleJarsDirectory message), fs')
      | (.ok dir, fs') =>
          match extractResources world faults dir jarResourcePaths.paths fs' with
          | (.error message, fs'') => (.error (.notExtracted message), fs'')
          | (.ok filePaths, fs'') => (.ok filePaths, fs'')

end

/-- One call of a run, with what goes wrong during it. -/
structure LoadCall where
  name : String
  faults : Faults

/-- What a call returned, and the files that are there then. -/
structure LoadAnswer where
  name : String
  result : Except ModuleLoadingException (List UnixPath)
  files : FileSystem

/-- The calls on one module loader, one after the other. -/
def createClassLoaders (world : Surroundings) (loader : ModuleLoader) :
    List LoadCall → FileSystem → List LoadAnswer
  | [], _ => []
  | call :: calls, fs =>
      let answer := createClassLoaderForModule world call.faults loader call.name fs
      ⟨call.name, answer.1, answer.2⟩ :: createClassLoaders world loader calls answer.2

/-! ## What a class path should be -/

/-- One file for each jar of the module, in their order, distinct and with the content of the jar. -/
structure CompleteClassPath (world : Surroundings) (fs : FileSystem) (jars : List String)
    (classPath : List UnixPath) : Prop where
  complete : List.Forall₂ (fun jar path =>
    ∃ content, world.getResourceAsStream (resourceAbsolutePath jar) = some content ∧
      fs.content (path.location world.workingDirectory) = some content) jars classPath
  distinct : (classPath.map fun path => path.location world.workingDirectory).Nodup

/-- Every class path that was returned is complete. -/
def AnswersComplete (world : Surroundings) (loader : ModuleLoader)
    (answers : List LoadAnswer) : Prop :=
  ∀ answer ∈ answers, ∀ classPath, answer.result = .ok classPath →
    ∃ jars, loader.jarResourcePathsByModule answer.name = some jars ∧
      CompleteClassPath world answer.files jars.paths classPath

/-- The path of a jar in the directory of its module. -/
def jarPath (loader : ModuleLoader) (name resourcePath : String) : UnixPath :=
  (moduleJarsDir loader name).resolve (resourceFileName resourcePath)

def jarFile (world : Surroundings) (loader : ModuleLoader) (name resourcePath : String) : Location :=
  (jarPath loader name resourcePath).location world.workingDirectory

/-- The module lists the resource. -/
def Lists (loader : ModuleLoader) (name resourcePath : String) : Prop :=
  ∃ jars, loader.jarResourcePathsByModule name = some jars ∧ resourcePath ∈ jars.paths

/-- The jars of one module have files of their own, jars of different modules only share a file if
they have one content, none of these files is a directory on the way to one of them, and none
exists yet. -/
structure Prepared (world : Surroundings) (loader : ModuleLoader) (fs : FileSystem) : Prop where
  ownFiles : ∀ name jars, loader.jarResourcePathsByModule name = some jars →
    (jars.paths.map (jarFile world loader name)).Nodup
  sameContent : ∀ name other jar jar', Lists loader name jar → Lists loader other jar' →
    jarFile world loader name jar = jarFile world loader other jar' →
    world.getResourceAsStream (resourceAbsolutePath jar) =
      world.getResourceAsStream (resourceAbsolutePath jar')
  notDirectory : ∀ name other jar jars, Lists loader name jar →
    loader.jarResourcePathsByModule other = some jars →
    jarFile world loader name jar ∉ (moduleJarsDir loader other).ways world.workingDirectory
  fresh : ∀ name jar, Lists loader name jar → fs.present (jarFile world loader name jar) = false

/-- No copy of a jar fails after a part of its file was written. -/
def CleanFailures (world : Surroundings) (loader : ModuleLoader) (call : LoadCall) : Prop :=
  ∀ name jar content, Lists loader name jar →
    world.getResourceAsStream (resourceAbsolutePath jar) = some content →
    (call.faults.outcome (jarFile world loader name jar)).Clean content

/-! ## Every file is complete -/

/-- The files of the jars are complete wherever they exist, and none of them is a directory. -/
structure FilesComplete (world : Surroundings) (loader : ModuleLoader) (fs : FileSystem) : Prop where
  whole : ∀ name jar content, Lists loader name jar →
    fs.content (jarFile world loader name jar) = some content →
    world.getResourceAsStream (resourceAbsolutePath jar) = some content
  notDirectory : ∀ name jar, Lists loader name jar →
    jarFile world loader name jar ∉ fs.directories

/-- All files of the first file system are in the second one. -/
def Keeps (fs fs' : FileSystem) : Prop :=
  ∀ location content, fs.content location = some content → fs'.content location = some content

/-- The file of the jar is there with the content of the jar. -/
def Extracted (world : Surroundings) (fs : FileSystem) (jar : String) (path : UnixPath) : Prop :=
  ∃ content, world.getResourceAsStream (resourceAbsolutePath jar) = some content ∧
    fs.content (path.location world.workingDirectory) = some content

variable {world : Surroundings} {loader : ModuleLoader} {faults : Faults} {fs : FileSystem}
  {name jar : String}

theorem Extracted.later {fs' : FileSystem} {path : UnixPath} (keeps : Keeps fs fs')
    (extracted : Extracted world fs jar path) : Extracted world fs' jar path := by
  obtain ⟨content, resource, file⟩ := extracted
  exact ⟨content, resource, keeps _ _ file⟩

theorem Prepared.filesComplete {start : FileSystem} (prepared : Prepared world loader start) :
    FilesComplete world loader start where
  whole name jar content lists file := by
    rw [(FileSystem.absent.mp (prepared.fresh name jar lists)).1] at file
    cases file
  notDirectory name jar lists := (FileSystem.absent.mp (prepared.fresh name jar lists)).2

/-- Extracting one jar. -/
theorem ensureExtracted_spec {start : FileSystem} (prepared : Prepared world loader start)
    (clean : ∀ content, world.getResourceAsStream (resourceAbsolutePath jar) = some content →
      (faults.outcome (jarFile world loader name jar)).Clean content)
    (complete : FilesComplete world loader fs) (lists : Lists loader name jar) :
    let after := ensureExtracted world faults jar (jarPath loader name jar) fs
    FilesComplete world loader after.2 ∧ Keeps fs after.2 ∧
      (after.1 = .ok () → Extracted world after.2 jar (jarPath loader name jar)) := by
  have target : (jarPath loader name jar).location world.workingDirectory =
      jarFile world loader name jar := rfl
  unfold ensureExtracted
  rw [target]
  split
  · next present =>
    refine ⟨complete, fun _ _ file => file, fun _ => ?_⟩
    have isFile : (fs.content (jarFile world loader name jar)).isSome := by
      simpa [FileSystem.present, complete.notDirectory name jar lists] using present
    obtain ⟨content, file⟩ := Option.isSome_iff_exists.mp isFile
    exact ⟨content, complete.whole name jar content lists file, file⟩
  · unfold extractResource
    rw [target]
    cases resource : world.getResourceAsStream (resourceAbsolutePath jar) with
    | none => exact ⟨complete, fun _ _ file => file, fun returned => by cases returned⟩
    | some content =>
        refine ⟨⟨?_, ?_⟩, fun _ _ file => FileSystem.copy_kept file, fun copied => ?_⟩
        · intro other jar' content' lists' file
          rcases FileSystem.copy_location (clean content resource) file with old | ⟨same, rfl⟩
          · exact complete.whole other jar' content' lists' old
          · rw [prepared.sameContent other name jar' jar lists' lists same, resource]
        · intro other jar' lists'
          rw [FileSystem.copy_directories]
          exact complete.notDirectory other jar' lists'
        · refine ⟨content, resource, ?_⟩
          rw [FileSystem.copy_ok copied, target, FileSystem.write_self]

/-- Extracting some jars of a module. -/
theorem extractResources_spec {start : FileSystem} (prepared : Prepared world loader start)
    (clean : ∀ jar content, Lists loader name jar →
      world.getResourceAsStream (resourceAbsolutePath jar) = some content →
      (faults.outcome (jarFile world loader name jar)).Clean content)
    (complete : FilesComplete world loader fs) {jars : List String}
    (lists : ∀ jar ∈ jars, Lists loader name jar) :
    let after := extractResources world faults (moduleJarsDir loader name) jars fs
    FilesComplete world loader after.2 ∧ Keeps fs after.2 ∧
      ∀ paths, after.1 = .ok paths →
        paths = jars.map (jarPath loader name) ∧
          ∀ jar ∈ jars, Extracted world after.2 jar (jarPath loader name jar) := by
  induction jars generalizing fs with
  | nil =>
      refine ⟨complete, fun _ _ file => file, fun paths returned => ?_⟩
      exact ⟨(Except.ok.inj returned).symm, by simp⟩
  | cons jar jars ih =>
      have first := ensureExtracted_spec prepared
        (fun content => clean jar content (lists jar (by simp))) complete (lists jar (by simp))
      rw [extractResources, ← jarPath]
      rcases h : ensureExtracted world faults jar (jarPath loader name jar) fs with ⟨result, fs'⟩
      rw [h] at first
      obtain ⟨complete', keeps, extracted⟩ := first
      match result with
      | .error message => exact ⟨complete', keeps, fun paths returned => by cases returned⟩
      | .ok () =>
          have rest := ih complete' fun jar mem => lists jar (by simp [mem])
          simp only
          rcases h' : extractResources world faults (moduleJarsDir loader name) jars fs' with
            ⟨result', fs''⟩
          rw [h'] at rest
          obtain ⟨complete'', keeps', all⟩ := rest
          have kept : Keeps fs fs'' := fun l c file => keeps' l c (keeps l c file)
          match result' with
          | .error message => exact ⟨complete'', kept, fun paths returned => by cases returned⟩
          | .ok paths =>
              refine ⟨complete'', kept, fun paths' returned => ?_⟩
              obtain ⟨rfl, each⟩ := all paths rfl
              obtain rfl := Except.ok.inj returned
              refine ⟨rfl, List.forall_mem_cons.mpr ⟨?_, each⟩⟩
              exact (extracted rfl).later keeps'

theorem createModuleJarsDirectory_spec {start : FileSystem} (prepared : Prepared world loader start)
    (faults : Faults) (complete : FilesComplete world loader fs) {jars : ResourcePaths}
    (module : loader.jarResourcePathsByModule name = some jars) :
    let after := createModuleJarsDirectory world faults loader name fs
    FilesComplete world loader after.2 ∧
      ∀ dir, after.1 = .ok dir → dir = moduleJarsDir loader name := by
  have content := FileSystem.createDirectories_content faults.refuses
    ((moduleJarsDir loader name).ways world.workingDirectory) fs
  have kept : FilesComplete world loader (FileSystem.createDirectories faults.refuses
      ((moduleJarsDir loader name).ways world.workingDirectory) fs).2 := by
    constructor
    · intro other jar c lists file
      rw [content] at file
      exact complete.whole other jar c lists file
    · intro other jar lists mem
      rcases FileSystem.createDirectories_directories mem with old | way
      · exact complete.notDirectory other jar lists old
      · exact prepared.notDirectory other name jar jars lists module way
  unfold createModuleJarsDirectory
  simp only
  rcases h : FileSystem.createDirectories faults.refuses
    ((moduleJarsDir loader name).ways world.workingDirectory) fs with ⟨result, fs'⟩
  rw [h] at kept
  match result with
  | .error message => exact ⟨kept, fun dir returned => by cases returned⟩
  | .ok () => exact ⟨kept, fun dir returned => (Except.ok.inj returned).symm⟩

/-- The extracted jars of a module are a complete class path, because each has a file of its own. -/
theorem completeClassPath_of_extracted {start : FileSystem} (prepared : Prepared world loader start)
    {jars : ResourcePaths} (module : loader.jarResourcePathsByModule name = some jars)
    (extracted : ∀ jar ∈ jars.paths, Extracted world fs jar (jarPath loader name jar)) :
    CompleteClassPath world fs jars.paths (jars.paths.map (jarPath loader name)) where
  complete := List.forall₂_map_right_iff.mpr (List.forall₂_same.mpr extracted)
  distinct := by
    have file (jar : String) : (jarPath loader name jar).location world.workingDirectory =
        jarFile world loader name jar := rfl
    simp only [List.map_map, Function.comp_def, file]
    exact prepared.ownFiles name jars module

/-- One call, whatever it comes to. -/
theorem createClassLoaderForModule_spec {start : FileSystem}
    (prepared : Prepared world loader start)
    (clean : ∀ jar content, Lists loader name jar →
      world.getResourceAsStream (resourceAbsolutePath jar) = some content →
      (faults.outcome (jarFile world loader name jar)).Clean content)
    (complete : FilesComplete world loader fs) :
    let after := createClassLoaderForModule world faults loader name fs
    FilesComplete world loader after.2 ∧
      ∀ classPath, after.1 = .ok classPath →
        ∃ jars, loader.jarResourcePathsByModule name = some jars ∧
          CompleteClassPath world after.2 jars.paths classPath := by
  unfold createClassLoaderForModule
  cases module : loader.jarResourcePathsByModule name with
  | none => exact ⟨complete, fun classPath returned => by cases returned⟩
  | some jars =>
      have created := createModuleJarsDirectory_spec prepared faults complete module
      simp only
      rcases h : createModuleJarsDirectory world faults loader name fs with ⟨result, fs'⟩
      rw [h] at created
      obtain ⟨complete', isDir⟩ := created
      match result with
      | .error message => exact ⟨complete', fun classPath returned => by cases returned⟩
      | .ok dir =>
          obtain rfl := isDir dir rfl
          have listed : ∀ jar ∈ jars.paths, Lists loader name jar :=
            fun jar mem => ⟨jars, module, mem⟩
          have rest := extractResources_spec prepared clean complete' listed
          simp only
          rcases h' : extractResources world faults (moduleJarsDir loader name) jars.paths fs' with
            ⟨result', fs''⟩
          rw [h'] at rest
          obtain ⟨complete'', -, all⟩ := rest
          match result' with
          | .error message => exact ⟨complete'', fun classPath returned => by cases returned⟩
          | .ok paths =>
              refine ⟨complete'', fun classPath returned => ⟨jars, rfl, ?_⟩⟩
              obtain ⟨rfl, extracted⟩ := all paths rfl
              obtain rfl := Except.ok.inj returned
              exact completeClassPath_of_extracted prepared module extracted

/-- The same for all calls of a run. -/
theorem createClassLoaders_spec {start : FileSystem} (prepared : Prepared world loader start)
    {calls : List LoadCall} (clean : ∀ call ∈ calls, CleanFailures world loader call)
    (complete : FilesComplete world loader fs) :
    AnswersComplete world loader (createClassLoaders world loader calls fs) := by
  induction calls generalizing fs with
  | nil => simp [AnswersComplete, createClassLoaders]
  | cons call calls ih =>
      obtain ⟨complete', returned⟩ := createClassLoaderForModule_spec prepared
        (fun jar content => clean call (by simp) call.name jar content) complete
      refine List.forall_mem_cons.mpr ⟨returned, ?_⟩
      exact ih (fun call mem => clean call (by simp [mem])) complete'

/-- If no copy fails with a part of its file written, every class path that the calls on a module
loader return is complete, also after calls that failed. -/
theorem classLoaders_complete {world : Surroundings} {loader : ModuleLoader} {start : FileSystem}
    (prepared : Prepared world loader start) {calls : List LoadCall}
    (clean : ∀ call ∈ calls, CleanFailures world loader call) :
    AnswersComplete world loader (createClassLoaders world loader calls start) :=
  createClassLoaders_spec prepared clean prepared.filesComplete

def dummyJars : ResourcePaths := ⟨["unique/dummy/dummy.jar", "shared/core.jar"], by decide⟩

/-- A module of two jars. -/
def dummyLoader : ModuleLoader where
  scratchRootDir := UnixPath.get "/scratch"
  jarResourcePathsByModule name := if name = "dummy" then some dummyJars else none

def dummyWorld : Surroundings where
  getResourceAsStream resource :=
    if resource = "/unique/dummy/dummy.jar" then some [1, 2, 3]
    else if resource = "/shared/core.jar" then some [4, 5]
    else none
  workingDirectory := []

def emptyScratch : FileSystem := ⟨fun _ => none, [[], ["scratch"]]⟩

/-- A call whose copies come to the given end. -/
def dummyCall (outcome : FileSystem.CopyOutcome) : LoadCall :=
  ⟨"dummy", ⟨fun _ => none, fun _ => outcome⟩⟩

theorem dummyLoader_jars {name : String} {jars : ResourcePaths}
    (module : dummyLoader.jarResourcePathsByModule name = some jars) :
    name = "dummy" ∧ jars = dummyJars := by
  change (if name = "dummy" then some dummyJars else none) = some jars at module
  split at module
  · next dummy => exact ⟨dummy, (Option.some.inj module).symm⟩
  · cases module

theorem dummyLoader_lists {name jar : String} (lists : Lists dummyLoader name jar) :
    name = "dummy" ∧ (jar = "unique/dummy/dummy.jar" ∨ jar = "shared/core.jar") := by
  obtain ⟨jars, module, mem⟩ := lists
  obtain ⟨rfl, rfl⟩ := dummyLoader_jars module
  exact ⟨rfl, by simpa [dummyJars] using mem⟩

theorem dummyLoader_files :
    jarFile dummyWorld dummyLoader "dummy" "unique/dummy/dummy.jar" =
      ["scratch", "dummy", "lib", "dummy.jar"] ∧
    jarFile dummyWorld dummyLoader "dummy" "shared/core.jar" =
      ["scratch", "dummy", "lib", "core.jar"] := by
  decide

theorem dummyLoader_prepared : Prepared dummyWorld dummyLoader emptyScratch where
  ownFiles name jars module := by
    obtain ⟨rfl, rfl⟩ := dummyLoader_jars module
    simp [dummyJars, dummyLoader_files]
  sameContent name other jar jar' lists lists' same := by
    obtain ⟨rfl, rfl | rfl⟩ := dummyLoader_lists lists <;>
      obtain ⟨rfl, rfl | rfl⟩ := dummyLoader_lists lists' <;>
      simp [dummyLoader_files] at same ⊢
  notDirectory name other jar jars lists module := by
    obtain ⟨rfl, -⟩ := dummyLoader_jars module
    obtain ⟨rfl, rfl | rfl⟩ := dummyLoader_lists lists <;> decide
  fresh name jar lists := by
    obtain ⟨rfl, rfl | rfl⟩ := dummyLoader_lists lists <;> decide

/-- The first call fails before it has created a file, the second one extracts both jars. -/
theorem classLoaders_complete_dummy :
    AnswersComplete dummyWorld dummyLoader (createClassLoaders dummyWorld dummyLoader
      [dummyCall (.fails none "no space left on device"), dummyCall .completes] emptyScratch) := by
  refine classLoaders_complete dummyLoader_prepared fun call mem name jar content lists _ => ?_
  intro written message broken
  have calls : call = dummyCall (.fails none "no space left on device") ∨
      call = dummyCall .completes := by simpa using mem
  rcases calls with rfl | rfl <;> cases broken

/-- The first call fails with one byte written, and the second one returns the broken jar. -/
theorem truncated_jar_reused :
    ¬ AnswersComplete dummyWorld dummyLoader (createClassLoaders dummyWorld dummyLoader
      [dummyCall (.fails (some 1) "no space left on device"), dummyCall .completes]
      emptyScratch) := by
  intro complete
  have second := complete
    ⟨"dummy", _, _⟩ (List.mem_cons_of_mem _ (List.mem_singleton.mpr rfl)) _ rfl
  obtain ⟨jars, module, classPath⟩ := second
  obtain ⟨-, rfl⟩ := dummyLoader_jars module
  cases classPath.complete with
  | cons first rest =>
      obtain ⟨content, resource, file⟩ := first
      have whole : dummyWorld.getResourceAsStream
          (resourceAbsolutePath "unique/dummy/dummy.jar") = some [1, 2, 3] := by decide
      have part : some [1] = some content := file
      rw [← part, whole] at resource
      exact absurd resource (by decide)

end Renaissance.Core
