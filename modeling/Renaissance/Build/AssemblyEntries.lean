import Renaissance.Lib.Fallible
import Renaissance.Lib.JavaCollections
import Renaissance.Lib.UnixPath

/-!
# Where the bundle keeps the jars of the modules

`mapModuleJarsToAssemblyEntries` groups the jars of all modules by their base names. A group of one
goes to the directory of its module, every other one to a shared directory.

`mapModuleJarsToAssemblyEntries_eq` says which entry each jar gets, and
`mapModuleJarsToAssemblyEntries_separates_iff` for which modules the entries do not clash.
-/

namespace Renaissance.Build

open JavaCollections

/-- A file other than the root directory. -/
structure File where
  path : String
  named : UnixPath.baseName path ≠ ""
deriving DecidableEq

def File.getName (file : File) : String :=
  UnixPath.baseName file.path

/-- One element of `modulesDetails`. -/
structure ModuleDetails where
  name : String
  jars : List File
  scalaVersion : String

/-- The jars with the modules that list them. -/
def moduleJars (modulesDetails : List ModuleDetails) : List (String × File) :=
  modulesDetails.flatMap fun module => module.jars.map fun jar => (module.name, jar)

def jarModules (order : IterationOrder String) (modulesDetails : List ModuleDetails) :
    List (String × List (String × File)) :=
  groupBy order (fun use => use.2.getName) (moduleJars modulesDetails)

def shared : UnixPath := UnixPath.get "shared"
def unique : UnixPath := UnixPath.get "unique"

def asUnixPath (path : UnixPath) : String :=
  UnixPath.unixText path.components

def entryDir (name : String) (modules : List (String × File)) : UnixPath :=
  if modules.length < 2 then unique.resolve name else shared

def entryPath (name : String) (modules : List (String × File)) (jarBaseName : String) : UnixPath :=
  (entryDir name modules).resolve jarBaseName

def jarEntries (order : IterationOrder String) (modulesDetails : List ModuleDetails) :
    List (File × String) :=
  let entries := (jarModules order modulesDetails).flatMap fun group =>
    group.2.map fun use => (use.2, asUnixPath (entryPath use.1 group.2 group.1))
  entries.foldl update []

/-- The jars of every module with their entries. There would be no result if a jar had no entry. -/
def mapModuleJarsToAssemblyEntries (order : IterationOrder String)
    (modulesDetails : List ModuleDetails) : Option (List (String × List (File × String))) :=
  modulesDetails.mapM fun module =>
    (module.jars.mapM fun srcJar =>
      ((jarEntries order modulesDetails).lookup srcJar).map (srcJar, ·)).map (module.name, ·)

/-! ## What the entries should be -/

/-- The module is the only one with the jar. -/
def OnlyUser (modulesDetails : List ModuleDetails) (name : String) (jar : File) : Prop :=
  (name, jar) ∈ moduleJars modulesDetails ∧
    ∀ other, (other, jar) ∈ moduleJars modulesDetails → other = name

def SeveralUsers (modulesDetails : List ModuleDetails) (jar : File) : Prop :=
  ∃ name other, name ≠ other ∧ (name, jar) ∈ moduleJars modulesDetails ∧
    (other, jar) ∈ moduleJars modulesDetails

/-- The entry is somewhere below the directory. -/
def Under (dir : List String) (entry : String) : Prop :=
  ∃ (path : UnixPath) (first : String) (rest : List String),
    path.components = dir ++ first :: rest ∧ entry = asUnixPath path

/-- The module, the jar and the entry of every placement. -/
def placements (mapped : List (String × List (File × String))) : List (String × File × String) :=
  mapped.flatMap fun module => module.2.map fun placed => (module.1, placed)

/-- The dependencies of different modules do not clash. -/
structure Separates (modulesDetails : List ModuleDetails)
    (mapped : List (String × List (File × String))) : Prop where
  complete : mapped.map (fun module => (module.1, module.2.map Prod.fst)) =
    modulesDetails.map fun module => (module.name, module.jars)
  same : ∀ name other jar entry entry', (name, jar, entry) ∈ placements mapped →
    (other, jar, entry') ∈ placements mapped → entry = entry'
  different : ∀ name other jar jar' entry entry', (name, jar, entry) ∈ placements mapped →
    (other, jar', entry') ∈ placements mapped → jar ≠ jar' → entry ≠ entry'
  inUnique : ∀ name jar entry, (name, jar, entry) ∈ placements mapped →
    OnlyUser modulesDetails name jar → Under ("unique" :: UnixPath.componentsOf name) entry
  inShared : ∀ name jar entry, (name, jar, entry) ∈ placements mapped →
    SeveralUsers modulesDetails jar → Under ["shared"] entry

/-- No two jars have one base name, and a module lists a jar that is its own once. -/
structure Distinguishable (modulesDetails : List ModuleDetails) : Prop where
  names : ∀ name other jar jar', (name, jar) ∈ moduleJars modulesDetails →
    (other, jar') ∈ moduleJars modulesDetails → jar.getName = jar'.getName → jar = jar'
  once : ∀ name jar, OnlyUser modulesDetails name jar →
    (moduleJars modulesDetails).count (name, jar) = 1
  relative : ∀ name jar, OnlyUser modulesDetails name jar → UnixPath.isAbsolute name = false

/-! ## The entry of a jar -/

/-- All uses of jars with the base name of this one. -/
def namesakes (modulesDetails : List ModuleDetails) (jar : File) : List (String × File) :=
  (moduleJars modulesDetails).filter fun use => use.2.getName = jar.getName

def pathOf (modulesDetails : List ModuleDetails) (use : String × File) : UnixPath :=
  entryPath use.1 (namesakes modulesDetails use.2) use.2.getName

variable {order : IterationOrder String} {modulesDetails : List ModuleDetails}

theorem mem_namesakes {use : String × File} {jar : File} :
    use ∈ namesakes modulesDetails jar ↔
      use ∈ moduleJars modulesDetails ∧ use.2.getName = jar.getName := by
  simp [namesakes]

theorem mem_namesakes_self {name : String} {jar : File}
    (mem : (name, jar) ∈ moduleJars modulesDetails) :
    (name, jar) ∈ namesakes modulesDetails jar :=
  mem_namesakes.mpr ⟨mem, rfl⟩

theorem pathOf_alone {name : String} {jar : File}
    (alone : (namesakes modulesDetails jar).length < 2) :
    pathOf modulesDetails (name, jar) = (unique.resolve name).resolve jar.getName := by
  rw [pathOf, entryPath, entryDir, if_pos alone]

theorem pathOf_shared {name : String} {jar : File}
    (several : ¬ (namesakes modulesDetails jar).length < 2) :
    pathOf modulesDetails (name, jar) = shared.resolve jar.getName := by
  rw [pathOf, entryPath, entryDir, if_neg several]

/-- The members of a list with at most one of them are equal. -/
theorem eq_of_mem_of_length_lt_two {α : Type} {xs : List α} {x y : α} (short : xs.length < 2)
    (first : x ∈ xs) (second : y ∈ xs) : x = y := by
  match xs with
  | [] => cases first
  | [z] => rw [List.mem_singleton.mp first, List.mem_singleton.mp second]
  | _ :: _ :: _ =>
      simp only [List.length_cons] at short
      omega

/-- Whichever module lists the jar, its path is the same. -/
theorem pathOf_eq {name other : String} {jar : File}
    (mem : (name, jar) ∈ moduleJars modulesDetails)
    (mem' : (other, jar) ∈ moduleJars modulesDetails) :
    pathOf modulesDetails (name, jar) = pathOf modulesDetails (other, jar) := by
  by_cases alone : (namesakes modulesDetails jar).length < 2
  · have same : (name, jar) = (other, jar) :=
      eq_of_mem_of_length_lt_two alone (mem_namesakes_self mem) (mem_namesakes_self mem')
    rw [same]
  · rw [pathOf_shared alone, pathOf_shared alone]

/-- The map has one entry for every jar. -/
theorem lookup_jarEntries {name : String} {jar : File}
    (mem : (name, jar) ∈ moduleJars modulesDetails) :
    (jarEntries order modulesDetails).lookup jar =
      some (asUnixPath (pathOf modulesDetails (name, jar))) := by
  refine lookup_foldl_update ?_ ?_ []
  · refine List.mem_flatMap.mpr ⟨(jar.getName, namesakes modulesDetails jar), ?_, ?_⟩
    · exact mem_groupBy.mpr ⟨List.mem_map.mpr ⟨(name, jar), mem, rfl⟩, rfl⟩
    · exact List.mem_map.mpr ⟨(name, jar), mem_namesakes_self mem, rfl⟩
  · intro entry found
    obtain ⟨group, grouped, found⟩ := List.mem_flatMap.mp found
    obtain ⟨⟨other, jar'⟩, used, placed⟩ := List.mem_map.mp found
    obtain ⟨rfl, rfl⟩ := Prod.mk.inj placed
    obtain ⟨-, members⟩ := mem_groupBy.mp grouped
    rw [members, List.mem_filter] at used
    have base : jar'.getName = group.1 := by simpa using used.2
    have path : entryPath other group.2 group.1 = pathOf modulesDetails (other, jar') := by
      rw [members, ← base]
      rfl
    rw [path, pathOf_eq used.1 mem]

theorem mem_moduleJars {module : ModuleDetails} {jar : File} (mem : module ∈ modulesDetails)
    (lists : jar ∈ module.jars) : (module.name, jar) ∈ moduleJars modulesDetails :=
  List.mem_flatMap.mpr ⟨module, mem, List.mem_map.mpr ⟨jar, lists, rfl⟩⟩

/-- Every module gets an entry for each of its jars. -/
theorem mapModuleJarsToAssemblyEntries_eq (order : IterationOrder String)
    (modulesDetails : List ModuleDetails) :
    mapModuleJarsToAssemblyEntries order modulesDetails =
      some (modulesDetails.map fun module => (module.name,
        module.jars.map fun jar =>
          (jar, asUnixPath (pathOf modulesDetails (module.name, jar))))) := by
  refine Fallible.mapM_some fun module mem => ?_
  have jars : (module.jars.mapM fun srcJar =>
      ((jarEntries order modulesDetails).lookup srcJar).map (srcJar, ·)) =
      some (module.jars.map fun jar =>
        (jar, asUnixPath (pathOf modulesDetails (module.name, jar)))) := by
    refine Fallible.mapM_some fun jar lists => ?_
    rw [lookup_jarEntries (mem_moduleJars mem lists)]
    rfl
  rw [jars]
  rfl

/-! ## When the entries do not clash -/

/-- The modules with their jars and the entries of these. -/
def mappedJars (modulesDetails : List ModuleDetails) : List (String × List (File × String)) :=
  modulesDetails.map fun module => (module.name, module.jars.map fun jar =>
    (jar, asUnixPath (pathOf modulesDetails (module.name, jar))))

theorem mem_placements {name : String} {jar : File} {entry : String} :
    (name, jar, entry) ∈ placements (mappedJars modulesDetails) ↔
      (name, jar) ∈ moduleJars modulesDetails ∧
        asUnixPath (pathOf modulesDetails (name, jar)) = entry := by
  constructor
  · intro mem
    obtain ⟨_, mapped, mem⟩ := List.mem_flatMap.mp mem
    obtain ⟨module, listed, rfl⟩ := List.mem_map.mp mapped
    obtain ⟨_, placed, same⟩ := List.mem_map.mp mem
    obtain ⟨jar', lists, rfl⟩ := List.mem_map.mp placed
    cases same
    exact ⟨mem_moduleJars listed lists, rfl⟩
  · rintro ⟨mem, rfl⟩
    obtain ⟨module, listed, mem⟩ := List.mem_flatMap.mp mem
    obtain ⟨jar', lists, same⟩ := List.mem_map.mp mem
    cases same
    exact List.mem_flatMap.mpr ⟨_, List.mem_map_of_mem listed,
      List.mem_map.mpr ⟨_, List.mem_map_of_mem lists, rfl⟩⟩

theorem placement_mem {name : String} {jar : File}
    (mem : (name, jar) ∈ moduleJars modulesDetails) :
    (name, jar, asUnixPath (pathOf modulesDetails (name, jar))) ∈
      placements (mappedJars modulesDetails) :=
  mem_placements.mpr ⟨mem, rfl⟩

theorem components_shared : shared.components = ["shared"] := by
  decide

theorem components_unique : unique.components = ["unique"] := by
  decide

theorem components_pathOf_shared {name : String} {jar : File}
    (several : ¬ (namesakes modulesDetails jar).length < 2) :
    (pathOf modulesDetails (name, jar)).components = ["shared", jar.getName] := by
  rw [pathOf_shared several, File.getName, UnixPath.resolve_baseName shared jar.named,
    components_shared]
  rfl

theorem components_pathOf_alone {name : String} {jar : File}
    (alone : (namesakes modulesDetails jar).length < 2) :
    (pathOf modulesDetails (name, jar)).components =
      (unique.resolve name).components ++ [jar.getName] := by
  rw [pathOf_alone alone, File.getName, UnixPath.resolve_baseName _ jar.named]

/-- Every jar keeps its base name. -/
theorem getLast_components_pathOf (modulesDetails : List ModuleDetails) (use : String × File) :
    (pathOf modulesDetails use).components.getLast? = some use.2.getName := by
  obtain ⟨name, jar⟩ := use
  by_cases alone : (namesakes modulesDetails jar).length < 2
  · rw [components_pathOf_alone alone, List.getLast?_concat]
  · rw [components_pathOf_shared alone]
    rfl

theorem asUnixPath_injective {path other : UnixPath} (same : asUnixPath path = asUnixPath other)
    (some : path.components ≠ []) (some' : other.components ≠ []) :
    path.components = other.components :=
  UnixPath.unixText_injective same some some' path.plain other.plain

theorem components_pathOf_ne_nil (use : String × File) :
    (pathOf modulesDetails use).components ≠ [] := by
  intro empty
  have last := getLast_components_pathOf modulesDetails use
  rw [empty] at last
  cases last

/-- The components of a path below a directory. -/
theorem components_of_under {dir : List String} {use : String × File}
    (under : Under dir (asUnixPath (pathOf modulesDetails use))) :
    ∃ first rest, (pathOf modulesDetails use).components = dir ++ first :: rest := by
  obtain ⟨path, first, rest, components, same⟩ := under
  refine ⟨first, rest, ?_⟩
  rw [← components]
  exact asUnixPath_injective same (components_pathOf_ne_nil use) (by simp [components])

/-- Two uses of one base name are both put into the shared directory. -/
theorem several_of_ne {name other : String} {jar jar' : File}
    (used : (name, jar) ∈ moduleJars modulesDetails)
    (used' : (other, jar') ∈ moduleJars modulesDetails) (base : jar.getName = jar'.getName)
    (apart : (name, jar) ≠ (other, jar')) : ¬ (namesakes modulesDetails jar).length < 2 := by
  intro alone
  exact apart (eq_of_mem_of_length_lt_two alone (mem_namesakes_self used)
    (mem_namesakes.mpr ⟨used', base.symm⟩))

theorem count_namesakes (modulesDetails : List ModuleDetails) (name : String) (jar : File) :
    (namesakes modulesDetails jar).count (name, jar) =
      (moduleJars modulesDetails).count (name, jar) :=
  List.count_filter (by simp)

theorem distinguishable_of_separates
    (separates : Separates modulesDetails (mappedJars modulesDetails)) :
    Distinguishable modulesDetails := by
  have alone : ∀ name jar, OnlyUser modulesDetails name jar →
      (namesakes modulesDetails jar).length < 2 ∧ UnixPath.isAbsolute name = false := by
    intro name jar user
    obtain ⟨first, rest, components⟩ :=
      components_of_under (separates.inUnique _ _ _ (placement_mem user.1) user)
    have alone : (namesakes modulesDetails jar).length < 2 := by
      by_contra several
      rw [components_pathOf_shared several] at components
      simp at components
    refine ⟨alone, ?_⟩
    by_contra absolute
    rw [components_pathOf_alone alone,
      UnixPath.resolve_absolute (by simpa using absolute)] at components
    have length := congrArg List.length components
    simp [UnixPath.get] at length
  constructor
  · intro name other jar jar' used used' base
    by_contra apart
    have ne : (name, jar) ≠ (other, jar') := fun same => apart (congrArg Prod.snd same)
    have several := several_of_ne used used' base ne
    have several' := several_of_ne used' used base.symm ne.symm
    refine separates.different _ _ _ _ _ _ (placement_mem used) (placement_mem used') apart ?_
    rw [asUnixPath, components_pathOf_shared several, asUnixPath,
      components_pathOf_shared several', base]
  · intro name jar user
    have kept := count_namesakes modulesDetails name jar
    have listed : 0 < (moduleJars modulesDetails).count (name, jar) :=
      List.count_pos_iff.mpr user.1
    have few := (alone name jar user).1
    have bound : (namesakes modulesDetails jar).count (name, jar) ≤ _ := List.count_le_length
    omega
  · exact fun name jar user => (alone name jar user).2

/-- A jar of one module has no namesakes. -/
theorem namesakes_alone (distinguishable : Distinguishable modulesDetails) {name : String}
    {jar : File} (user : OnlyUser modulesDetails name jar) :
    (namesakes modulesDetails jar).length < 2 := by
  have all : ∀ use ∈ namesakes modulesDetails jar, (name, jar) = use := by
    rintro ⟨other, jar'⟩ mem
    obtain ⟨used, base⟩ := mem_namesakes.mp mem
    obtain rfl : jar' = jar := distinguishable.names _ _ _ _ used user.1 base
    rw [user.2 other used]
  rw [← List.count_eq_length.mpr all, count_namesakes, distinguishable.once name jar user]
  decide

/-- Jars with different base names have different entries. -/
theorem getName_eq_of_entry_eq {name other : String} {jar jar' : File}
    (same : asUnixPath (pathOf modulesDetails (name, jar)) =
      asUnixPath (pathOf modulesDetails (other, jar'))) : jar.getName = jar'.getName := by
  have components := asUnixPath_injective same (components_pathOf_ne_nil _)
    (components_pathOf_ne_nil _)
  have last := getLast_components_pathOf modulesDetails (name, jar)
  rw [components, getLast_components_pathOf] at last
  exact (Option.some.inj last).symm

theorem separates_of_distinguishable (distinguishable : Distinguishable modulesDetails) :
    Separates modulesDetails (mappedJars modulesDetails) := by
  constructor
  · simp [mappedJars, Function.comp_def]
  · intro name other jar entry entry' mem mem'
    obtain ⟨used, rfl⟩ := mem_placements.mp mem
    obtain ⟨used', rfl⟩ := mem_placements.mp mem'
    rw [pathOf_eq used used']
  · intro name other jar jar' entry entry' mem mem' apart same
    obtain ⟨used, rfl⟩ := mem_placements.mp mem
    obtain ⟨used', rfl⟩ := mem_placements.mp mem'
    exact apart (distinguishable.names _ _ _ _ used used' (getName_eq_of_entry_eq same))
  · intro name jar entry mem user
    obtain ⟨-, rfl⟩ := mem_placements.mp mem
    refine ⟨_, jar.getName, [], ?_, rfl⟩
    rw [components_pathOf_alone (namesakes_alone distinguishable user),
      (UnixPath.resolve_relative (distinguishable.relative name jar user) unique).2,
      components_unique]
    rfl
  · rintro name jar entry mem ⟨user, other, apart, used, used'⟩
    obtain ⟨-, rfl⟩ := mem_placements.mp mem
    have ne : (user, jar) ≠ (other, jar) := fun same => apart (congrArg Prod.fst same)
    exact ⟨_, jar.getName, [], components_pathOf_shared (several_of_ne used used' rfl ne), rfl⟩

/-- The entries keep the dependencies apart if and only if no two jars have one base name and each
module lists a jar that is its own once. -/
theorem mapModuleJarsToAssemblyEntries_separates_iff (order : IterationOrder String)
    (modulesDetails : List ModuleDetails) :
    (∃ mapped, mapModuleJarsToAssemblyEntries order modulesDetails = some mapped ∧
      Separates modulesDetails mapped) ↔ Distinguishable modulesDetails := by
  rw [mapModuleJarsToAssemblyEntries_eq]
  constructor
  · rintro ⟨mapped, result, separates⟩
    obtain rfl := Option.some.inj result
    exact distinguishable_of_separates separates
  · intro distinguishable
    exact ⟨_, rfl, separates_of_distinguishable distinguishable⟩

/-- Two versions of one library. -/
def sparkLibrary : File := ⟨"/spark/1.0/lib.jar", by decide⟩
def neo4jLibrary : File := ⟨"/neo4j/2.0/lib.jar", by decide⟩

/-- Both versions get one entry. -/
theorem versions_clash : ¬ ∃ mapped,
    mapModuleJarsToAssemblyEntries (.insertion String)
      [⟨"apache-spark", [sparkLibrary], "2.13"⟩, ⟨"neo4j", [neo4jLibrary], "2.13"⟩] = some mapped ∧
    Separates [⟨"apache-spark", [sparkLibrary], "2.13"⟩, ⟨"neo4j", [neo4jLibrary], "2.13"⟩]
      mapped := by
  rintro ⟨mapped, result, separates⟩
  rw [mapModuleJarsToAssemblyEntries_eq] at result
  obtain rfl := Option.some.inj result
  have same := (distinguishable_of_separates separates).names "apache-spark" "neo4j"
    sparkLibrary neo4jLibrary (by simp [moduleJars]) (by simp [moduleJars]) (by decide)
  exact absurd same (by decide)

end Renaissance.Build
