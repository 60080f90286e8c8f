import Mathlib.Data.List.TakeWhile
import Mathlib.Data.String.Basic

/-!
# Unix paths

A path is its components and whether it starts at the root. The text of a path determines its
components, and repeated separators count once.

* `UnixPath.resolve`: an absolute path replaces the directory, any other one continues it.
* `unixText_injective`: the text of the components determines them.
* `baseName`: the part of a text after its last separator.
-/

structure UnixPath where
  absolute : Bool
  components : List String
  plain : ∀ component ∈ components, '/' ∉ component.toList
deriving DecidableEq

namespace UnixPath

theorem notMem_of_mem_splitOn {c : Char} {text part : List Char} (mem : part ∈ text.splitOn c) :
    c ∉ part := by
  induction text generalizing part with
  | nil =>
      rw [List.splitOn_nil, List.mem_singleton] at mem
      simp [mem]
  | cons first text ih =>
      rw [List.splitOn_cons_eq_if_modifyHead] at mem
      split at mem
      · rcases List.mem_cons.mp mem with rfl | mem
        · simp
        · exact ih mem
      · next other =>
        obtain ⟨head, tail, parts⟩ := List.exists_cons_of_ne_nil (List.splitOn_ne_nil c text)
        rw [parts] at mem ih
        rcases List.mem_cons.mp mem with rfl | mem
        · have rest : c ∉ head := ih (by simp)
          have apart : c ≠ first := fun same => other (by simp [same])
          simp [rest, apart]
        · exact ih (List.mem_cons_of_mem _ mem)

/-- The components named in a text. -/
def componentsOf (text : String) : List String :=
  ((text.toList.splitOn '/').filter (· ≠ [])).map String.ofList

theorem componentsOf_plain {text component : String} (mem : component ∈ componentsOf text) :
    '/' ∉ component.toList := by
  obtain ⟨part, found, rfl⟩ := List.mem_map.mp mem
  rw [String.toList_ofList]
  exact notMem_of_mem_splitOn (List.mem_filter.mp found).1

def isAbsolute (text : String) : Bool :=
  text.toList.head? = some '/'

/-- `Paths.get(text)`. -/
def get (text : String) : UnixPath where
  absolute := isAbsolute text
  components := componentsOf text
  plain _ mem := componentsOf_plain mem

/-- `dir.resolve(text)`. -/
def resolve (dir : UnixPath) (text : String) : UnixPath :=
  if isAbsolute text then get text
  else
    { dir with
      components := dir.components ++ componentsOf text
      plain := by
        intro component mem
        rcases List.mem_append.mp mem with old | new
        · exact dir.plain component old
        · exact componentsOf_plain new }

theorem resolve_relative {text : String} (relative : isAbsolute text = false) (dir : UnixPath) :
    (dir.resolve text).absolute = dir.absolute ∧
      (dir.resolve text).components = dir.components ++ componentsOf text := by
  simp [resolve, relative]

theorem resolve_absolute {text : String} (absolute : isAbsolute text = true) (dir : UnixPath) :
    dir.resolve text = get text := by
  simp [resolve, absolute]

/-- The components with separators between them. -/
def unixText (components : List String) : String :=
  "/".intercalate components

theorem unixText_splitOn {components : List String} (some : components ≠ [])
    (plain : ∀ component ∈ components, '/' ∉ component.toList) :
    ((unixText components).toList.splitOn '/').map String.ofList = components := by
  have text : (unixText components).toList = ['/'].intercalate (components.map String.toList) := by
    simp [unixText, String.toList_intercalate]
  rw [text, List.splitOn_intercalate]
  · simp [Function.comp_def]
  · intro part mem
    obtain ⟨component, found, rfl⟩ := List.mem_map.mp mem
    exact plain component found
  · simpa using some

theorem unixText_injective {first second : List String}
    (same : unixText first = unixText second) (some : first ≠ []) (some' : second ≠ [])
    (plain : ∀ component ∈ first, '/' ∉ component.toList)
    (plain' : ∀ component ∈ second, '/' ∉ component.toList) : first = second := by
  rw [← unixText_splitOn some plain, same, unixText_splitOn some' plain']

/-- The text after the last separator, or all of it. -/
def baseName (text : String) : String :=
  String.ofList (text.toList.reverse.takeWhile (· ≠ '/')).reverse

theorem baseName_plain (text : String) : '/' ∉ (baseName text).toList := by
  intro mem
  rw [baseName, String.toList_ofList, List.mem_reverse] at mem
  simpa using List.mem_takeWhile_imp mem

/-- A text without separators is one component. -/
theorem componentsOf_of_plain {text : String} (plain : '/' ∉ text.toList) (some : text ≠ "") :
    componentsOf text = [text] := by
  have nonempty : text.toList ≠ [] := by simpa using some
  rw [componentsOf, List.splitOn_eq_singleton plain]
  simp [nonempty]

theorem isAbsolute_of_plain {text : String} (plain : '/' ∉ text.toList) :
    isAbsolute text = false := by
  rw [isAbsolute, decide_eq_false_iff_not]
  exact fun first => plain (List.mem_of_mem_head? first)

/-- A base name that is not empty becomes the last component. -/
theorem resolve_baseName (dir : UnixPath) {text : String} (some : baseName text ≠ "") :
    (dir.resolve (baseName text)).components = dir.components ++ [baseName text] := by
  have plain := baseName_plain text
  rw [(resolve_relative (isAbsolute_of_plain plain) dir).2, componentsOf_of_plain plain some]

end UnixPath
