import Mathlib.Logic.Function.Basic
import Renaissance.Lib.UnixPath

/-!
# Files and directories

A file system maps locations to the contents of files. Two paths are the same file when they lead to
one location. An operation returns the message of an `IOException` or a value, and the file system it
leaves behind. Which operations fail, and where, is a parameter of each.

* `copy_kept`, `createDirectories_content`: no operation changes or removes a file.
* `copy_location`: where a copy leaves something, and what.
-/

abbrev Bytes := List UInt8

/-- The names on the way from the root. -/
abbrev Location := List String

namespace UnixPath

/-- Follow one component of a path. -/
def visit (location : Location) (component : String) : Location :=
  if component = "." then location
  else if component = ".." then location.dropLast
  else location ++ [component]

def location (workingDirectory : Location) (path : UnixPath) : Location :=
  path.components.foldl visit (if path.absolute then [] else workingDirectory)

/-- The directories that a path passes, and its own location. -/
def ways (workingDirectory : Location) (path : UnixPath) : List Location :=
  path.components.inits.map
    (List.foldl visit (if path.absolute then [] else workingDirectory))

def toString (path : UnixPath) : String :=
  (if path.absolute then "/" else "") ++ unixText path.components

end UnixPath

structure FileSystem where
  content : Location → Option Bytes
  directories : List Location

namespace FileSystem

def present (fs : FileSystem) (location : Location) : Bool :=
  (fs.content location).isSome || location ∈ fs.directories

/-- What becomes of a copy: it completes, or it fails with a message before the target was created or
after the given number of bytes was written. -/
inductive CopyOutcome where
  | completes
  | fails (written : Option Nat) (message : String)
deriving DecidableEq

/-- A failure leaves no file, or all of the content. -/
def CopyOutcome.Clean (outcome : CopyOutcome) (content : Bytes) : Prop :=
  ∀ written message, outcome = .fails (some written) message → content.length ≤ written

def write (fs : FileSystem) (location : Location) (content : Bytes) : FileSystem :=
  { fs with content := Function.update fs.content location (some content) }

/-- `Files.copy`, which does not overwrite a file. -/
def copy (outcome : CopyOutcome) (content : Bytes) (location : Location) (fs : FileSystem) :
    Except String Unit × FileSystem :=
  if fs.present location then (.error "file already exists", fs)
  else match outcome with
    | .completes => (.ok (), fs.write location content)
    | .fails none message => (.error message, fs)
    | .fails (some written) message => (.error message, fs.write location (content.take written))

/-- Create the directories that do not exist, one after the other. `refuses` has the message for a
directory that cannot be created. -/
def createDirectories (refuses : Location → Option String) :
    List Location → FileSystem → Except String Unit × FileSystem
  | [], fs => (.ok (), fs)
  | location :: locations, fs =>
      if (fs.content location).isSome then (.error "file already exists", fs)
      else if location ∈ fs.directories then createDirectories refuses locations fs
      else match refuses location with
        | some message => (.error message, fs)
        | none =>
            createDirectories refuses locations
              { fs with directories := location :: fs.directories }

variable {fs : FileSystem} {location other : Location} {content old : Bytes}

theorem absent {fs : FileSystem} {location : Location} :
    fs.present location = false ↔ fs.content location = none ∧ location ∉ fs.directories := by
  rw [present, Bool.or_eq_false_iff, Option.isSome_eq_false_iff, Option.isNone_iff_eq_none,
    decide_eq_false_iff_not]

theorem write_self (fs : FileSystem) (location : Location) (content : Bytes) :
    (fs.write location content).content location = some content := by
  simp [write]

theorem write_other (apart : other ≠ location) :
    (fs.write location content).content other = fs.content other := by
  simp [write, apart]

@[simp] theorem write_directories :
    (fs.write location content).directories = fs.directories := rfl

/-- The files that a copy leaves behind. -/
theorem copy_cases (outcome : CopyOutcome) (content : Bytes) (location : Location)
    (fs : FileSystem) :
    (copy outcome content location fs).2 = fs ∨ fs.present location = false ∧
      ∃ part, (copy outcome content location fs).2 = fs.write location part ∧
        (outcome.Clean content → part = content) := by
  unfold copy
  split
  · exact .inl rfl
  · next free =>
    have free : fs.present location = false := by simpa using free
    match outcome with
    | .completes => exact .inr ⟨free, content, rfl, fun _ => rfl⟩
    | .fails none message => exact .inl rfl
    | .fails (some written) message =>
        exact .inr ⟨free, content.take written, rfl,
          fun clean => List.take_of_length_le (clean written message rfl)⟩

theorem copy_ok {outcome : CopyOutcome}
    (copied : (copy outcome content location fs).1 = .ok ()) :
    (copy outcome content location fs).2 = fs.write location content := by
  unfold copy at copied ⊢
  split at copied
  · cases copied
  · next free =>
    rw [if_neg free]
    match outcome with
    | .completes => rfl
    | .fails none message => cases copied
    | .fails (some written) message => cases copied

theorem copy_kept {outcome : CopyOutcome} (file : fs.content other = some old) :
    (copy outcome content location fs).2.content other = some old := by
  rcases copy_cases outcome content location fs with same | ⟨free, part, written, -⟩
  · rw [same, file]
  · have apart : other ≠ location := by
      rintro rfl
      rw [(absent.mp free).1] at file
      cases file
    rw [written, write_other apart, file]

theorem copy_directories {outcome : CopyOutcome} :
    (copy outcome content location fs).2.directories = fs.directories := by
  rcases copy_cases outcome content location fs with same | ⟨-, part, written, -⟩
  · rw [same]
  · rw [written, write_directories]

/-- A file that is there after a copy was there before, or it is the target. -/
theorem copy_location {outcome : CopyOutcome} (clean : outcome.Clean content)
    (file : (copy outcome content location fs).2.content other = some old) :
    fs.content other = some old ∨ other = location ∧ old = content := by
  rcases copy_cases outcome content location fs with same | ⟨-, part, written, whole⟩
  · rw [same] at file
    exact .inl file
  · rw [written, whole clean] at file
    by_cases target : other = location
    · subst target
      rw [write_self] at file
      exact .inr ⟨rfl, (Option.some.inj file).symm⟩
    · rw [write_other target] at file
      exact .inl file

theorem createDirectories_content (refuses : Location → Option String) (locations : List Location)
    (fs : FileSystem) : (createDirectories refuses locations fs).2.content = fs.content := by
  induction locations generalizing fs with
  | nil => rfl
  | cons location locations ih =>
      unfold createDirectories
      split
      · rfl
      · split
        · exact ih fs
        · cases refuses location with
          | some message => rfl
          | none => exact ih _

theorem createDirectories_directories {refuses : Location → Option String}
    {locations : List Location} {fs : FileSystem}
    (mem : location ∈ (createDirectories refuses locations fs).2.directories) :
    location ∈ fs.directories ∨ location ∈ locations := by
  induction locations generalizing fs with
  | nil => exact .inl mem
  | cons first locations ih =>
      unfold createDirectories at mem
      split at mem
      · exact .inl mem
      · split at mem
        · exact (ih mem).imp_right (List.mem_cons_of_mem _)
        · cases permission : refuses first with
          | some message =>
              rw [permission] at mem
              exact .inl mem
          | none =>
              rw [permission] at mem
              rcases ih mem with old | later
              · rcases List.mem_cons.mp old with rfl | old
                · exact .inr List.mem_cons_self
                · exact .inl old
              · exact .inr (List.mem_cons_of_mem _ later)

end FileSystem
