import ShaderModules.Event
import ShaderModules.Failure
import ShaderModules.Host.FileTree

/-!
# Collecting the files to transform

Inputs are files and directories. A directory stands for all files below it; the entries of every
directory are taken in the order of their names. Of the files, the selected ones are transformed,
each once.

* `FileTree.listing`: the files below a directory, or a file by itself.
* `Collection.listingOf`: the files that an input stands for.
* `Collection.collect`: the candidates, and the number of files passed over.
-/

namespace ShaderModules

namespace FileTree

/-- The path of an entry of the directory at a path. -/
def entryPath (p n : String) : String :=
  if p = "" || p.toList.getLast? = some '/' then p ++ n else p ++ "/" ++ n

theorem size_lt_entryPath (p : String) {n : String} (h : n ≠ "") :
    p.utf8ByteSize < (entryPath p n).utf8ByteSize := by
  have hn : 0 < n.utf8ByteSize := by
    rcases Nat.eq_zero_or_pos n.utf8ByteSize with h0 | h0
    · exact absurd (String.utf8ByteSize_eq_zero_iff.1 h0) h
    · exact h0
  unfold entryPath
  split
  · rw [String.utf8ByteSize_append]; omega
  · rw [String.utf8ByteSize_append, String.utf8ByteSize_append]; omega

/-- The names of the entries of a directory, in order. -/
def sortedNames (t : FileTree) (dir : List String) : List Name :=
  (t.namesBelow dir).mergeSort fun a b => decide (a.1 ≤ b.1)

/-- The files at and below a path. What is not a directory counts as a file. A path that is too
long leads to no directory, so links cannot make the list endless. -/
def listing (t : FileTree) (p : String) : List String :=
  match _h : t.directory? p with
  | none => [p]
  | some dir => (t.sortedNames dir).flatMap fun n => listing t (entryPath p n.1)
termination_by maxPath - p.utf8ByteSize
decreasing_by
  have hp : p.utf8ByteSize < maxPath :=
    size_lt_of_isDirectory (t := t) (by unfold isDirectory; rw [_h]; rfl)
  have hn := size_lt_entryPath p n.2
  omega

end FileTree

/-- A file to be transformed. -/
structure Candidate where
  path : String
  /-- The path below the input directory, or the bare name of an input file. -/
  relative : String
  deriving DecidableEq, Repr

namespace Collection

/-- An input as an absolute path. -/
def absolute (t : FileTree) (input : String) : String :=
  if Path.isAbsolute input then input else Path.join (FileTree.pathOf t.workDir) input

/-- The files that an absolute input stands for. -/
def listingOf (t : FileTree) (input : String) : Except ApplicationError (List Candidate) :=
  if t.isDirectory input then
    .ok ((t.listing input).map fun p => ⟨p, (Path.below? input p).getD p⟩)
  else if t.isFile input then .ok [⟨input, (Path.fileName? input).getD ""⟩]
  else .error (.configuration ("Input not found: " ++ input))

/-- What inputs stand for. -/
structure Collected where
  candidates : List Candidate
  /-- The number of files that are not selected. -/
  skipped : Nat
  deriving DecidableEq, Repr

/-- What is gathered so far: candidates, the paths of all of them by their components, and the
number of files passed over. -/
structure Gathered where
  candidates : List Candidate := []
  seen : List (List Path.Component) := []
  skipped : Nat := 0
  deriving DecidableEq, Repr

/-- Takes a file. It is passed over if it is not selected, and becomes a candidate if its path has
not been seen. -/
def Gathered.take (s : Selector) (g : Gathered) (f : Candidate) : Gathered :=
  if s.selects f.path then
    let key := Path.components f.path
    if key ∈ g.seen then g
    else { g with candidates := g.candidates ++ [f], seen := key :: g.seen }
  else { g with skipped := g.skipped + 1 }

/-- The event about an input file that is not selected. -/
def skipEvent (input : String) : Event :=
  ⟨.info, "shader_forge_app::runner", input ++ " does not match the include patterns, skipping"⟩

/-- Takes the files of one input after the other, up to the first input that is missing. -/
def gather (t : FileTree) (s : Selector) (g : Gathered) :
    List String → Logged (Except ApplicationError Gathered)
  | [] => return .ok g
  | i :: rest => do
    let input := absolute t i
    match listingOf t input with
    | .error e => return .error e
    | .ok files =>
      if !t.isDirectory input && !s.selects input then Logged.report (skipEvent input)
      gather t s (files.foldl (Gathered.take s) g) rest

/-- The files to transform for the inputs. -/
def collect (t : FileTree) (s : Selector) (inputs : List String) :
    Logged (Except ApplicationError Collected) := do
  return (← gather t s {} inputs).map fun g => ⟨g.candidates, g.skipped⟩

end Collection

end ShaderModules
