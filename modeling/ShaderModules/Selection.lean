import ShaderModules.Format
import ShaderModules.Glob.Matching
import ShaderModules.Path
import ShaderModules.Problem
import ShaderModules.Text.Search

/-!
# Selecting files

A file is selected when its path matches an include pattern and no exclude pattern; without
include patterns every file that is not excluded is selected. Patterns that start with `*` or are
absolute are used as written. Every other pattern, and every relative path, is taken relative to
the selector's root.

* `Selector.normalize`: an absolute path without `.` and `..`.
* `Selector.anchor`: a pattern as it is matched against such paths.
* `Selector.build`, `Selector.selects`: the selector of some patterns and its decision.
-/

namespace ShaderModules

/-- Patterns in order. -/
abbrev Patterns := List String

/-- The extensions of shader files. -/
def Patterns.shaderFiles : Patterns :=
  ["**/*.vs", "**/*.fs", "**/*.vert", "**/*.frag", "**/*.glsl", "**/*.glslx"]

/-- A pattern that cannot be used: as written, as anchored, and why. -/
structure SelectorError where
  pattern : String
  anchored : String
  reason : Glob.Fault
  deriving DecidableEq, Repr

instance : Problem SelectorError where
  message e := "Invalid glob pattern '" ++ e.pattern ++ "'"
  causes e := ["error parsing glob '" ++ e.anchored ++ "': " ++ e.reason.message]

/-- A filter of paths. Without include patterns, `included` is absent. -/
structure Selector where
  root : String
  included : Option (List Glob.Compiled)
  excluded : List Glob.Compiled

namespace Selector

/-- The names that remain of path components: `..` removes the name in front of it, if any. -/
def foldNames (names : List (List Char)) : List Path.Component → List (List Char)
  | [] => names.reverse
  | .name n :: rest => foldNames (n :: names) rest
  | .up :: rest => foldNames names.tail rest
  | _ :: rest => foldNames names rest

/-- The path relative to `root`, without `.` and `..` segments. -/
def normalize (root path : String) : String :=
  let joined := if Path.isAbsolute path then path else Path.join root path
  let body := ['/'].intercalate (foldNames [] (Path.components joined))
  String.ofList (if Path.isAbsolute joined then '/' :: body else body)

/-- A pattern as it is matched against normalized paths. -/
def anchor (root pattern : String) : String :=
  if pattern.toList.head? = some '*' || Path.isAbsolute pattern then
    String.ofList (pattern.toList.map fun c => if c = '\\' then '/' else c)
  else normalize root pattern

/-- A pattern, compiled. -/
def compilePattern (root pattern : String) : Except SelectorError Glob.Compiled :=
  (Glob.compile (anchor root pattern)).mapError fun reason =>
    ⟨pattern, anchor root pattern, reason⟩

/-- The selector of include and exclude patterns. The first pattern that cannot be used is
reported, include patterns first. Patterns that can be used one by one are taken to make a set:
there is no error for the set as a whole. -/
def build (root : String) (included excluded : Patterns) : Except SelectorError Selector := do
  let inc ← included.mapM (compilePattern root)
  let exc ← excluded.mapM (compilePattern root)
  return { root, included := if included.isEmpty then none else some inc, excluded := exc }

/-- Whether a path is selected. -/
def selects (s : Selector) (path : String) : Bool :=
  let candidate := normalize s.root path
  (match s.included with
    | none => true
    | some globs => globs.any (·.matches candidate))
  && !s.excluded.any (·.matches candidate)

end Selector

end ShaderModules
