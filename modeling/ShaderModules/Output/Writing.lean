import ShaderModules.Host.FileTree
import ShaderModules.Module
import ShaderModules.Output.Place
import ShaderModules.Problem
import ShaderModules.Text.Shown

/-!
# Writing modules

The directories that lead to a module are created first, then the module is written, and then the
source map, if one is wanted.

* `WriteError`: which of the steps fails.
* `Generated.write`: the tree with a module.
-/

namespace ShaderModules

/-- Why a module is not written. -/
inductive WriteError where
  | directory (path : String) (cause : OsError)
  | module (path : String) (cause : OsError)
  | sourceMap (path : String) (cause : OsError)
  deriving DecidableEq, Repr

/-- The text of a write error. -/
def WriteError.message : WriteError → String
  | .directory path _ => "Failed to create output directory: " ++ Text.shownPath path
  | .module path _ => "Failed to write module: " ++ Text.shownPath path
  | .sourceMap path _ => "Failed to write source map: " ++ Text.shownPath path

/-- The cause of a write error. -/
def WriteError.cause : WriteError → OsError
  | .directory _ cause => cause
  | .module _ cause => cause
  | .sourceMap _ cause => cause

instance : Problem WriteError where
  message := WriteError.message
  causes e := [e.cause.message]

/-- The tree after making the directories that lead to a path, and how that ended. -/
def FileTree.prepare (t : FileTree) (path : String) : FileTree × Except WriteError Unit :=
  match Path.parent? path with
  | none => (t, .ok ())
  | some parent =>
    if parent = "" then (t, .ok ())
    else
      let (t, made) := t.createDirectories parent
      (t, made.mapError (.directory parent))

/-- The tree after writing a module, and how the writing ended. What was made and written before a
step that fails stays. -/
def Generated.write (g : Generated) (t : FileTree) (path : String) (withMap : Bool) :
    FileTree × Except WriteError (Option String) :=
  match t.prepare path with
  | (t, .error e) => (t, .error e)
  | (t, .ok ()) =>
    match t.write path g.code.toUTF8 with
    | .error e => (t, .error (.module path e))
    | .ok t =>
      if withMap then
        let target := mapPath path
        match t.write target g.map.render.toUTF8 with
        | .error e => (t, .error (.sourceMap target e))
        | .ok t => (t, .ok (some target))
      else (t, .ok none)

end ShaderModules
