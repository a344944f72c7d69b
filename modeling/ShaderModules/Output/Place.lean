import ShaderModules.Path

/-!
# Where modules are written

* `modulePath`: next to the source, or at the same place below the output directory.
* `mapPath`: the source map stands next to the module.
-/

namespace ShaderModules

/-- The path of the module for `input`, which was found at `relative` below an input. -/
def modulePath (input relative : String) (outDir : Option String) (extension : String) : String :=
  (match outDir with
    | some dir => Path.join dir relative
    | none => input) ++ extension

/-- The path of the source map of a module. -/
def mapPath (module : String) : String := module ++ ".map"

end ShaderModules
