import ShaderModules.Command
import ShaderModules.Preprocessor.Options
import ShaderModules.Text.Blank

/-!
# An external preprocessor

The program runs in the base directory, reads the source text and writes the preprocessed text.
It is told about the file through placeholders.

* `ExternalPreprocessor.placeholders`: the names that its arguments may use.
* `ExternalPreprocessor.resolve`: the preprocessed text.
-/

namespace ShaderModules.ExternalPreprocessor

/-- The names that arguments may use: further options by their names, and the four names of the
options that every file has. -/
def placeholders (o : ResolveOptions) : Keyed String :=
  Keyed.insertAll o.extra
    [("basedir", o.basedir), ("file", o.file), ("include", ",".intercalate o.included),
     ("exclude", ",".intercalate o.excluded)]

/-- The text of a run that ended well. -/
def accept (program : String) (o : CommandOutput) : Except ToolError String :=
  if o.status.isSuccess then .ok o.stdout
  else .error (.failed program o.status (Text.trim o.stderr))

/-- The preprocessed text. -/
def resolve (launch : Launcher) (tree : FileTree) (c : ExternalCommand) (source : String)
    (o : ResolveOptions) : Logged (Except ToolError String) := do
  match ← c.run launch tree source [] (placeholders o) (some o.basedir) with
  | .error e => return .error e
  | .ok output => return accept c.program output

end ShaderModules.ExternalPreprocessor
