import ShaderModules.CommandLine
import ShaderModules.Config.Variable
import ShaderModules.Failure
import ShaderModules.Toml.Document

/-!
# Loading the configuration

The layers are, from the lowest to the highest: the defaults, the configuration file, environment
variables, and options of the command line. A file that is named on the command line has to
exist; without one, `shader-forge.toml` is used if there is one in the working directory or in a
directory above it.

* `Config.fileLayer`: the layer of a file.
* `Config.load`: the configuration of all layers.
-/

namespace ShaderModules

/-- The name of the configuration file. -/
def configFileName : String := "shader-forge.toml"

/-- The key that stands for a date or time in settings. -/
def momentKey : String := "$__toml_private_datetime"

mutual

/-- A TOML value as a setting. -/
def Toml.Value.toSetting (o : Layer) : Toml.Value → Setting
  | .text s => .scalar o (.text s)
  | .integer n => .scalar o (.integer n)
  | .float x => .scalar o (.float x)
  | .flag b => .scalar o (.flag b)
  | .moment m => .table o [(momentKey, .scalar o (.text m.text))]
  | .list items => .list o (Toml.itemSettings o items)
  | .table entries => .table o (Keyed.ofList (Toml.entrySettings o entries))

/-- TOML values as settings. -/
def Toml.itemSettings (o : Layer) : List Toml.Value → List Setting
  | [] => []
  | v :: rest => v.toSetting o :: Toml.itemSettings o rest

/-- The entries of a TOML table as settings. -/
def Toml.entrySettings (o : Layer) : List (String × Toml.Value) → List (String × Setting)
  | [] => []
  | (k, v) :: rest => (k, v.toSetting o) :: Toml.entrySettings o rest

end

namespace Config

/-- The directories from the working directory up to the root. -/
def lineageOf (workDir : List String) : List (List String) :=
  (List.range (workDir.length + 1)).map fun n => workDir.take (workDir.length - n)

/-- The file at a path. A relative path is also tried in the directories above. -/
def findFile? (tree : FileTree) (path : String) : Option String :=
  let candidates :=
    if Path.isAbsolute path then [path]
    else (lineageOf tree.workDir).map fun dir => Path.join (FileTree.pathOf dir) path
  candidates.find? tree.isFile

/-- The path as messages show it: from the working directory, if that is shorter. -/
def shownPath (tree : FileTree) (path : String) : String :=
  match Path.from? (FileTree.pathOf tree.workDir) path with
  | some p =>
    if (Path.components p).length < (Path.components path).length then p else path
  | none => path

/-- The error about a file that cannot be read. -/
def unreadable (o : Layer) (text : String) : SettingError :=
  { mismatch := .unreadable text, origin := some o }

/-- The layer of the file at a path. -/
def fileLayer (tree : FileTree) (path : String) : Except SettingError Setting :=
  let o := Layer.file (shownPath tree path)
  match tree.readText path with
  | .error e => .error (unreadable o (e.message ++ "\n"))
  | .ok text =>
    match Toml.parse? text with
    | none => .error (unreadable o "TOML parse error\n")
    | some entries => .ok (Toml.Value.toSetting o (.table entries))

/-- The settings of all layers. -/
def settings (tree : FileTree) (environment : List (String × String)) (a : Arguments) :
    Except ApplicationError Setting := do
  if let some path := a.config then
    if !tree.isFile path then
      throw (.configuration ("Configuration file not found: " ++ path))
  let file ← match findFile? tree (a.config.getD configFileName) with
    | none => .ok (.table .defaults [])
    | some path => (fileLayer tree path).mapError .settings
  return (((({} : Config).toSetting .defaults).merge file).merge (Variable.layer environment)).merge
    a.layer

/-- The configuration of all layers. -/
def load (tree : FileTree) (environment : List (String × String)) (a : Arguments) :
    Except ApplicationError Config := do
  (schema.run (← settings tree environment a)).mapError .settings

end Config

end ShaderModules
