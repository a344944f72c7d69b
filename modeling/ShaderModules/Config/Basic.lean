import ShaderModules.Command
import ShaderModules.Compiler.Options
import ShaderModules.Config.Reading
import ShaderModules.Preprocessor.Options
import ShaderModules.Synthesis

/-!
# Configuration

* `Config`: everything that can be configured, with its defaults.
* `Config.schema`: how a configuration is read from settings.
* `Config.toSetting`: a configuration as a layer of settings.
-/

namespace ShaderModules

/-- The names of the levels with the levels. -/
def Level.options : List (String × Level) := Level.all.map fun l => (l.name, l)

/-- What is configured for a run. -/
structure Config where
  /-- The directory that patterns are relative to; the working directory without one. -/
  root : Option String := none
  included : Patterns := Patterns.shaderFiles
  excluded : Patterns := []
  /-- The directory that references are relative to; each file's own without one. -/
  basedir : Option String := none
  /-- Further options for the preprocessor. -/
  resolverOptions : Keyed String := []
  /-- The external preprocessor; includes are inlined without one. -/
  preprocessor : Option ExternalCommand := none
  compiler : ExternalCommand := { program := "glslx" }
  compile : CompileOptions := {}
  naming : Naming := {}
  outDir : Option String := none
  /-- What is appended to the name of an input to name its module. -/
  extension : String := ".js"
  emitSourceMap : Bool := false
  jobs : Option Nat := none
  logLevel : Level := .info
  deriving DecidableEq, Repr

namespace Config

/-- How a configuration is read. -/
def schema : Reading Config :=
  Reading.record "ForgeConfig" {}
    [⟨"root", .defaulted, (fun v s => { s with root := v }) <$> Format.option Format.path⟩,
     ⟨"include", .defaulted, (fun v s => { s with included := v }) <$> Format.oneOrMany⟩,
     ⟨"exclude", .defaulted, (fun v s => { s with excluded := v }) <$> Format.oneOrMany⟩,
     ⟨"basedir", .defaulted, (fun v s => { s with basedir := v }) <$> Format.option Format.path⟩,
     ⟨"resolver_options", .defaulted, (fun v s => { s with resolverOptions := v }) <$>
       Format.table⟩,
     ⟨"preprocessor", .defaulted, (fun v s => { s with preprocessor := v }) <$>
       Format.option ExternalCommand.format⟩,
     ⟨"compiler", .defaulted, (fun v s => { s with compiler := v }) <$> ExternalCommand.format⟩,
     ⟨"compile", .defaulted, (fun v s => { s with compile := v }) <$> CompileOptions.schema⟩,
     ⟨"synthesis", .defaulted, (fun v s => { s with naming := v }) <$> Naming.format⟩,
     ⟨"out_dir", .defaulted, (fun v s => { s with outDir := v }) <$> Format.option Format.path⟩,
     ⟨"extension", .defaulted, (fun v s => { s with extension := v }) <$> Format.text⟩,
     ⟨"emit_source_map", .defaulted, (fun v s => { s with emitSourceMap := v }) <$> Format.flag⟩,
     ⟨"jobs", .defaulted, (fun v s => { s with jobs := v }) <$> Reading.option Reading.natural⟩,
     ⟨"log_level", .defaulted, (fun v s => { s with logLevel := v }) <$>
       Format.choice "LogLevel" Level.options⟩]

/-! ## As settings -/

/-- A table of settings in a layer. -/
def tableOf (o : Layer) (entries : List (String × Setting)) : Setting :=
  .table o (Keyed.ofList entries)

/-- A truth value in a layer. -/
def flagOf (o : Layer) (b : Bool) : Setting := .scalar o (.flag b)

/-- A value that may be absent, in a layer. -/
def optionOf {α : Type} (o : Layer) (f : α → Setting) : Option α → Setting
  | some a => f a
  | none => .scalar o .absent

/-- A command in a layer. -/
def commandOf (o : Layer) (c : ExternalCommand) : Setting :=
  tableOf o [("program", .ofText o c.program), ("args", .ofTexts o c.args)]

/-- Compile options in a layer. -/
def compileOf (o : Layer) (c : CompileOptions) : Setting :=
  tableOf o [("disableRewriting", flagOf o c.disableRewriting),
    ("format", .ofText o c.format.name), ("keepSymbols", flagOf o c.keepSymbols),
    ("prettyPrint", flagOf o c.prettyPrint), ("renaming", .ofText o c.renames.name)]

/-- Naming options in a layer. -/
def namingOf (o : Layer) (n : Naming) : Setting :=
  tableOf o
    [("suffixes", tableOf o [("vertex", .ofText o n.suffixes.vertex),
        ("fragment", .ofText o n.suffixes.fragment)]),
     ("default_export", .ofText o n.defaultExport), ("helper_path", .ofText o n.helperPath)]

/-- A configuration as a layer. -/
def toSetting (o : Layer) (c : Config) : Setting :=
  tableOf o
    [("root", optionOf o (.ofText o) c.root), ("include", .ofTexts o c.included),
     ("exclude", .ofTexts o c.excluded), ("basedir", optionOf o (.ofText o) c.basedir),
     ("resolver_options", tableOf o (c.resolverOptions.map fun (k, v) => (k, .ofText o v))),
     ("preprocessor", optionOf o (commandOf o) c.preprocessor),
     ("compiler", commandOf o c.compiler), ("compile", compileOf o c.compile),
     ("synthesis", namingOf o c.naming), ("out_dir", optionOf o (.ofText o) c.outDir),
     ("extension", .ofText o c.extension), ("emit_source_map", flagOf o c.emitSourceMap),
     ("jobs", optionOf o (fun n => .scalar o (.natural n)) c.jobs),
     ("log_level", .ofText o c.logLevel.name)]

/-! ## What is derived -/

/-- What the preprocessor is configured with. -/
def resolverConfig (c : Config) : ResolverConfig where
  basedir := c.basedir
  included := c.included
  excluded := c.excluded
  extra := c.resolverOptions

/-- The directory that patterns are relative to, when `workDir` is the working directory. -/
def selectorRoot (c : Config) (workDir : String) : String :=
  match c.root with
  | some root => if Path.isAbsolute root then root else Path.join workDir root
  | none => workDir

end Config

end ShaderModules
