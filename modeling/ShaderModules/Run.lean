import ShaderModules.Collection
import ShaderModules.Compiler.External
import ShaderModules.Config.Basic
import ShaderModules.Output.Writing
import ShaderModules.Preprocessor.External
import ShaderModules.Preprocessor.Inliner
import ShaderModules.Transform

/-!
# Running over all files

* `Run.transformOf`, `Run.toolsOf`: what a configuration asks for.
* `Run.processFile`: a file is read, transformed and written. A failure concerns that file only.
* `Run.run`: all files of the inputs, one after the other.
-/

namespace ShaderModules

/-- Why there is no module for a file. -/
inductive FileError where
  | unreadable (cause : OsError)
  | transform (cause : TransformError)
  | write (cause : WriteError)
  /-- The file was selected before and is not any more. -/
  | notSelected
  deriving DecidableEq, Repr

namespace FileError

/-- The text of a file error. -/
def message : FileError → String
  | .unreadable cause => cause.message
  | .transform cause => cause.message
  | .write cause => cause.message
  | .notSelected => "file is no longer selected"

/-- The causes of a file error. -/
def causes : FileError → List String
  | .transform cause => cause.causes
  | .write cause => [cause.cause.message]
  | _ => []

instance : Problem FileError where
  message := message
  causes := causes

end FileError

/-- What became of a file. -/
inductive Outcome where
  | written (module : String) (map : Option String)
  | failed (error : FileError)
  deriving DecidableEq, Repr

/-- A file and what became of it. -/
structure FileReport where
  input : String
  outcome : Outcome
  deriving DecidableEq, Repr

/-- Whether a module was written. -/
def Outcome.isWritten : Outcome → Bool
  | .written _ _ => true
  | .failed _ => false

/-- What became of all files. -/
structure RunSummary where
  reports : List FileReport := []
  skipped : Nat := 0
  deriving DecidableEq, Repr

/-- The number of modules written. -/
def RunSummary.written (s : RunSummary) : Nat := s.reports.countP (·.outcome.isWritten)

/-- The number of files without a module. -/
def RunSummary.failed (s : RunSummary) : Nat := s.reports.length - s.written

namespace Run

/-- The part of the program that reports the events of this module. -/
def origin : String := "shader_forge_app::runner"

/-- What a configuration asks for. -/
def transformOf (c : Config) (workDir : String) : Except ApplicationError Transform :=
  match Selector.build (c.selectorRoot workDir) c.included c.excluded with
  | .error e => .error (.selector e)
  | .ok s => .ok
    { selector := s, resolverConfig := c.resolverConfig, compileOptions := c.compile
      naming := c.naming }

/-- The events of setting up the tools of a configuration. -/
def toolEvents (c : Config) : List Event :=
  (match c.preprocessor with
    | some p => [⟨.info, origin, "Using preprocessor " ++ p.program⟩]
    | none => []) ++ [⟨.info, origin, "Using compiler " ++ c.compiler.program⟩]

/-- The tools of a configuration, at work on a tree. -/
def toolsOf (launch : Launcher) (t : FileTree) (c : Config) : Tools Logged where
  resolve source options :=
    match c.preprocessor with
    | some p => ExternalPreprocessor.resolve launch t p source options
    | none => Inliner.resolve t source options
  compile := ExternalCompiler.compile launch t c.compiler
  resolverName := if c.preprocessor.isSome then "external preprocessor" else "include inliner"
  compilerName := "external compiler"
  report := Logged.report

/-- Where the module of a candidate goes. -/
def targetOf (c : Config) (f : Candidate) : String :=
  modulePath f.path f.relative c.outDir c.extension

/-- The module of a candidate, as the tree is now. -/
def moduleOf (launch : Launcher) (t : FileTree) (c : Config) (tr : Transform) (f : Candidate) :
    Logged (Except FileError Generated) := do
  match t.readText f.path with
  | .error e => return .error (.unreadable e)
  | .ok code =>
    match ← tr.run (toolsOf launch t c) f.path code with
    | .error e => return .error (.transform e)
    | .ok none => return .error .notSelected
    | .ok (some g) => return .ok g

/-- The tree and the outcome after writing a module. -/
def writeModule (t : FileTree) (c : Config) (f : Candidate) (g : Generated) :
    FileTree × Outcome :=
  match g.write t (targetOf c f) c.emitSourceMap with
  | (t, .ok map) => (t, .written (targetOf c f) map)
  | (t, .error e) => (t, .failed (.write e))

/-- The event of an outcome. -/
def outcomeEvent (f : Candidate) : Outcome → List Event
  | .written module _ => [⟨.info, origin, "Transformed " ++ f.path ++ " -> " ++ module⟩]
  | .failed .notSelected => []
  | .failed e => [⟨.error, origin, Problem.line e⟩]

/-- Reads, transforms and writes a file. -/
def processFile (launch : Launcher) (c : Config) (tr : Transform) (t : FileTree) (f : Candidate) :
    Logged (FileTree × Outcome) :=
  let made := moduleOf launch t c tr f
  let done := match made.value with
    | .ok g => writeModule t c f g
    | .error e => (t, .failed e)
  ⟨done, made.events ++ outcomeEvent f done.2⟩

/-- Processes files one after the other. -/
def processAll (launch : Launcher) (c : Config) (tr : Transform) (t : FileTree) :
    List Candidate → Logged (FileTree × List FileReport)
  | [] => pure (t, [])
  | f :: rest => do
    let (t, outcome) ← processFile launch c tr t f
    let (t, reports) ← processAll launch c tr t rest
    return (t, ⟨f.path, outcome⟩ :: reports)

/-- Collects the files of the inputs and processes them. -/
def run (launch : Launcher) (c : Config) (t : FileTree) (inputs : List String) :
    Logged (FileTree × Except ApplicationError RunSummary) := do
  match transformOf c (FileTree.pathOf t.workDir) with
  | .error e => return (t, .error e)
  | .ok tr =>
    for e in toolEvents c do Logged.report e
    match ← Collection.collect t tr.selector inputs with
    | .error e => return (t, .error e)
    | .ok collected =>
      Logged.report ⟨.info, origin, "Transforming " ++ toString collected.candidates.length ++
        " shader file(s), " ++ toString collected.skipped ++ " skipped"⟩
      let (t, reports) ← processAll launch c tr t collected.candidates
      return (t, .ok { reports, skipped := collected.skipped })

end Run

end ShaderModules
