import ShaderModules.CommandLine.Help
import ShaderModules.Config.Load
import ShaderModules.Event.Filter
import ShaderModules.Summary

/-!
# The program

The program reads its command line, loads the configuration, transforms all files and reports on
them. What it does is a function of the arguments, the environment variables and the files.

* `Finished`: how the program ended, what it printed, and the files it leaves.
* `Application.run`: the program.
-/

namespace ShaderModules

/-- How the program ended. -/
structure Finished where
  code : Nat
  output : String := ""
  diagnostics : String := ""
  tree : FileTree

namespace Application

/-- The value of an environment variable. -/
def valueOf? (environment : List (String × String)) (name : String) : Option String :=
  environment.lookup name

/-- Whether the report is coloured. It is not printed to a terminal, so only on request. -/
def isColoured (environment : List (String × String)) : Bool :=
  match valueOf? environment "CLICOLOR_FORCE" with
  | some v => v ≠ "0"
  | none => false

/-- The filter of the events that are shown, and what is wrong with it. The environment goes before
the configuration. -/
def filterOf (environment : List (String × String)) (c : Config) : EventFilter × List String :=
  EventFilter.parse ((valueOf? environment "RUST_LOG").getD c.logLevel.name)

/-- The lines about what is wrong with a filter. -/
def warnings (faults : List String) : String :=
  String.join (faults.map fun f => "warning: " ++ f ++ ", ignoring it\n")

/-- The lines of the events that are shown. -/
def journal (f : EventFilter) (events : List Event) : String :=
  String.join ((events.filter f.shows).map Event.line)

/-- The line about what stopped the program. -/
def errorLine (e : ApplicationError) : String := "Error: " ++ Problem.line e ++ "\n"

/-- The error that ends a run with failures. -/
def failure? (s : RunSummary) : Option ApplicationError :=
  if s.failed = 0 then none else some (.failed s.failed s.reports.length)

/-- The exit code for an error. -/
def codeOf : Option ApplicationError → Nat
  | none => 0
  | some _ => 1

/-- How the program ends that does not carry out its command line. -/
def refuse (tree : FileTree) : UsageError → Finished
  | .help => { code := 0, output := helpText, tree }
  | .version => { code := 0, output := versionText, tree }
  | e => { code := 2, diagnostics := e.text, tree }

/-- The first event of a run. -/
def openingEvents (c : Config) : List Event :=
  [⟨.debug, "shader_forge_app::logging",
    "Logger initialized with default level " ++ c.logLevel.title⟩]

/-- Transforms the files of the inputs as configured. -/
def execute (launch : Launcher) (tree : FileTree) (environment : List (String × String))
    (c : Config) (inputs : List String) : Finished :=
  let (filter, faults) := filterOf environment c
  let ran := Run.run launch c tree inputs
  let shown := warnings faults ++ journal filter (openingEvents c ++ ran.events)
  let (output, error) := match ran.value.2 with
    | .ok s => (s.text (isColoured environment), failure? s)
    | .error e => ("", some e)
  { code := codeOf error, output := output, tree := ran.value.1
    diagnostics := shown ++ (match error with
      | some e => errorLine e
      | none => "") }

/-- The program. -/
def run (launch : Launcher) (tree : FileTree) (environment : List (String × String))
    (args : List String) : Finished :=
  match Arguments.parse args with
  | .error e => refuse tree e
  | .ok a =>
    match Config.load tree environment a with
    | .error e => { code := 1, diagnostics := errorLine e, tree }
    | .ok c => execute launch tree environment c a.inputs

end Application

end ShaderModules
