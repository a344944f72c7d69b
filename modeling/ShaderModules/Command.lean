import ShaderModules.Event
import ShaderModules.Format
import ShaderModules.Host.FileTree
import ShaderModules.Text.Lossy
import ShaderModules.Text.Search
import ShaderModules.Text.Shown
import ShaderModules.Tool

/-!
# External commands

A command is a program with leading arguments. An argument may contain placeholders, names between
braces, which are filled in when the command is run. The program reads a text and is left to end;
what its exit status means is decided by the caller.

* `ExternalCommand.fill`: an argument with its placeholders filled in.
* `ExternalCommand.run`: what a command writes, and how it ends.
-/

namespace ShaderModules

/-- A program to be started. -/
structure Invocation where
  program : String
  args : List String
  /-- The directory to run in; without one it is the working directory. -/
  dir : Option String
  /-- What the program reads. -/
  input : String
  deriving DecidableEq, Repr

/-- How a program ended and the bytes it wrote. -/
structure Completed where
  status : ExitStatus
  output : ByteArray := .empty
  diagnostics : ByteArray := .empty

/-- A way to run programs. Programs may look at files and write none. -/
abbrev Launcher := FileTree → Invocation → Except OsError Completed

/-- How a command ended and the texts it wrote. -/
structure CommandOutput where
  status : ExitStatus
  stdout : String
  stderr : String
  deriving DecidableEq, Repr

/-- The texts of what a program wrote. -/
def CommandOutput.ofCompleted (c : Completed) : CommandOutput :=
  ⟨c.status, Text.lossy c.output, Text.lossy c.diagnostics⟩

/-- A program with its leading arguments. -/
structure ExternalCommand where
  program : String
  args : List String := []
  deriving DecidableEq, Repr

namespace ExternalCommand

/-- How a command is written. -/
def format {R : Type → Type} [Format R] : R ExternalCommand :=
  Format.record "ExternalCommand" { program := "" }
    [⟨"program", .required, (fun v s => { s with program := v }) <$> Format.path⟩,
     ⟨"args", .defaulted, (fun v s => { s with args := v }) <$> Format.list Format.text⟩]

/-- The placeholder of a name. -/
def placeholder (name : String) : String := "\x7b" ++ name ++ "\x7d"

/-- An argument with the placeholders of all names filled in, one name after the other. What is
filled in for a name is searched for the placeholders of later names. -/
def fill (vars : Keyed String) (arg : String) : String :=
  vars.foldl (fun text v => Text.replace text (placeholder v.1) v.2) arg

/-- The program to start for a command. -/
def invocation (c : ExternalCommand) (tree : FileTree) (input : String) (more : List String)
    (vars : Keyed String) (dir : Option String) : Invocation :=
  ⟨c.program, c.args.map (fill vars) ++ more, dir.filter tree.isDirectory, input⟩

/-- The event of starting a program. -/
def startEvent (i : Invocation) : Event :=
  ⟨.trace, "shader_exec::command", "Running " ++
    (match i.dir with
      | some d => "cd " ++ Text.shown d ++ " && "
      | none => "") ++ " ".intercalate ((i.program :: i.args).map Text.shown)⟩

/-- Runs a command on a text. The arguments `more` follow the command's own. -/
def run (launch : Launcher) (tree : FileTree) (c : ExternalCommand) (input : String)
    (more : List String) (vars : Keyed String) (dir : Option String) :
    Logged (Except ToolError CommandOutput) :=
  let i := c.invocation tree input more vars dir
  ⟨match launch tree i with
    | .ok done => .ok (.ofCompleted done)
    | .error e => .error (.spawn c.program e),
   [startEvent i]⟩

end ExternalCommand

end ShaderModules
