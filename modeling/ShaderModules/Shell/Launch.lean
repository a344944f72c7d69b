import ShaderModules.Command
import ShaderModules.Shell.Run

/-!
# Starting programs

A program is named by a path, or by a bare name that is searched among the standard programs. A
file is run when it may be executed and its first line names an interpreter.

* `launch`: the launcher that runs standard programs and shell scripts.
-/

namespace ShaderModules.Shell

/-- The name of the standard program at a path. -/
def nameAt? (p : String) : Option String :=
  match Path.components p with
  | [.root, .name bin, .name n] => if bin = "bin".toList then some (String.ofList n) else none
  | [.root, .name usr, .name bin, .name n] =>
    if usr = "usr".toList ∧ bin = "bin".toList then some (String.ofList n) else none
  | _ => none

/-- The names of the shell. -/
def shellNames : List String := ["sh", "dash", "bash"]

/-- Runs the shell with the arguments it is given. -/
def runShell (tree : FileTree) (program : String) (args : List String) (input : List UInt8) :
    ExitStatus × List UInt8 × List UInt8 :=
  match args with
  | "-c" :: script :: rest =>
    runText tree (rest.head?.getD program) rest.tail input script.toList
  | file :: rest =>
    match tree.read file with
    | .ok contents => runText tree file rest input (Text.lossy contents).toList
    | .error _ =>
      (.code 2, [], (program ++ ": 0: cannot open " ++ file ++ ": No such file\n").toUTF8.toList)
  | [] => runText tree program [] [] (Text.lossy input.toByteArray).toList

/-- Runs a standard program, if `name` is one. -/
def runStandard? (tree : FileTree) (name program : String) (args : List String)
    (input : List UInt8) : Option Completed :=
  if shellNames.contains name then
    let (status, out, err) := runShell tree program args input
    some ⟨status, out.toByteArray, err.toByteArray⟩
  else (standard? name).map fun p =>
    let ran := p tree args input
    ⟨.code ran.status, ran.output.toByteArray, ran.diagnostics.toByteArray⟩

/-- The interpreter that the first line of a file names, with its argument. -/
def interpreter? (contents : ByteArray) : Option (String × List String) :=
  match contents.toList with
  | 35 :: 33 :: rest =>
    let line := Text.lossy (rest.takeWhile (· ≠ 10)).toByteArray
    let text := (line.toList.dropWhile fun c => c = ' ' || c = '\t')
    let name := text.takeWhile fun c => c ≠ ' ' && c ≠ '\t'
    let arg := ((text.drop name.length).dropWhile fun c => c = ' ' || c = '\t')
    some (String.ofList name, if arg.isEmpty then [] else [String.ofList arg])
  | _ => none

/-- Runs the program at a path; interpreters may be scripts in turn, `depth` times at most. -/
def runAt (depth : Nat) (tree : FileTree) (program : String) (args : List String)
    (input : List UInt8) : Except OsError Completed :=
  match depth with
  | 0 => .error .tooManyLinks
  | depth + 1 =>
    match (nameAt? program).bind fun n => runStandard? tree n program args input with
    | some done => .ok done
    | none =>
      match tree.locate true program with
      | .ok (.found _ (.file contents executable)) =>
        if executable then
          match interpreter? contents with
          | some (name, more) => runAt depth tree name (more ++ program :: args) input
          | none => .error .badExecutable
        else .error .permissionDenied
      | .ok (.found _ _) => .error .permissionDenied
      | .ok (.vacant _ _) => .error .notFound
      | .error e => .error e

/-- The number of interpreters that may stand between a program and a standard program. -/
def maxInterpreters : Nat := 5

/-- Starts a program. -/
def launch : Launcher := fun tree i =>
  if (i.program :: i.args).any fun t => t.toList.contains '\x00' then .error .nulInArgument
  else
    let tree := match i.dir.bind tree.directory? with
      | some names => { tree with workDir := names }
      | none => tree
    let input := i.input.toUTF8.toList
    if i.program.toList.contains '/' then runAt maxInterpreters tree i.program i.args input
    else match runStandard? tree i.program i.program i.args input with
      | some done => .ok done
      | none => .error .notFound

end ShaderModules.Shell
