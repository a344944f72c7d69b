import ShaderModules.Keyed
import ShaderModules.Shell.Script
import ShaderModules.Shell.Standard
import ShaderModules.Text.Lossy
import ShaderModules.Tool

/-!
# Running shell scripts

A script runs in a state: its arguments and variables, the directory, the status of the last
command, the input that is left, and the streams that are written. Streams 0 and 1 of the state
are the output and the diagnostics of the whole script; a pipe opens one more. Files are only
read: what is redirected to a file is dropped.

* `expandWord`: the fields that a word stands for.
* `runScript`: runs a script; `fuel` bounds the number of nested steps.
-/

namespace ShaderModules.Shell

/-- Where something is written: to a stream of the state, or nowhere. -/
abbrev Sink := Option Nat

/-- How a command leaves the script: it goes on, or it ends. -/
inductive Flow where
  | next
  | exit
  | killed (signal : Nat)
  deriving DecidableEq, Repr

/-- The state of a script. -/
structure ShellState where
  tree : FileTree
  name : String
  args : List String
  vars : Keyed String := []
  status : Nat := 0
  input : List UInt8
  /-- What has been written, latest first. -/
  streams : List (List (List UInt8)) := [[], []]
  out : Sink := some 0
  err : Sink := some 1

/-- The number of the running shell's process. -/
def processNumber : String := "4242"

namespace ShellState

/-- Writes to a sink. -/
def writeTo (s : ShellState) (sink : Sink) (bytes : List UInt8) : ShellState :=
  match sink with
  | none => s
  | some n => { s with streams := s.streams.modify n (bytes :: ·) }

/-- The bytes of a stream. -/
def stream (s : ShellState) (n : Nat) : List UInt8 :=
  ((s.streams[n]?).getD []).reverse.flatten

/-- Writes a message about a command. -/
def complain (s : ShellState) (text : String) : ShellState :=
  s.writeTo s.err (s.name ++ ": 1: " ++ text ++ "\n").toUTF8.toList

/-- The value of a parameter, unless it has none. -/
def parameter? (s : ShellState) (name : String) : Option String :=
  match name with
  | "#" => some (toString s.args.length)
  | "?" => some (toString s.status)
  | "$" => some processNumber
  | "*" => some (" ".intercalate s.args)
  | "@" => some (" ".intercalate s.args)
  | "0" => some s.name
  | name =>
    if name ≠ "" && name.toList.all Char.isDigit then
      s.args[digitsValue 10 name.toList - 1]?
    else if name = "PWD" then some (FileTree.pathOf s.tree.workDir)
    else Keyed.get? name s.vars

/-- Sets a variable. -/
def assign (s : ShellState) (name value : String) : ShellState :=
  { s with vars := Keyed.insert name value s.vars }

/-- The sink of a stream that a script names by its number. -/
def sinkOf (s : ShellState) (stream : String) : Sink :=
  if stream = "2" then s.err else if stream = "1" then s.out else none

end ShellState

/-! ## Words -/

/-- A piece of an expanded word. -/
inductive Piece where
  /-- Text of a field; quoted text is kept even if it is empty. -/
  | text (s : List Char) (quoted : Bool)
  /-- The end of a field. -/
  | cut

/-- The text of unquoted expansion as pieces, cut at blanks. -/
def piecesOf (s : List Char) : List Piece :=
  s.map fun c => if c = ' ' || c = '\t' || c = '\n' then .cut else .text [c] false

/-- The fields of pieces; `field` is the field under way. -/
def fieldsFrom (field : Option (List Char)) : List Piece → List String
  | [] => (field.map String.ofList).toList
  | .cut :: rest => (field.map String.ofList).toList ++ fieldsFrom none rest
  | .text s quoted :: rest =>
    fieldsFrom (if s.isEmpty && !quoted then field else some (field.getD [] ++ s)) rest

/-- The pieces of several fields that are kept apart. -/
def keptApart : List String → List Piece
  | [] => []
  | [a] => [.text a.toList true]
  | a :: rest => .text a.toList true :: .cut :: keptApart rest

/-- The text without the line feeds it ends with. -/
def withoutLineEnds (s : List Char) : List Char := (s.reverse.dropWhile (· == '\n')).reverse

/-- Whether a text is a name of a variable. -/
def isVariableName (s : List Char) : Bool :=
  s.all Scanner.isNameChar && s.head?.any fun c => !c.isDigit

/-- A word that sets a variable: the name, and the value's word. -/
def assignment? : Word → Option (String × Word)
  | .literal text false :: rest =>
    let name := text.takeWhile (· ≠ '=')
    if isVariableName name && name.length < text.length then
      let value := text.drop (name.length + 1)
      some (String.ofList name, if value.isEmpty then rest else .literal value false :: rest)
    else none
  | _ => none

/-! ## Commands of the shell itself -/

/-- The numbers of signals by their names. -/
def signalNumber (s : String) : Nat :=
  let name := if s.startsWith "SIG" then s else "SIG" ++ s
  match signalNames.idxOf? name with
  | some i => i + 1
  | none => digitsValue 10 (s.toList.takeWhile Char.isDigit)

/-- Signals that do not end a process. -/
def isHarmless (signal : Nat) : Bool := [0, 17, 18, 23, 28].contains signal

/-- Sends a signal; the only process known is the shell. -/
def killProcess (s : ShellState) (args : List String) : Flow × ShellState :=
  let (signal, targets) := match args with
    | "-s" :: name :: rest => (signalNumber name, rest)
    | a :: rest =>
      if a.startsWith "-" then (signalNumber (String.ofList (a.toList.drop 1)), rest)
      else (15, a :: rest)
    | [] => (15, [])
  if targets.contains processNumber then
    if isHarmless signal then (.next, { s with status := 0 }) else (.killed signal, s)
  else (.next, { s.complain "kill: No such process" with status := 1 })

/-- Reads a line into variables. -/
def readLine (s : ShellState) (names : List String) : ShellState :=
  let line := s.input.takeWhile (· ≠ 10)
  let ended := line.length < s.input.length
  let text := (Text.lossy line.toByteArray).toList
  let fields := fieldsFrom none (piecesOf text)
  let rec go (s : ShellState) (fields : List String) : List String → ShellState
    | [] => s
    | [name] => s.assign name (" ".intercalate fields)
    | name :: rest => go (s.assign name (fields.head?.getD "")) fields.tail rest
  { go s fields (names.filter (!·.startsWith "-")) with
    input := s.input.drop (line.length + 1)
    status := if ended then 0 else 1 }

/-- Changes the directory. -/
def changeDirectory (s : ShellState) (p : String) : ShellState :=
  match s.tree.directory? p with
  | some names => { s with tree := { s.tree with workDir := names }, status := 0 }
  | none => { s.complain ("cd: can't cd to " ++ p) with status := 2 }

/-- Runs a standard program in the state. -/
def runProgram (s : ShellState) (p : Program) (args : List String) : Flow × ShellState :=
  let ran := p s.tree args s.input
  let s := (s.writeTo s.out ran.output).writeTo s.err ran.diagnostics
  (.next, { s with input := ran.rest, status := ran.status })

/-- Sets the status and goes on. -/
def finishedWith (s : ShellState) (status : Nat) : Flow × ShellState :=
  (.next, { s with status := status })

/-- Runs a command given by its fields. -/
def runCommand (s : ShellState) (command : String) (args : List String) : Flow × ShellState :=
  match command with
  | ":" => finishedWith s 0
  | "echo" => runProgram s (writer echoed) args
  | "exit" =>
    let status := match args with
      | n :: _ => digitsValue 10 (n.toList.takeWhile Char.isDigit) % 256
      | [] => s.status
    (.exit, { s with status := status })
  | "cd" => (.next, changeDirectory s (args.head?.getD "/"))
  | "kill" => killProcess s args
  | "shift" =>
    let n := (args.head?.map fun n => digitsValue 10 n.toList).getD 1
    (.next, { s with args := s.args.drop n, status := 0 })
  | "read" => (.next, readLine s args)
  | "set" =>
    match args with
    | "--" :: rest => (.next, { s with args := rest, status := 0 })
    | _ => finishedWith s 0
  | "export" | "unset" | "trap" | "umask" | "wait" => finishedWith s 0
  | "[" =>
    match args.getLast? with
    | some "]" => runProgram s test args.dropLast
    | _ => (.next, { s.complain "[: missing ]" with status := 2 })
  | "exec" =>
    match args with
    | name :: rest =>
      match standard? name with
      | some p => ({ runProgram s p rest with fst := .exit })
      | none => (.exit, { s.complain ("exec: " ++ name ++ ": not found") with status := 127 })
    | [] => finishedWith s 0
  | name =>
    match standard? name with
    | some p => runProgram s p args
    | none => (.next, { s.complain (name ++ ": not found") with status := 127 })

/-- Goes back to the sinks of another state. -/
def withSinks (s before : ShellState) : ShellState := { s with out := before.out, err := before.err }

/-- Goes on after commands that ran apart. -/
def afterApart (before : ShellState) (r : Flow × ShellState) : Flow × ShellState :=
  let after := { before with
    streams := r.2.streams, input := r.2.input, status := r.2.status }
  match r.1 with
  | .killed n => (.killed n, after)
  | _ => (.next, after)

/-- What is left to do at a step. -/
inductive Task where
  | script (s : Script)
  /-- A loop over fields. -/
  | fields (name : String) (values : List String) (body : Script)
  | redirects (body : Script) (l : List Redirect)

/-- Runs a task, with the fields of words by `expand`. -/
def runTask (fuel : Nat) (task : Task) (s : ShellState) : Flow × ShellState :=
  match fuel with
  | 0 => (.exit, { s with status := 2 })
  | fuel + 1 =>
    /- What a script writes, run apart. -/
    let captured (s : ShellState) (script : List Char) : List Char × ShellState :=
      match (tokens? script).bind Script.ofTokens? with
      | none => ([], { s.complain "Syntax error: bad substitution" with status := 2 })
      | some body =>
        let n := s.streams.length
        let (_, after) := afterApart s (runTask fuel (.script body)
          { s with streams := s.streams ++ [[]], out := some n })
        ((Text.lossy (after.stream n).toByteArray).toList,
          { after with streams := after.streams.take n })
    let pieces (s : ShellState) (w : Word) : List Piece × ShellState :=
      w.foldl (fun (done, s) part =>
        match part with
        | .literal text quoted => (done ++ [.text text quoted], s)
        | .parameter "@" _ true => (done ++ keptApart s.args, s)
        | .parameter name fallback quoted =>
          let value := match s.parameter? name with
            | some v => if v = "" then (fallback.map String.ofList).getD v else v
            | none => (fallback.map String.ofList).getD ""
          (done ++ (if quoted then [.text value.toList true] else piecesOf value.toList), s)
        | .output script quoted =>
          let (text, s) := captured s script
          let text := withoutLineEnds text
          (done ++ (if quoted then [.text text true] else piecesOf text), s)) ([], s)
    let fields (s : ShellState) (words : List Word) : List String × ShellState :=
      words.foldl (fun (done, s) w =>
        let (l, s) := pieces s w
        (done ++ fieldsFrom none l, s)) ([], s)
    let one (s : ShellState) (w : Word) : String × ShellState :=
      let (l, s) := pieces s w
      (String.ofList (l.flatMap fun | .text t _ => t | .cut => [' ']), s)
    match task with
    | .fields _ [] _ => (.next, s)
    | .fields name (v :: rest) body =>
      match runTask fuel (.script body) (s.assign name v) with
      | (.next, s) => runTask fuel (.fields name rest body) s
      | r => r
    | .redirects body [] => runTask fuel (.script body) s
    | .redirects body (r :: rest) =>
      let (target, s') := one s r.target
      let goOn (t : ShellState) : Flow × ShellState := runTask fuel (.redirects body rest) t
      match r.stream, r.text with
      | 0, _ =>
        match (if target = "/dev/null" then .ok ByteArray.empty else s'.tree.read target) with
        | .ok contents =>
          let (flow, after) := goOn { s' with input := contents.toList }
          (flow, { after with input := s'.input })
        | .error _ =>
          (.next, { s'.complain ("cannot open " ++ target ++ ": No such file") with status := 2 })
      | 2, ">&" => goOn { s' with err := s'.sinkOf target }
      | 2, _ => goOn { s' with err := none }
      | _, ">&" => goOn { s' with out := s'.sinkOf target }
      | _, _ => goOn { s' with out := none }
    | .script script =>
      match script with
      | .nothing => (.next, { s with status := 0 })
      | .simple words [] =>
        match words.head?.bind assignment? with
        | some (name, value) =>
          let (v, s) := one s value
          if words.tail.isEmpty then (.next, { s.assign name v with status := 0 })
          else runTask fuel (.script (.simple words.tail [])) (s.assign name v)
        | none =>
          match fields s words with
          | ([], s) => (.next, { s with status := 0 })
          | (command :: args, s) => runCommand s command args
      | .simple words redirects => runTask fuel (.script (.redirected (.simple words []) redirects)) s
      | .redirected body redirects =>
        let (flow, after) := runTask fuel (.redirects body redirects) s
        (flow, withSinks after s)
      | .pipe first second =>
        let n := s.streams.length
        match afterApart s (runTask fuel (.script first)
            { s with streams := s.streams ++ [[]], out := some n }) with
        | (.killed k, after) => (.killed k, after)
        | (_, after) =>
          let piped := { after with
            streams := after.streams.take n, input := after.stream n }
          let (flow, last) := afterApart s (runTask fuel (.script second) piped)
          (flow, { last with input := after.input })
      | .both first second =>
        match runTask fuel (.script first) s with
        | (.next, s) => if s.status = 0 then runTask fuel (.script second) s else (.next, s)
        | r => r
      | .either first second =>
        match runTask fuel (.script first) s with
        | (.next, s) => if s.status = 0 then (.next, s) else runTask fuel (.script second) s
        | r => r
      | .sequence first second =>
        match runTask fuel (.script first) s with
        | (.next, s) => runTask fuel (.script second) s
        | r => r
      | .negation body =>
        match runTask fuel (.script body) s with
        | (.next, s) => finishedWith s (if s.status = 0 then 1 else 0)
        | r => r
      | .apart body => afterApart s (runTask fuel (.script body) s)
      | .each name words body =>
        match words with
        | none => runTask fuel (.fields name s.args body) { s with status := 0 }
        | some words =>
          let (values, s) := fields s words
          runTask fuel (.fields name values body) { s with status := 0 }
      | .branch condition yes no =>
        match runTask fuel (.script condition) s with
        | (.next, s) =>
          if s.status = 0 then runTask fuel (.script yes) s else runTask fuel (.script no) s
        | r => r
      | .loop negated condition body =>
        match runTask fuel (.script condition) s with
        | (.next, after) =>
          if (after.status = 0) = !negated then
            match runTask fuel (.script body) after with
            | (.next, s) => runTask fuel (.script (.loop negated condition body)) s
            | r => r
          else finishedWith after 0
        | r => r

/-- The greatest number of nested steps of a script. -/
def maxSteps : Nat := 100000

/-- Runs a script text with the name and the arguments it is given. -/
def runText (tree : FileTree) (name : String) (args : List String) (input : List UInt8)
    (script : List Char) : ExitStatus × List UInt8 × List UInt8 :=
  let start : ShellState := { tree, name, args, input }
  match (tokens? script).map Script.ofTokens? with
  | none =>
    let s := start.complain "Syntax error: Unterminated quoted string"
    (.code 2, s.stream 0, s.stream 1)
  | some none =>
    let s := start.complain "Syntax error: end of file unexpected"
    (.code 2, s.stream 0, s.stream 1)
  | some (some body) =>
    match runTask maxSteps (.script body) start with
    | (.killed n, s) => (.signal n, s.stream 0, s.stream 1)
    | (_, s) => (.code s.status, s.stream 0, s.stream 1)

end ShaderModules.Shell
