import ShaderModules.Config.Basic
import ShaderModules.Decimal.Numeral
import ShaderModules.Text.Search

/-!
# The command line

Options and inputs may be mixed. A long option has its value behind an equals sign or in the next
argument, a short one may also have it right behind its letter. Behind `--` every argument is an
input. A value that is an argument of its own does not start with a hyphen, unless it is one.

* `Arguments`: what the command line asks for.
* `UsageError`: why it asks for nothing; help and version texts count as such.
* `Arguments.parse`: reads a command line.
-/

namespace ShaderModules

/-- What the command line asks for. -/
structure Arguments where
  inputs : List String := []
  config : Option String := none
  outDir : Option String := none
  included : List String := []
  excluded : List String := []
  basedir : Option String := none
  compiler : Option String := none
  preprocessor : Option String := none
  helperPath : Option String := none
  emitSourceMap : Bool := false
  jobs : Option Nat := none
  logLevel : Option Level := none
  deriving DecidableEq, Repr

/-- Why a command line is not carried out. -/
inductive UsageError where
  | missingArgument
  | unknownArgument
  | invalidValue
  /-- A value that is not a number. -/
  | malformedValue
  /-- An option that is given twice. -/
  | conflict
  /-- A value for an option that has none. -/
  | tooManyValues
  | help
  | version
  deriving DecidableEq, Repr

/-- The options. -/
inductive CommandOption where
  | config
  | outDir
  | included
  | excluded
  | basedir
  | compiler
  | preprocessor
  | helperPath
  | emitSourceMap
  | jobs
  | logLevel
  | help
  | version
  deriving DecidableEq, Repr

namespace CommandOption

/-- The options by their long names. -/
def byName : List (String × CommandOption) :=
  [("config", .config), ("out-dir", .outDir), ("include", .included), ("exclude", .excluded),
   ("basedir", .basedir), ("compiler", .compiler), ("preprocessor", .preprocessor),
   ("helper-path", .helperPath), ("emit-source-map", .emitSourceMap), ("jobs", .jobs),
   ("log-level", .logLevel), ("help", .help), ("version", .version)]

/-- The options by their letters. -/
def byLetter : List (Char × CommandOption) :=
  [('c', .config), ('o', .outDir), ('j', .jobs), ('h', .help), ('V', .version)]

/-- Whether an option has no value. -/
def isSwitch : CommandOption → Bool
  | .emitSourceMap => true
  | .help => true
  | .version => true
  | _ => false

/-- Whether an option may be given again. -/
def isRepeatable : CommandOption → Bool
  | .included => true
  | .excluded => true
  | _ => false

end CommandOption

/-- What the values read last belong to. They take effect when the next option or input starts. -/
inductive Pending where
  | nothing
  | value (o : CommandOption) (v : Option String)
  | inputs (l : List String)
  deriving DecidableEq, Repr

/-- What has been read of a command line. -/
structure CommandScan where
  args : Arguments := {}
  /-- The options that have taken effect. -/
  seen : List CommandOption := []
  pending : Pending := .nothing
  deriving Repr

namespace CommandScan

/-- The name of a file, which is not empty. -/
def fileName (v : String) : Except UsageError String :=
  if v = "" then .error .invalidValue else .ok v

/-- The arguments with the value of an option. -/
def withValue (a : Arguments) (o : CommandOption) (v : String) : Except UsageError Arguments :=
  match o with
  | .config => (fileName v).map fun v => { a with config := some v }
  | .outDir => (fileName v).map fun v => { a with outDir := some v }
  | .basedir => (fileName v).map fun v => { a with basedir := some v }
  | .compiler => (fileName v).map fun v => { a with compiler := some v }
  | .preprocessor => (fileName v).map fun v => { a with preprocessor := some v }
  | .included => .ok { a with included := a.included ++ [v] }
  | .excluded => .ok { a with excluded := a.excluded ++ [v] }
  | .helperPath => .ok { a with helperPath := some v }
  | .emitSourceMap => .ok { a with emitSourceMap := true }
  | .jobs =>
    match Decimal.natural? Decimal.wordLimit v.toList with
    | some n => .ok { a with jobs := some n }
    | none => .error .malformedValue
  | .logLevel =>
    match Level.options.find? (·.1 == v) with
    | some (_, l) => .ok { a with logLevel := some l }
    | none => .error .invalidValue
  | .help => .error .help
  | .version => .error .version

/-- An option takes effect. -/
def apply (s : CommandScan) (o : CommandOption) (v : String) : Except UsageError CommandScan :=
  if !o.isRepeatable && s.seen.contains o then .error .conflict
  else (withValue s.args o v).map fun args => { s with args := args, seen := o :: s.seen }

/-- What is pending takes effect. -/
def settle (s : CommandScan) : Except UsageError CommandScan :=
  match s.pending with
  | .nothing => .ok s
  | .value _ none => .error .invalidValue
  | .value o (some v) => { s with pending := .nothing }.apply o v
  | .inputs l => do
    let l ← l.mapM fileName
    return { s with pending := .nothing, args := { s.args with inputs := s.args.inputs ++ l } }

/-- Reads an option with the value that is attached to it, if one is. -/
def readOption (s : CommandScan) (o : CommandOption) (attached : Option String) :
    Except UsageError CommandScan := do
  match o.isSwitch, attached with
  | true, some _ => .error .tooManyValues
  | true, none => (← s.settle).apply o ""
  | false, some v => (← s.settle).apply o v
  | false, none => return { (← s.settle) with pending := .value o none }

/-- Reads the letters of short options. The letters behind an option with a value are its value;
an equals sign may stand between them. -/
def readLetters (s : CommandScan) : List Char → Except UsageError CommandScan
  | [] => .ok s
  | c :: rest =>
    match CommandOption.byLetter.find? (·.1 == c) with
    | none => .error .unknownArgument
    | some (_, o) =>
      if o.isSwitch then do
        let s ← s.readOption o none
        readLetters s rest
      else match rest with
        | [] => s.readOption o none
        | '=' :: v => s.readOption o (some (String.ofList v))
        | v => s.readOption o (some (String.ofList v))

/-- Reads an argument that is a value or an input. -/
def readPlain (s : CommandScan) (arg : String) : Except UsageError CommandScan :=
  match s.pending with
  | .inputs l => .ok { s with pending := .inputs (l ++ [arg]) }
  | _ => s.settle.map fun s => { s with pending := .inputs [arg] }

/-- Reads a long option, without the hyphens in front. -/
def readName (s : CommandScan) (text : List Char) : Except UsageError CommandScan :=
  let name := text.takeWhile (· ≠ '=')
  let attached := match text.drop name.length with
    | '=' :: v => some (String.ofList v)
    | _ => none
  match CommandOption.byName.find? (·.1 == String.ofList name) with
  | some (_, o) => s.readOption o attached
  | none => .error .unknownArgument

/-- Reads the arguments. -/
def readAll (s : CommandScan) : List String → Except UsageError CommandScan
  | [] => s.settle
  | arg :: rest => do
    match arg.toList with
    | ['-', '-'] => (← rest.foldlM readPlain s).settle
    | '-' :: '-' :: text => readAll (← s.readName text) rest
    | '-' :: c :: letters => readAll (← s.readLetters (c :: letters)) rest
    | _ =>
      match s.pending with
      | .value o none => readAll { s with pending := .value o (some arg) } rest
      | _ => readAll (← s.readPlain arg) rest

end CommandScan

namespace Arguments

/-- Reads a command line, without the name of the program. -/
def parse (args : List String) : Except UsageError Arguments := do
  let s ← ({} : CommandScan).readAll args
  if s.args.inputs.isEmpty then .error .missingArgument else .ok s.args

/-- The entry for a value that is given. -/
def given {α : Type} (key : String) (f : α → Setting) : Option α → List (String × Setting)
  | some a => [(key, f a)]
  | none => []

/-- The layer of the options that are given. An option that is not given sets nothing. -/
def layer (a : Arguments) : Setting :=
  let o := Layer.commandLine
  let text (s : String) : Setting := .ofText o s
  let nonempty (l : List String) : Option (List String) := if l.isEmpty then none else some l
  Config.tableOf o <|
    given "include" (.ofTexts o) (nonempty a.included) ++
    given "exclude" (.ofTexts o) (nonempty a.excluded) ++
    given "basedir" text a.basedir ++
    given "compiler" (fun p => .nest o ["program"] (text p)) a.compiler ++
    given "preprocessor" (fun p => .nest o ["program"] (text p)) a.preprocessor ++
    given "synthesis" (fun p => .nest o ["helper_path"] (text p)) a.helperPath ++
    given "out_dir" text a.outDir ++
    given "emit_source_map" (Config.flagOf o) (if a.emitSourceMap then some true else none) ++
    given "jobs" (fun n => .scalar o (.natural n)) a.jobs ++
    given "log_level" (fun l => text l.name) a.logLevel

end Arguments

end ShaderModules
