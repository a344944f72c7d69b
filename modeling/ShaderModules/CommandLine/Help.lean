import ShaderModules.CommandLine

/-!
# The help text

The help text lists the arguments and the options in two columns: how an option is written, and
what it is for.

* `CommandOption.usage`: how an option is written.
* `helpText`, `versionText`: what is printed on request.
-/

namespace ShaderModules

namespace CommandOption

/-- The name of an option's value. -/
def valueName? : CommandOption → Option String
  | .config => some "FILE"
  | .outDir => some "DIR"
  | .included => some "GLOB"
  | .excluded => some "GLOB"
  | .basedir => some "DIR"
  | .compiler => some "PROGRAM"
  | .preprocessor => some "PROGRAM"
  | .helperPath => some "PATH"
  | .jobs => some "N"
  | .logLevel => some "LOG_LEVEL"
  | _ => none

/-- What an option is for. -/
def purpose : CommandOption → String
  | .config => "TOML configuration file. Defaults to shader-forge.toml if present"
  | .outDir => "Write generated modules under this directory, mirroring the input layout"
  | .included => "Include glob pattern (repeatable). Replaces configured patterns"
  | .excluded => "Exclude glob pattern (repeatable). Replaces configured patterns"
  | .basedir => "Directory that #include references resolve against"
  | .compiler => "External shader compiler executable"
  | .preprocessor =>
    "External preprocessor executable. The built-in inliner is used when unset"
  | .helperPath => "Import path of the createProgram runtime helper"
  | .emitSourceMap => "Also write an (empty) source map next to each module"
  | .jobs => "Number of worker threads"
  | .logLevel => "Log verbosity. RUST_LOG takes precedence when set [possible values: " ++
      ", ".intercalate (Level.all.map Level.name) ++ "]"
  | .help => "Print help"
  | .version => "Print version"

/-- How an option is written. -/
def usage (name : String) (o : CommandOption) : String :=
  (match byLetter.find? (·.2 == o) with
    | some (c, _) => String.ofList ['-', c, ',', ' ']
    | none => "    ") ++
  "--" ++ name ++
  (match o.valueName? with
    | some v => " <" ++ v ++ ">"
    | none => "")

end CommandOption

/-- Lines of two columns, indented. -/
def columns (rows : List (String × String)) : List String :=
  let width := (rows.map (·.1.length)).foldl max 0
  rows.map fun (left, right) =>
    "  " ++ left ++ String.ofList (List.replicate (width - left.length + 2) ' ') ++ right

/-- What is printed when help is asked for. -/
def helpText : String :=
  let text := ["Compile shader sources into importable JavaScript modules", "",
    "Usage: shader-forge [OPTIONS] <INPUT>...", "", "Arguments:"] ++
    columns [("<INPUT>...", "Shader files or directories (searched recursively) to transform")] ++
    ["", "Options:"] ++
    columns (CommandOption.byName.map fun (name, o) => (o.usage name, o.purpose))
  "\n".intercalate text ++ "\n"

/-- What is printed about a command line that is not carried out. -/
def UsageError.text (e : UsageError) : String :=
  "error: " ++
    (match e with
      | .missingArgument => "the following required arguments were not provided:\n  <INPUT>..."
      | .unknownArgument => "unexpected argument found"
      | .invalidValue => "invalid value for one of the arguments"
      | .malformedValue => "invalid value for '--jobs <N>'"
      | .conflict => "an argument cannot be used multiple times"
      | .tooManyValues => "unexpected value for an argument found; no more were expected"
      | .help => ""
      | .version => "") ++
  "\n\nUsage: shader-forge [OPTIONS] <INPUT>...\n\nFor more information, try '--help'.\n"

/-- What is printed when the version is asked for. -/
def versionText : String := "shader-forge-app 0.1.0\n"

end ShaderModules
