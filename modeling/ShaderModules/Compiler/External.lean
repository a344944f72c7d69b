import ShaderModules.Command
import ShaderModules.Compiler.Options
import ShaderModules.Compiler.Result
import ShaderModules.Json.Record
import ShaderModules.Text.Blank

/-!
# An external compiler

The program reads the preprocessed text and gets the compile options as flags. A failure, or
anything on its diagnostic stream, makes the log. Otherwise what it writes is the output, or an
envelope with a log and an output.

* `ExternalCompiler.unwrap`: what the output of a silent success means.
* `ExternalCompiler.interpret`: what a run means.
* `ExternalCompiler.compile`: runs the compiler.
-/

namespace ShaderModules.ExternalCompiler

/-- The result in an envelope, when a part of it is given; any other text is the output. -/
def unwrap (text : String) : CompilerResult :=
  match (CompilerResult.envelopeFormat (R := Json.Reader)).parse text with
  | .ok r => if r.log.isSome || r.output.isSome then r else .success text
  | .error _ => .success text

/-- The log of a run that failed without saying why. -/
def silentFailure (program : String) (status : ExitStatus) : String :=
  program ++ " exited with " ++ status.message ++ " and no diagnostics"

/-- What a run of the compiler means. -/
def interpret (program : String) (o : CommandOutput) : CompilerResult :=
  let stderr := Text.trim o.stderr
  if stderr ≠ "" then .failure stderr
  else if o.status.isSuccess then unwrap o.stdout
  else .failure (silentFailure program o.status)

/-- Runs the compiler on a text. -/
def compile (launch : Launcher) (tree : FileTree) (c : ExternalCommand) (source : String)
    (o : CompileOptions) : Logged (Except ToolError CompilerResult) := do
  match ← c.run launch tree source o.flags [] none with
  | .error e => return .error e
  | .ok output => return .ok (interpret c.program output)

end ShaderModules.ExternalCompiler
