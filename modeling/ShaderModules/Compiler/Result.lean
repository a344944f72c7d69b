import ShaderModules.Bundle
import ShaderModules.Tool

/-!
# Results of the shader compiler

The compiler answers with a diagnostic log, with structured output, or with both.

* `TransformError`: why a file is not transformed, at which of the steps.
* `CompilerResult.bundle`: the bundle of a result. A log that is not empty is a compile error; in
  it the compiler's name for its input is replaced by the file's path.
-/

namespace ShaderModules

/-- Why a file is not transformed. -/
inductive TransformError where
  /-- The preprocessor gives no result. -/
  | resolution (path : String) (cause : ToolError)
  /-- The compiler gives no result. -/
  | compiler (path : String) (cause : ToolError)
  /-- The compiler reports diagnostics. -/
  | compilation (path : String) (log : String)
  /-- The compiler's output or the module made of it is not valid. -/
  | structure (path : String) (cause : StructureError)
  deriving DecidableEq, Repr

namespace TransformError

/-- The text of a transform error. -/
def message : TransformError → String
  | .resolution path _ => "Failed to resolve dependencies of " ++ path
  | .compiler path _ => "Failed to run shader compiler for " ++ path
  | .compilation path log => "Failed to compile " ++ path ++ ":\n" ++ log
  | .structure path _ => "Invalid compiler output for " ++ path

/-- The causes of a transform error. -/
def causes : TransformError → List String
  | .resolution _ cause => Problem.chain cause
  | .compiler _ cause => Problem.chain cause
  | .compilation _ _ => []
  | .structure _ cause => Problem.chain cause

instance : Problem TransformError where
  message := message
  causes := causes

end TransformError

/-- The name that diagnostics give to text handed to the compiler. -/
def placeholderInput : String := "<stdin>"

/-- What the compiler answers. -/
structure CompilerResult where
  log : Option String := none
  output : Option String := none
  deriving DecidableEq, Repr

namespace CompilerResult

/-- A result with output only. -/
def success (output : String) : CompilerResult := { output := some output }

/-- A result with a log only. -/
def failure (log : String) : CompilerResult := { log := some log }

/-- How a result is written. -/
def format {R : Type → Type} [Format R] : R CompilerResult :=
  Format.record "CompilerResult" {}
    [⟨"log", .defaulted, (fun v s => { s with log := v }) <$> Format.option Format.text⟩,
     ⟨"output", .defaulted, (fun v s => { s with output := v }) <$> Format.option Format.text⟩]

/-- How a result is written by a compiler that answers with both parts at once. -/
def envelopeFormat {R : Type → Type} [Format R] : R CompilerResult :=
  Format.record "Envelope" {}
    [⟨"log", .optional, (fun v s => { s with log := v }) <$> Format.option Format.text⟩,
     ⟨"output", .optional, (fun v s => { s with output := v }) <$> Format.option Format.text⟩]

/-- The log, unless it is empty. -/
def diagnostics? (r : CompilerResult) : Option String := r.log.filter (· ≠ "")

/-- The bundle of a result for the file at `path`. -/
def bundle (r : CompilerResult) (path : String) : Except TransformError Bundle :=
  match r.diagnostics? with
  | some log => .error (.compilation path (Text.replace log placeholderInput path))
  | none =>
    match r.output with
    | none => .error (.structure path .emptyResult)
    | some output => (Bundle.parse output).mapError (.structure path)

end CompilerResult

end ShaderModules
