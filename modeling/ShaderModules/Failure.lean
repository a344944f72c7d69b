import ShaderModules.Config.Reading
import ShaderModules.Host.OsError
import ShaderModules.Problem
import ShaderModules.Selection

/-!
# Why a run ends early

* `ApplicationError`: what stops the program as a whole.
-/

namespace ShaderModules

/-- What stops the program. -/
inductive ApplicationError where
  /-- The command line or the configuration asks for something impossible. -/
  | configuration (text : String)
  | io (cause : OsError)
  | selector (cause : SelectorError)
  /-- The configuration cannot be read. -/
  | settings (cause : SettingError)
  /-- Some files have not been transformed. -/
  | failed (failed total : Nat)
  deriving DecidableEq, Repr

namespace ApplicationError

/-- The text of an error. -/
def message : ApplicationError → String
  | .configuration text => "Configuration Error: " ++ text
  | .io _ => "IO Error"
  | .selector cause => Problem.message cause
  | .settings _ => "Invalid shader-forge configuration"
  | .failed n total =>
    toString n ++ " of " ++ toString total ++ " shader file(s) failed to transform"

/-- The causes of an error. -/
def causes : ApplicationError → List String
  | .io cause => [cause.message]
  | .selector cause => Problem.causes cause
  | .settings cause => [cause.message]
  | _ => []

instance : Problem ApplicationError where
  message := message
  causes := causes

end ApplicationError

end ShaderModules
