import ShaderModules.Host.OsError
import ShaderModules.Problem

/-!
# External tools

The preprocessor and the compiler are tools: programs that are run, or what is built in in their
place.

* `ExitStatus`: how a program ended.
* `ToolError`: why a tool gives no result.
-/

namespace ShaderModules

/-- How a program ended: with a code, or by a signal. -/
inductive ExitStatus where
  | code (n : Nat)
  | signal (n : Nat)
  deriving DecidableEq, Repr

/-- Whether a program ended well. -/
def ExitStatus.isSuccess : ExitStatus → Bool
  | .code 0 => true
  | _ => false

/-- The names of the signals from 1 on. -/
def signalNames : List String := ["SIGHUP", "SIGINT", "SIGQUIT", "SIGILL", "SIGTRAP", "SIGABRT",
  "SIGBUS", "SIGFPE", "SIGKILL", "SIGUSR1", "SIGSEGV", "SIGUSR2", "SIGPIPE", "SIGALRM", "SIGTERM",
  "SIGSTKFLT", "SIGCHLD", "SIGCONT", "SIGSTOP", "SIGTSTP", "SIGTTIN", "SIGTTOU", "SIGURG",
  "SIGXCPU", "SIGXFSZ", "SIGVTALRM", "SIGPROF", "SIGWINCH", "SIGIO", "SIGPWR", "SIGSYS"]

/-- The text of an exit status. -/
def ExitStatus.message : ExitStatus → String
  | .code n => "exit status: " ++ toString n
  | .signal n =>
    "signal: " ++ toString n ++
      (match signalNames[n - 1]? with
        | some name => if n = 0 then "" else " (" ++ name ++ ")"
        | none => "")

/-- Why a tool gives no result. -/
inductive ToolError where
  /-- The program cannot be started. -/
  | spawn (program : String) (cause : OsError)
  /-- The program ends with a failure. -/
  | failed (program : String) (status : ExitStatus) (diagnostics : String)
  /-- An included file cannot be found or read. -/
  | unreadable (path : String) (cause : OsError)
  /-- A directive without a target that can be read. -/
  | directive (file : String) (line : Nat) (text : String)
  /-- Anything else, by its message. -/
  | other (text : String)
  deriving DecidableEq, Repr

/-- The text of a tool error. -/
def ToolError.message : ToolError → String
  | .spawn program _ => "Failed to start '" ++ program ++ "'"
  | .failed program status diagnostics =>
    "'" ++ program ++ "' exited with " ++ status.message ++ ": " ++ diagnostics
  | .unreadable path _ => "Failed to read include '" ++ path ++ "'"
  | .directive file line text =>
    "Malformed include directive at " ++ file ++ ":" ++ toString line ++ ": " ++ text
  | .other text => text

/-- The cause of a tool error. -/
def ToolError.causes : ToolError → List String
  | .spawn _ cause => [cause.message]
  | .unreadable _ cause => [cause.message]
  | _ => []

instance : Problem ToolError where
  message := ToolError.message
  causes := ToolError.causes

end ShaderModules
