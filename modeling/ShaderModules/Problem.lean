/-!
# Problems

An error is a type of causes. Every such type says what the error is in one line of text, and
gives the texts of what led to it, outermost first.

* `Problem.chain`: the text of an error and of its causes.
* `Problem.line`: the same joined into one text.
-/

namespace ShaderModules

/-- Errors with a text and with the texts of what caused them. -/
class Problem (ε : Type) where
  message : ε → String
  causes : ε → List String := fun _ => []

namespace Problem

variable {ε : Type} [Problem ε]

/-- The text of an error and the texts of its causes, outermost first. -/
def chain (e : ε) : List String := message e :: causes e

/-- An error and its causes in one text. -/
def line (e : ε) : String := ": ".intercalate (chain e)

end Problem

end ShaderModules
