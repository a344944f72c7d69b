/-!
# Lines

A line ends at a line feed or at the end of the text; one carriage return before the line feed
belongs to the line end. A text that ends with a line feed has no empty last line.

* `lines`: the lines of a text, without their ends.
-/

namespace ShaderModules.Text

/-- A line, given in reverse, without the carriage return that belongs to its end. -/
def closeLine : List Char → List Char
  | '\r' :: line => line.reverse
  | line => line.reverse

/-- The lines of a text, where `line` is the line under way, in reverse. -/
def linesFrom (line : List Char) : List Char → List (List Char)
  | [] => if line.isEmpty then [] else [line.reverse]
  | '\n' :: rest => closeLine line :: linesFrom [] rest
  | c :: rest => linesFrom (c :: line) rest

/-- The lines of a text, without their ends. -/
def lines (s : List Char) : List (List Char) := linesFrom [] s

end ShaderModules.Text
