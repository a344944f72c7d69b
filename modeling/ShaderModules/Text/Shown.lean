import ShaderModules.Text.Printable

/-!
# Text shown in messages

Diagnostics show a text between quotation marks, on one line: the tabulator, line ends, the
backslash, the mark itself and the null character have short escapes, and every other character
that is not printable is written by its code point in braces.

* `shown`: a text between double quotation marks.
* `shownChar`: a character between single quotation marks.
* `shownPath`: a path between double quotation marks, where a single one has an escape too.
-/

namespace ShaderModules.Text

/-- The form in which a character is shown, where `marks` are the quotation marks that have an
escape. -/
def showChar (marks : List Char) (c : Char) : List Char :=
  if marks.contains c then ['\\', c]
  else match c with
  | '\x00' => ['\\', '0']
  | '\t' => ['\\', 't']
  | '\r' => ['\\', 'r']
  | '\n' => ['\\', 'n']
  | '\\' => ['\\', '\\']
  | c =>
    if isPrintable c then [c]
    else ['\\', 'u', '\x7b'] ++ Nat.toDigits 16 c.toNat ++ ['\x7d']

/-- A text between double quotation marks. -/
def shown (s : String) : String :=
  String.ofList ('"' :: s.toList.flatMap (showChar ['"']) ++ ['"'])

/-- A character between single quotation marks. -/
def shownChar (c : Char) : String := String.ofList ('\x27' :: showChar ['\x27'] c ++ ['\x27'])

/-- A path between double quotation marks. -/
def shownPath (p : String) : String :=
  String.ofList ('"' :: p.toList.flatMap (showChar ['"', '\x27']) ++ ['"'])

end ShaderModules.Text
