/-!
# Quoted text

Text as a JSON string literal. Only the quotation mark, the backslash and the control characters
below U+0020 are escaped, so every other character stands for itself.

* `quoteChar`, `quoteBody`: the written form of a character and of a text.
* `quote`: the whole literal with its quotation marks.
-/

namespace ShaderModules.Text

/-- The hexadecimal digit of a number below sixteen, in lower case. -/
def hexDigit (n : Nat) : Char := Nat.digitChar (n % 16)

/-- The written form of a character inside a literal. -/
def quoteChar (c : Char) : List Char :=
  match c with
  | '"' => ['\\', '"']
  | '\\' => ['\\', '\\']
  | '\x08' => ['\\', 'b']
  | '\t' => ['\\', 't']
  | '\n' => ['\\', 'n']
  | '\x0c' => ['\\', 'f']
  | '\r' => ['\\', 'r']
  | c =>
    if c.toNat < 0x20 then ['\\', 'u', '0', '0', hexDigit (c.toNat / 16), hexDigit c.toNat]
    else [c]

/-- The written form of a text, without the quotation marks. -/
def quoteBody (s : List Char) : List Char := s.flatMap quoteChar

/-- Text as a string literal. -/
def quote (s : String) : String := String.ofList ('"' :: quoteBody s.toList ++ ['"'])

end ShaderModules.Text
