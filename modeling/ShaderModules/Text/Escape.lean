/-!
# Escapes in quoted text

Between double quotation marks, a backslash starts an escape: a single letter, or the code point
of a character in four or eight hexadecimal digits.

* `letterEscape?`, `codePoint?`: the characters of escapes.
* `isWrittenAsIs`: the characters that need none.
-/

namespace ShaderModules.Text

/-- The value of a hexadecimal digit. -/
def hexValue? (c : Char) : Option Nat :=
  if c.isDigit then some (c.toNat - '0'.toNat)
  else if 'a' ≤ c && c ≤ 'f' then some (c.toNat - 'a'.toNat + 10)
  else if 'A' ≤ c && c ≤ 'F' then some (c.toNat - 'A'.toNat + 10)
  else none

/-- The number that hexadecimal digits spell. -/
def hexNumber? (digits : List Char) : Option Nat :=
  digits.foldlM (fun n c => (hexValue? c).map (n * 16 + ·)) 0

/-- The character of a code point given by `count` hexadecimal digits. -/
def codePoint? (count : Nat) (s : List Char) : Option Char := do
  if (s.take count).length < count then none
  let n ← hexNumber? (s.take count)
  if n.isValidChar then some (Char.ofNat n) else none

/-- The character of an escape that is a single letter. -/
def letterEscape? : Char → Option Char
  | '"' => some '"'
  | '\\' => some '\\'
  | 'b' => some '\x08'
  | 'f' => some '\x0c'
  | 'n' => some '\n'
  | 'r' => some '\r'
  | 't' => some '\t'
  | _ => none

/-- Whether a character may stand in a text as it is. -/
def isWrittenAsIs (c : Char) : Bool := c == '\t' || (' ' ≤ c && c ≠ '\x7f')

end ShaderModules.Text
