/-!
# Blank characters and trimming

`isBlank` is the property `White_Space` of the Unicode Character Database. Trimming removes a run
of blank characters from one end or from both.

* `trimStart_eq_self`: text that does not start with a blank character is left as it is.
-/

namespace ShaderModules.Text

/-- The characters with the property `White_Space`. -/
def isBlank (c : Char) : Bool :=
  let n := c.toNat
  (0x09 ≤ n && n ≤ 0x0D) || n == 0x20 || n == 0x85 || n == 0xA0 || n == 0x1680 ||
    (0x2000 ≤ n && n ≤ 0x200A) || n == 0x2028 || n == 0x2029 || n == 0x202F || n == 0x205F ||
    n == 0x3000

/-- The text without the blank characters it starts with. -/
def trimStart (s : List Char) : List Char := s.dropWhile isBlank

/-- The text without the blank characters it ends with. -/
def trimEnd (s : List Char) : List Char := (s.reverse.dropWhile isBlank).reverse

/-- The text without the blank characters at its ends. -/
def trimmed (s : List Char) : List Char := trimEnd (trimStart s)

/-- `trimmed` on strings. -/
def trim (s : String) : String := String.ofList (trimmed s.toList)

theorem trimStart_eq_self {c : Char} {s : List Char} (h : isBlank c = false) :
    trimStart (c :: s) = c :: s := by
  simp [trimStart, h]

end ShaderModules.Text
