import ShaderModules.Text.Escape
import ShaderModules.Text.Search

/-!
# Texts in TOML

Texts stand between double quotation marks, where a backslash starts an escape, or between single
ones, where nothing does. Three marks enclose a text of several lines.

* `readQuoted?`: a text of one line.
* `readText?`: any text.
-/

namespace ShaderModules.Toml

/-- A text that was read, and what follows it. -/
abbrev Scanned := Option (List Char × List Char)

/-- The same with a character in front. -/
def before (c : Char) (r : Scanned) : Scanned := r.map fun (text, rest) => (c :: text, rest)

/-- Whether a character is a blank inside a line. -/
def isSpace (c : Char) : Bool := c == ' ' || c == '\t'

/-- What follows the blanks at the start of a line. -/
def skipSpace (s : List Char) : List Char := s.dropWhile isSpace

/-- What follows the end of a line. -/
def afterLine? : List Char → Option (List Char)
  | '\n' :: rest => some rest
  | '\r' :: '\n' :: rest => some rest
  | _ => none

/-- What follows blanks and line ends. -/
def skipLines : List Char → List Char
  | ' ' :: rest => skipLines rest
  | '\t' :: rest => skipLines rest
  | '\n' :: rest => skipLines rest
  | '\r' :: '\n' :: rest => skipLines rest
  | s => s

theorem skipSpace_length (s : List Char) : (skipSpace s).length ≤ s.length :=
  (List.dropWhile_sublist _).length_le

theorem skipLines_length (s : List Char) : (skipLines s).length ≤ s.length := by
  fun_induction skipLines s with
  | case1 rest ih => exact Nat.le_succ_of_le ih
  | case2 rest ih => exact Nat.le_succ_of_le ih
  | case3 rest ih => exact Nat.le_succ_of_le ih
  | case4 rest ih => exact Nat.le_trans ih (by simp only [List.length_cons]; omega)
  | case5 => exact Nat.le_refl _

theorem afterLine?_length {s r : List Char} (h : afterLine? s = some r) : r.length < s.length := by
  unfold afterLine? at h
  split at h
  · cases h; simp
  · cases h; simp only [List.length_cons]; omega
  · cases h

/-- A text up to the mark that closes it, with escapes. -/
def readBasic? (s : List Char) : Scanned :=
  match s with
  | [] => none
  | '"' :: rest => some ([], rest)
  | '\\' :: 'u' :: rest =>
    (Text.codePoint? 4 rest).bind fun c => before c (readBasic? (rest.drop 4))
  | '\\' :: 'U' :: rest =>
    (Text.codePoint? 8 rest).bind fun c => before c (readBasic? (rest.drop 8))
  | '\\' :: c :: rest => (Text.letterEscape? c).bind fun c => before c (readBasic? rest)
  | c :: rest => if Text.isWrittenAsIs c then before c (readBasic? rest) else none
termination_by s.length
decreasing_by all_goals simp only [List.length_cons, List.length_drop]; omega

/-- A text up to the mark that closes it, without escapes. -/
def readLiteral? : List Char → Scanned
  | [] => none
  | '\x27' :: rest => some ([], rest)
  | c :: rest => if Text.isWrittenAsIs c then before c (readLiteral? rest) else none

/-- A text of several lines with escapes. A backslash at the end of a line takes the line end and
the blanks behind it away. -/
def readBasicLines? (s : List Char) : Scanned :=
  match s with
  | [] => none
  | '"' :: '"' :: '"' :: '"' :: '"' :: rest => some (['"', '"'], rest)
  | '"' :: '"' :: '"' :: '"' :: rest => some (['"'], rest)
  | '"' :: '"' :: '"' :: rest => some ([], rest)
  | '\\' :: 'u' :: rest =>
    (Text.codePoint? 4 rest).bind fun c => before c (readBasicLines? (rest.drop 4))
  | '\\' :: 'U' :: rest =>
    (Text.codePoint? 8 rest).bind fun c => before c (readBasicLines? (rest.drop 8))
  | '\\' :: c :: rest =>
    match _h : afterLine? (skipSpace (c :: rest)) with
    | some after => readBasicLines? (skipLines after)
    | none => (Text.letterEscape? c).bind fun c => before c (readBasicLines? rest)
  | '\r' :: '\n' :: rest => before '\n' (readBasicLines? rest)
  | '\n' :: rest => before '\n' (readBasicLines? rest)
  | c :: rest => if Text.isWrittenAsIs c then before c (readBasicLines? rest) else none
termination_by s.length
decreasing_by
  · simp only [List.length_cons, List.length_drop]; omega
  · simp only [List.length_cons, List.length_drop]; omega
  · have h₁ := skipLines_length after
    have h₂ := afterLine?_length _h
    have h₃ := skipSpace_length (c :: rest)
    simp only [List.length_cons] at h₃ ⊢
    omega
  · simp only [List.length_cons]; omega
  · simp only [List.length_cons]; omega
  · simp only [List.length_cons]; omega
  · simp only [List.length_cons]; omega

/-- A text of several lines without escapes. -/
def readLiteralLines? : List Char → Scanned
  | [] => none
  | '\x27' :: '\x27' :: '\x27' :: '\x27' :: '\x27' :: rest => some (['\x27', '\x27'], rest)
  | '\x27' :: '\x27' :: '\x27' :: '\x27' :: rest => some (['\x27'], rest)
  | '\x27' :: '\x27' :: '\x27' :: rest => some ([], rest)
  | '\r' :: '\n' :: rest => before '\n' (readLiteralLines? rest)
  | '\n' :: rest => before '\n' (readLiteralLines? rest)
  | c :: rest => if Text.isWrittenAsIs c then before c (readLiteralLines? rest) else none

/-- What follows a line end right behind the opening marks, which is not part of the text. -/
def dropFirstLineEnd (s : List Char) : List Char := (afterLine? s).getD s

/-- A text of one line. -/
def readQuoted? : List Char → Scanned
  | '"' :: rest => readBasic? rest
  | '\x27' :: rest => readLiteral? rest
  | _ => none

/-- A text. -/
def readText? : List Char → Scanned
  | '"' :: '"' :: '"' :: rest => readBasicLines? (dropFirstLineEnd rest)
  | '\x27' :: '\x27' :: '\x27' :: rest => readLiteralLines? (dropFirstLineEnd rest)
  | s => readQuoted? s

end ShaderModules.Toml
