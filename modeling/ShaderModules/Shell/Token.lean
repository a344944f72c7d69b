/-!
# Tokens of a shell script

A script is read character by character. Blanks and operators separate words; quotation marks, the
backslash and the dollar sign act inside words.

* `Part`, `Word`: a word is a list of parts, each of which is expanded on its own.
* `Token`: words and operators.
* `tokens`: the tokens of a script.
-/

namespace ShaderModules.Shell

/-- A part of a word. Quoted parts are not split into fields. -/
inductive Part where
  | literal (text : List Char) (quoted : Bool)
  /-- The value of a parameter, or of `fallback` where it has none. -/
  | parameter (name : String) (fallback : Option (List Char)) (quoted : Bool)
  /-- What a script writes. -/
  | output (script : List Char) (quoted : Bool)
  deriving DecidableEq, Repr

/-- A word before its expansion. -/
abbrev Word := List Part

/-- A word or an operator. -/
inductive Token where
  | word (w : Word)
  /-- A control operator; a line feed is one. -/
  | control (text : String)
  /-- A redirection of a stream, without its target. -/
  | redirect (stream : Nat) (text : String)
  deriving DecidableEq, Repr

/-- What the next character belongs to. -/
inductive Mode where
  /-- Blanks between words. -/
  | between
  | comment
  /-- A word, outside quotation marks. -/
  | plain
  /-- The character behind a backslash. -/
  | escaped (quoted : Bool)
  | single
  | double
  /-- What follows a dollar sign. -/
  | dollar (quoted : Bool)
  /-- The name of a parameter, in reverse. -/
  | name (quoted : Bool) (text : List Char)
  /-- A parameter between braces, in reverse. -/
  | braces (quoted : Bool) (text : List Char)
  /-- A script between parentheses, in reverse, with the number of parentheses open. -/
  | script (quoted : Bool) (depth : Nat) (text : List Char)
  /-- A script between back quotes, in reverse. -/
  | backQuote (quoted : Bool) (text : List Char)
  /-- An operator that may go on. -/
  | operator (text : String)
  /-- The same for a redirection. -/
  | arrow (stream : Nat) (text : String)
  deriving DecidableEq, Repr

/-- What has been read of a script. Lists are in reverse. -/
structure Scanner where
  mode : Mode := .between
  /-- Characters of the part under way. -/
  text : List Char := []
  /-- Whether the part under way is quoted. -/
  quoted : Bool := false
  /-- The parts of the word under way. -/
  parts : List Part := []
  done : List Token := []
  deriving Repr

namespace Scanner

/-- Ends the part under way. -/
def endPart (s : Scanner) : Scanner :=
  if s.text.isEmpty then s
  else { s with text := [], parts := .literal s.text.reverse s.quoted :: s.parts }

/-- Adds a part to the word under way. -/
def addPart (s : Scanner) (p : Part) : Scanner :=
  let s := s.endPart
  { s with parts := p :: s.parts }

/-- Adds a character to the word under way. -/
def addChar (s : Scanner) (quoted : Bool) (c : Char) : Scanner :=
  let s := if s.quoted = quoted then s else { s.endPart with quoted := quoted }
  { s with text := c :: s.text }

/-- Ends the word under way, if there is one. -/
def endWord (s : Scanner) : Scanner :=
  let s := s.endPart
  if s.parts.isEmpty then s
  else { s with parts := [], done := .word s.parts.reverse :: s.done }

/-- The mode to go back to. -/
def back (s : Scanner) (quoted : Bool) : Scanner :=
  { s with mode := if quoted then .double else .plain }

/-- Ends a parameter between braces. -/
def endBraces (s : Scanner) (quoted : Bool) (text : List Char) : Scanner :=
  let name := text.takeWhile fun c => c != ':' && c != '-'
  let fallback := match text.drop name.length with
    | ':' :: '-' :: rest => some rest
    | '-' :: rest => some rest
    | _ => none
  (s.addPart (.parameter (String.ofList name) fallback quoted)).back quoted

/-- Ends a quotation. One that holds nothing still makes a word. -/
def endQuote (s : Scanner) : Scanner :=
  if s.text.isEmpty && s.parts.isEmpty then
    { s with mode := .plain, parts := [.literal [] true] }
  else { s with mode := .plain }

/-- Adds a control operator. -/
def endOperator (s : Scanner) (text : String) : Scanner :=
  { s with mode := .between, done := .control text :: s.done }

/-- Adds a redirection. -/
def endArrow (s : Scanner) (stream : Nat) (text : String) : Scanner :=
  { s with mode := .between, done := .redirect stream text :: s.done }

/-- The stream that a word in front of a redirection names. -/
def stream? (s : Scanner) : Option Nat :=
  if s.parts.isEmpty && !s.quoted && s.text.length == 1 && s.text.all Char.isDigit then
    s.text.head?.map fun c => c.toNat - '0'.toNat
  else none

/-- Starts a redirection. -/
def startArrow (s : Scanner) (c : Char) : Scanner :=
  match s.stream? with
  | some n => { s with text := [], mode := .arrow n c.toString }
  | none => { s.endWord with mode := .arrow (if c = '<' then 0 else 1) c.toString }

/-- Reads a character outside quotation marks. -/
def readPlain (s : Scanner) (c : Char) : Scanner :=
  match c with
  | ' ' | '\t' => { s.endWord with mode := .between }
  | '\n' => s.endWord.endOperator "\n"
  | ';' | '&' | '|' => { s.endWord with mode := .operator c.toString }
  | '(' | ')' => s.endWord.endOperator c.toString
  | '<' | '>' => s.startArrow c
  | '\\' => { s with mode := .escaped false }
  | '\x27' => { s with mode := .single }
  | '"' => { s with mode := .double }
  | '$' => { s with mode := .dollar false }
  | '\x60' => { s with mode := .backQuote false [] }
  | '#' =>
    if s.mode = .between then { s with mode := .comment }
    else { s.addChar false c with mode := .plain }
  | c => { s.addChar false c with mode := .plain }

/-- Reads a character between double quotation marks. -/
def readDouble (s : Scanner) (c : Char) : Scanner :=
  match c with
  | '"' => s.endQuote
  | '\\' => { s with mode := .escaped true }
  | '$' => { s with mode := .dollar true }
  | '\x60' => { s with mode := .backQuote true [] }
  | c => s.addChar true c

/-- Reads a character in quotes or not. -/
def readIn (s : Scanner) (quoted : Bool) (c : Char) : Scanner :=
  let s := s.back quoted
  if quoted then s.readDouble c else s.readPlain c

/-- The characters of names. -/
def isNameChar (c : Char) : Bool := c.isAlphanum || c == '_'

/-- Reads the character behind a dollar sign. -/
def readDollar (s : Scanner) (quoted : Bool) (c : Char) : Scanner :=
  if c = '\x7b' then { s with mode := .braces quoted [] }
  else if c = '(' then { s with mode := .script quoted 0 [] }
  else if c.isDigit || "@*#?$!-".toList.contains c then
    (s.addPart (.parameter c.toString none quoted)).back quoted
  else if isNameChar c then { s with mode := .name quoted [c] }
  else (s.addChar quoted '$').readIn quoted c

/-- Reads a character. -/
def read (s : Scanner) (c : Char) : Scanner :=
  match s.mode with
  | .between | .plain => s.readPlain c
  | .comment => if c = '\n' then s.endOperator "\n" else s
  | .escaped false =>
    if c = '\n' then { s with mode := .plain } else { s.addChar true c with mode := .plain }
  | .escaped true =>
    if c = '\n' then { s with mode := .double }
    else if "$`\"\\".toList.contains c then { s.addChar true c with mode := .double }
    else { (s.addChar true '\\').addChar true c with mode := .double }
  | .single =>
    if c = '\x27' then s.endQuote else s.addChar true c
  | .double => s.readDouble c
  | .dollar quoted => s.readDollar quoted c
  | .name quoted text =>
    if isNameChar c then { s with mode := .name quoted (c :: text) }
    else (s.addPart (.parameter (String.ofList text.reverse) none quoted)).readIn quoted c
  | .braces quoted text =>
    if c = '\x7d' then s.endBraces quoted text.reverse
    else { s with mode := .braces quoted (c :: text) }
  | .script quoted depth text =>
    match c, depth with
    | ')', 0 => (s.addPart (.output text.reverse quoted)).back quoted
    | ')', n + 1 => { s with mode := .script quoted n (c :: text) }
    | '(', n => { s with mode := .script quoted (n + 1) (c :: text) }
    | c, n => { s with mode := .script quoted n (c :: text) }
  | .backQuote quoted text =>
    if c = '\x60' then (s.addPart (.output text.reverse quoted)).back quoted
    else { s with mode := .backQuote quoted (c :: text) }
  | .operator text =>
    if text = c.toString then s.endOperator (text ++ c.toString)
    else (s.endOperator text).readPlain c
  | .arrow stream text =>
    if text.length = 1 && (c = '&' || c = '>') then s.endArrow stream (text ++ c.toString)
    else (s.endArrow stream text).readPlain c

/-- The tokens, at the end of a script; none when a quotation is not closed. -/
def finish? (s : Scanner) : Option (List Token) :=
  match s.mode with
  | .between | .plain | .comment => some s.endWord.done.reverse
  | .escaped false => some (s.addChar false '\\').endWord.done.reverse
  | .dollar false => some (s.addChar false '$').endWord.done.reverse
  | .name false text =>
    some (s.addPart (.parameter (String.ofList text.reverse) none false)).endWord.done.reverse
  | .operator text => some (s.endOperator text).done.reverse
  | .arrow stream text => some (s.endArrow stream text).done.reverse
  | _ => none

end Scanner

/-- The tokens of a script; none when a quotation is not closed. -/
def tokens? (script : List Char) : Option (List Token) :=
  (script.foldl Scanner.read {}).finish?

end ShaderModules.Shell
