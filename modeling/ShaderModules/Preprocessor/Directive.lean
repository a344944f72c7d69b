import ShaderModules.Text.Blank
import ShaderModules.Text.Search

/-!
# Include directives

A directive is a line of its own: `#include` or `#pragma include`, and then a target between double
quotation marks or angle brackets. Blank characters may stand around each part.

* `Line.ofText`: what a line is: plain text, a directive with its target, or a directive whose
  target cannot be read.
-/

namespace ShaderModules.Directive

/-- What a line of source text is. -/
inductive Line where
  | plain
  /-- A directive without a readable target. -/
  | malformed
  | target (path : String)
  deriving DecidableEq, Repr

/-- What follows the words of a directive in a line without leading blanks. -/
def afterHead? (s : List Char) : Option (List Char) :=
  match Text.stripPrefix? "#include".toList s with
  | some rest => some rest
  | none =>
    match Text.stripPrefix? "#pragma".toList s with
    | some rest => Text.stripPrefix? "include".toList (Text.trimStart rest)
    | none => none

/-- Whether the words of a directive end here: `#includes` is none. -/
def endsHead : List Char → Bool
  | [] => true
  | c :: _ => Text.isBlank c || c == '"' || c == '<'

/-- The text between an opening and a closing character that enclose all of it. -/
def between? (opening closing : Char) : List Char → Option (List Char)
  | c :: rest => if c = opening then Text.stripSuffix? [closing] rest else none
  | [] => none

/-- The target named by the rest of a directive. -/
def targetOf? (rest : List Char) : Option (List Char) :=
  let body := Text.trimmed rest
  let target := match between? '"' '"' body with
    | some t => some t
    | none => between? '<' '>' body
  target.filter fun t => !t.isEmpty

/-- What a line is. -/
def Line.ofText (line : List Char) : Line :=
  match afterHead? (Text.trimStart line) with
  | none => .plain
  | some rest =>
    if endsHead rest then
      match targetOf? rest with
      | some t => .target (String.ofList t)
      | none => .malformed
    else .plain

end ShaderModules.Directive
