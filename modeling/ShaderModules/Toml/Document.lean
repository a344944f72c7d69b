import ShaderModules.Toml.Scalar
import ShaderModules.Toml.Table
import ShaderModules.Toml.Text

/-!
# TOML documents

* `readKey?`: a key, in its parts between dots.
* `readValue?`: a value.
* `parse?`: the entries of a document; none when the text is not a document.
-/

namespace ShaderModules.Toml

/-- Values and keys that are nested this deep, or deeper, are refused. -/
def maxDepth : Nat := 80

/-! ## Keys -/

/-- The characters of keys without quotation marks. -/
def isKeyChar (c : Char) : Bool := c.isAlphanum || c == '_' || c == '-'

/-- A part of a key. -/
def readKeyPart? (s : List Char) : Scanned :=
  match s.head? with
  | some '"' => readQuoted? s
  | some '\x27' => readQuoted? s
  | _ =>
    let part := s.takeWhile isKeyChar
    if part.isEmpty then none else some (part, s.drop part.length)

/-- The parts of a key from the next one on; `fuel` bounds their number. -/
def readKeyParts? (fuel : Nat) (s : List Char) : Option (List String × List Char) :=
  match fuel with
  | 0 => none
  | fuel + 1 => do
    let (part, rest) ← readKeyPart? (skipSpace s)
    match skipSpace rest with
    | '.' :: rest =>
      let (parts, rest) ← readKeyParts? fuel rest
      return (String.ofList part :: parts, rest)
    | rest => return ([String.ofList part], rest)

/-- A key, in its parts. -/
def readKey? (s : List Char) : Option (List String × List Char) :=
  readKeyParts? (maxDepth - 1) s

/-! ## Values -/

/-- What follows a comment; the line end stays. -/
def skipComment? : List Char → Option (List Char)
  | '#' :: rest => some (rest.dropWhile Text.isWrittenAsIs)
  | _ => none

/-- What follows blanks, line ends and comments, each of which ends with its line; `fuel` bounds
the number of comments. -/
def skipFiller? (fuel : Nat) (s : List Char) : Option (List Char) :=
  match fuel with
  | 0 => none
  | fuel + 1 =>
    let s := skipLines s
    match skipComment? s with
    | none => some s
    | some rest => (afterLine? rest).bind (skipFiller? fuel)

/-- What is read next. -/
inductive Part where
  | value
  /-- The items of a list, the latest first. -/
  | items (read : List Value)
  /-- The entries of a table in one line. -/
  | entries (read : Entries)

/-- Reads a value, or the rest of a list or a table, inside `depth` others; `fuel` bounds the
number of parts. -/
def readPart? (fuel depth : Nat) (part : Part) (s : List Char) : Option (Value × List Char) :=
  match fuel with
  | 0 => none
  | fuel + 1 =>
    match part with
    | .value =>
      match s with
      | '"' :: _ => (readText? s).map fun (t, rest) => (.text (String.ofList t), rest)
      | '\x27' :: _ => (readText? s).map fun (t, rest) => (.text (String.ofList t), rest)
      | '[' :: rest =>
        if maxDepth ≤ depth + 1 then none else readPart? fuel (depth + 1) (.items []) rest
      | '\x7b' :: rest =>
        if maxDepth ≤ depth + 1 then none
        else match skipSpace rest with
          | '\x7d' :: rest => some (.table [], rest)
          | rest => readPart? fuel (depth + 1) (.entries []) rest
      | s => readScalar? s
    | .items read => do
      match ← skipFiller? fuel s with
      | ']' :: rest => return (.list read.reverse, rest)
      | s =>
        let (v, rest) ← readPart? fuel depth .value s
        match ← skipFiller? fuel rest with
        | ',' :: rest => readPart? fuel depth (.items (v :: read)) rest
        | ']' :: rest => return (.list (v :: read).reverse, rest)
        | _ => none
    | .entries read => do
      let (path, rest) ← readKey? s
      let rest ← char? '=' rest
      let (v, rest) ← readPart? fuel depth .value (skipSpace rest)
      let key ← path.getLast?
      let read ← read.addValue? path.dropLast key v
      match skipSpace rest with
      | ',' :: rest => readPart? fuel depth (.entries read) rest
      | '\x7d' :: rest => return (.table (Entries.entryValues read), rest)
      | _ => none

/-- A value, and what follows it. -/
def readValue? (s : List Char) : Option (Value × List Char) :=
  readPart? (2 * s.length + 2) 0 .value s

/-! ## Lines -/

/-- What has been read of a document: the entries, and the table that the last header opened. -/
structure Progress where
  entries : Entries := []
  header : List String := []

/-- What follows the rest of a line, which holds at most a comment. -/
def endLine? (s : List Char) : Option (List Char) :=
  let s := skipSpace s
  match (skipComment? s).getD s with
  | [] => some []
  | rest => afterLine? rest

/-- Reads a line that is not blank. -/
def readLine? (p : Progress) (s : List Char) : Option (Progress × List Char) :=
  match s with
  | '[' :: '[' :: rest => do
    let (path, rest) ← readKey? rest
    let rest ← Text.stripPrefix? [']', ']'] rest
    return ({ entries := ← p.entries.openElement? path, header := path }, ← endLine? rest)
  | '[' :: rest => do
    let (path, rest) ← readKey? rest
    let rest ← char? ']' rest
    return ({ entries := ← p.entries.openTable? path, header := path }, ← endLine? rest)
  | s => do
    let (path, rest) ← readKey? s
    let rest ← char? '=' rest
    let (v, rest) ← readValue? (skipSpace rest)
    let key ← path.getLast?
    return ({ p with entries := ← p.entries.assign? p.header path.dropLast key v },
      ← endLine? rest)

/-- Reads the lines of a document; `fuel` bounds their number. -/
def readLines? (fuel : Nat) (p : Progress) (s : List Char) : Option Progress :=
  match fuel with
  | 0 => none
  | fuel + 1 =>
    let s := skipLines s
    match s, skipComment? s with
    | [], _ => some p
    | _, some [] => some p
    | _, some rest => (afterLine? rest).bind (readLines? fuel p)
    | s, none => do
      let (p, rest) ← readLine? p s
      readLines? fuel p rest

/-- A text without the mark of its byte order in front. -/
def dropByteOrderMark (s : List Char) : List Char := (Text.stripPrefix? ['\uFEFF'] s).getD s

/-- The entries of a document. -/
def parse? (text : String) : Option (List (String × Value)) :=
  let s := dropByteOrderMark text.toList
  (readLines? (s.length + 1) {} s).map fun p => Entries.entryValues p.entries

end ShaderModules.Toml
