import ShaderModules.Config.Reading
import ShaderModules.Decimal.Numeral
import ShaderModules.Text.Blank
import ShaderModules.Text.Escape
import ShaderModules.Text.Search

/-!
# Settings in environment variables

A variable names a setting by its keys, and its value is written in a small notation: truth
values, numbers, texts and characters between quotation marks, lists and tables. Any other text
stands for itself.

* `Variable.readValue`: the notation of values.
* `Variable.layer`: the layer of all variables.
-/

namespace ShaderModules.Variable

/-! ## Values -/

/-- The white space around values. -/
def isSpace (c : Char) : Bool :=
  c == ' ' || c == '\t' || c == '\n' || c == '\r' || c == '\x0c'

/-- The text without the white space it starts with. -/
def skipSpace (s : List Char) : List Char := s.dropWhile isSpace

/-- The characters that end a value without quotation marks. -/
def isSeparator (c : Char) : Bool := [',', '\x7b', '\x7d', '[', ']'].contains c

/-- The characters of keys without quotation marks. -/
def isKeyChar (c : Char) : Bool := c.isAlphanum || c == '_' || c == '-'

/-- The text up to the closing quotation mark with its escapes resolved, and what follows. -/
def readText? (s : List Char) : Option (List Char × List Char) :=
  match s with
  | [] => none
  | '"' :: rest => some ([], rest)
  | '\\' :: 'u' :: rest => do
    let c ← Text.codePoint? 4 rest
    let (text, rest) ← readText? (rest.drop 4)
    return (c :: text, rest)
  | '\\' :: 'U' :: rest => do
    let c ← Text.codePoint? 8 rest
    let (text, rest) ← readText? (rest.drop 8)
    return (c :: text, rest)
  | '\\' :: c :: rest => do
    let c ← Text.letterEscape? c
    let (text, rest) ← readText? rest
    return (c :: text, rest)
  | c :: rest => do
    if !Text.isWrittenAsIs c then none
    let (text, rest) ← readText? rest
    return (c :: text, rest)
termination_by s.length
decreasing_by all_goals simp only [List.length_cons, List.length_drop]; omega

/-- What a text without quotation marks means. -/
def bareValue (s : List Char) : Scalar :=
  match (if s.contains '.' then Decimal.float? s else none) with
  | some x => .float x
  | none =>
    match Decimal.natural? Decimal.wordLimit s, s with
    | some n, _ => .natural n
    | none, '-' :: digits =>
      if digits.head?.any Char.isDigit then
        match Decimal.natural? (Decimal.halfWord + 1) digits with
        | some n => .integer (-n)
        | none => .text (String.ofList s)
      else .text (String.ofList s)
    | none, s => .text (String.ofList s)

/-- A key, and what follows it. -/
def readKey? : List Char → Option (String × List Char)
  | '"' :: rest => (readText? rest).map fun (k, rest) => (String.ofList k, rest)
  | s =>
    let key := s.takeWhile isKeyChar
    if key.isEmpty then none else some (String.ofList key, s.drop key.length)

/-- A setting of this layer. -/
def scalar (v : Scalar) : Setting := .scalar .environment v

/-- What is read next. -/
inductive Part where
  | value
  /-- The items of a list, the latest first. -/
  | items (read : List Setting)
  /-- The entries of a table. -/
  | entries (read : Keyed Setting)

/-- Reads a value, or the rest of a list or a table; `fuel` bounds the number of parts. -/
def readPart? (fuel : Nat) (part : Part) (s : List Char) : Option (Setting × List Char) :=
  match fuel with
  | 0 => none
  | fuel + 1 =>
    match part with
    | .value => do
      let s := skipSpace s
      let (v, rest) ←
        match Text.stripPrefix? "true".toList s, Text.stripPrefix? "false".toList s, s with
        | some rest, _, _ => some (scalar (.flag true), rest)
        | _, some rest, _ => some (scalar (.flag false), rest)
        | _, _, '\x7b' :: rest => readPart? fuel (.entries []) rest
        | _, _, '[' :: rest => readPart? fuel (.items []) rest
        | _, _, '"' :: rest =>
          (readText? rest).map fun (t, rest) => (scalar (.text (String.ofList t)), rest)
        | _, _, '\x27' :: c :: '\x27' :: rest => some (scalar (.character c), rest)
        | _, _, '\x27' :: _ => none
        | _, _, s =>
          let text := s.takeWhile fun c => !isSeparator c
          some (scalar (bareValue (Text.trimmed text)), s.drop text.length)
      return (v, skipSpace rest)
    | .items read =>
      match s with
      | ']' :: rest => return (.list .environment read.reverse, rest)
      | s => do
        let (v, rest) ← readPart? fuel .value s
        match rest with
        | ',' :: rest => readPart? fuel (.items (v :: read)) rest
        | ']' :: rest => return (.list .environment (v :: read).reverse, rest)
        | _ => none
    | .entries read =>
      match s with
      | '\x7d' :: rest => return (.table .environment read, rest)
      | s => do
        let (k, rest) ← readKey? (skipSpace s)
        match skipSpace rest with
        | '=' :: rest =>
          let (v, rest) ← readPart? fuel .value rest
          let read := Keyed.insert k v read
          match rest with
          | ',' :: rest => readPart? fuel (.entries read) rest
          | '\x7d' :: rest => return (.table .environment read, rest)
          | _ => none
        | _ => none

/-- What the text of a variable means. A text that is not in the notation stands for itself. -/
def readValue (text : String) : Setting :=
  let s := text.toList
  match readPart? (2 * s.length + 2) .value s with
  | some (v, []) => v
  | _ => scalar (.text text)

/-! ## Names -/

/-- A text in lower case, for comparing names. -/
def folded (s : List Char) : List Char := s.map Char.toLower

/-- The keys that the name of a variable stands for; none for other variables. -/
def keys? (name : String) : Option (List String) := do
  let rest ← Text.stripPrefix? (folded environmentPrefix.toList)
    (folded (Text.trimmed name.toList))
  let dotted := Text.replaceAll ['_', '_'] ['.'] rest
  let keys := (Text.splitOn ['.'] (Text.trimmed dotted)).map String.ofList
  if keys.contains "" then none else some keys

/-- The layer of environment variables, a later one on top of those before it. -/
def layer (environment : List (String × String)) : Setting :=
  environment.foldl (fun layer (name, value) =>
    match keys? name with
    | some keys => layer.merge (Setting.nest .environment keys (readValue value))
    | none => layer) (.table .environment [])

end ShaderModules.Variable
