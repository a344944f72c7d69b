import ShaderModules.Decimal
import ShaderModules.Text.Shown
import ShaderModules.Json.Value

/-!
# Why JSON is refused

* `Complaint`: a well-formed value that does not fit what is expected of it.
* `Reason`: anything that stops a reader of JSON text, a complaint or a break of the grammar.
* `Fault`: a reason and where it was noticed; `Fault.message` adds line and column.
-/

namespace ShaderModules.Json

/-- What a reader met where it expected something else. -/
inductive Found where
  | null
  | flag (b : Bool)
  | number (n : Number)
  | text (s : String)
  | sequence
  | map

/-- What is met at a value. -/
def Value.found : Value → Found
  | .null => .null
  | .flag b => .flag b
  | .number n => .number n
  | .text s => .text s
  | .list _ => .sequence
  | .object _ => .map

/-- The way a met value is named in a message. -/
def Found.describe : Found → String
  | .null => "null"
  | .flag b => "boolean `" ++ (if b then "true" else "false") ++ "`"
  | .number (.natural n) => "integer `" ++ toString n ++ "`"
  | .number (.negative n) => "integer `-" ++ toString n ++ "`"
  | .number (.float x) => "floating point `" ++ Decimal.jsonText x ++ "`"
  | .text s => "string " ++ Text.shown s
  | .sequence => "sequence"
  | .map => "map"

/-- Why a well-formed value does not fit. -/
inductive Complaint where
  /-- A value of another type. -/
  | wrongType (found : Found) (expected : String)
  /-- A map where a map with one key names a variant. -/
  | wrongMap
  /-- A sequence of the wrong length. -/
  | wrongLength (length : Nat) (expected : String)
  | unknownVariant (given : String) (known : List String)
  | missingField (name : String)
  | duplicateField (name : String)
  /-- A value that fits none of the forms of `form`. -/
  | noForm (form : String)

/-- Names between grave accents, joined by commas. -/
def quotedNames (names : List String) : String :=
  ", ".intercalate (names.map fun n => "`" ++ n ++ "`")

/-- The names a choice allows, in a message. -/
def choices : List String → String
  | [a, b] => "`" ++ a ++ "` or `" ++ b ++ "`"
  | names => if names.length ≤ 1 then quotedNames names else "one of " ++ quotedNames names

/-- The text of a complaint. -/
def Complaint.message : Complaint → String
  | .wrongType found expected => "invalid type: " ++ found.describe ++ ", expected " ++ expected
  | .wrongMap => "invalid value: map, expected map with a single key"
  | .wrongLength n expected => "invalid length " ++ toString n ++ ", expected " ++ expected
  | .unknownVariant given known =>
    "unknown variant `" ++ given ++ "`, expected " ++ choices known
  | .missingField name => "missing field `" ++ name ++ "`"
  | .duplicateField name => "duplicate field `" ++ name ++ "`"
  | .noForm form => "data did not match any variant of untagged enum " ++ form

/-- Why the reading of JSON text stops. -/
inductive Reason where
  | endInValue
  | endInList
  | endInObject
  | endInString
  | expectedValue
  | expectedWord
  | expectedColon
  | expectedCommaOrBracket
  | expectedCommaOrBrace
  | keyNotString
  | trailingComma
  | trailingCharacters
  | badNumber
  | numberOutOfRange
  | badEscape
  | endOfHexEscape
  | loneSurrogate
  | controlCharacter
  | tooDeep
  | unfit (complaint : Complaint)

/-- The text of a reason. -/
def Reason.message : Reason → String
  | .endInValue => "EOF while parsing a value"
  | .endInList => "EOF while parsing a list"
  | .endInObject => "EOF while parsing an object"
  | .endInString => "EOF while parsing a string"
  | .expectedValue => "expected value"
  | .expectedWord => "expected ident"
  | .expectedColon => "expected `:`"
  | .expectedCommaOrBracket => "expected `,` or `]`"
  | .expectedCommaOrBrace => "expected `,` or `\x7d`"
  | .keyNotString => "key must be a string"
  | .trailingComma => "trailing comma"
  | .trailingCharacters => "trailing characters"
  | .badNumber => "invalid number"
  | .numberOutOfRange => "number out of range"
  | .badEscape => "invalid escape"
  | .endOfHexEscape => "unexpected end of hex escape"
  | .loneSurrogate => "lone leading surrogate in hex escape"
  | .controlCharacter =>
    "control character (\\u0000-\\u001F) found while parsing a string"
  | .tooDeep => "recursion limit exceeded"
  | .unfit complaint => complaint.message

/-- A reason with the text that was still unread when it was noticed. The place of the fault is
`ahead` bytes into that text. A fault that is not `placed` is placed by the next enclosing
bracket, once that is closed. -/
structure Fault where
  reason : Reason
  rest : List Char
  ahead : Nat
  placed : Bool

/-- A fault where the unread text is `rest`. -/
def Fault.here (reason : Reason) (rest : List Char) : Fault := ⟨reason, rest, 0, true⟩

/-- A fault at the next byte of the unread text, which counts towards its place. -/
def Fault.next (reason : Reason) (rest : List Char) : Fault := ⟨reason, rest, 1, true⟩

/-- A complaint that waits for the enclosing bracket to be closed. -/
def Fault.pending (complaint : Complaint) (rest : List Char) : Fault :=
  ⟨.unfit complaint, rest, 0, false⟩

/-- The number of bytes of a text in UTF-8. -/
def byteCount (s : List Char) : Nat := s.foldl (fun n c => n + c.utf8Size) 0

/-- Line and column after some bytes: the line counts from one, and the column counts the bytes
since the last line feed. -/
def position (bytes : List UInt8) : Nat × Nat :=
  bytes.foldl (fun (p : Nat × Nat) (b : UInt8) => if b == 10 then (p.1 + 1, 0) else (p.1, p.2 + 1))
    (1, 0)

/-- Line and column of a fault in the whole text. -/
def Fault.position (text : List Char) (f : Fault) : Nat × Nat :=
  let bytes := (String.ofList text).toUTF8.data.toList
  Json.position (bytes.take (bytes.length - byteCount f.rest + f.ahead))

/-- The text of a fault met while reading `text`. -/
def Fault.message (text : List Char) (f : Fault) : String :=
  if f.placed then
    let (line, column) := f.position text
    f.reason.message ++ " at line " ++ toString line ++ " column " ++ toString column
  else f.reason.message

end ShaderModules.Json
