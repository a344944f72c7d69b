import ShaderModules.Glob.Pattern

/-!
# What glob patterns match

Patterns match the bytes of a path. A token is run backwards: it takes the places from which the
rest of the pattern matches to the places from which the pattern with the token in front matches.
Places are given as a row of truth values, one for each byte and one for the end, so that no
pattern takes more than linear time per token.

Patterns of a few simple shapes are matched by comparing text, which differs from running their
tokens where a path holds line feeds (`Shape`).

* `backAll`: the row of a list of tokens.
* `Shape.ofTokens`, `Shape.matches`: the shapes and what they compare.
* `Glob.compile`, `Glob.matches`: whole patterns.
-/

namespace ShaderModules.Glob

/-- The bytes of a text. -/
def bytesOf (s : List Char) : List UInt8 := (String.ofList s).toUTF8.data.toList

/-- The bytes of a character. -/
def charBytes (c : Char) : List UInt8 := bytesOf [c]

/-! ## Rows -/

/-- One byte with property `p`, in front of the row. -/
def backByte (p : UInt8 → Bool) : List UInt8 → List Bool → List Bool
  | b :: s, _ :: row => (p b && row.headD false) :: backByte p s row
  | _, _ => [false]

/-- Any number of bytes with property `p`, in front of the row. -/
def backMany (p : UInt8 → Bool) : List UInt8 → List Bool → List Bool
  | b :: s, r :: row =>
    let tail := backMany p s row
    (r || (p b && tail.headD false)) :: tail
  | _, row => row

/-- The places of either row. -/
def either (a b : List Bool) : List Bool := List.zipWith (· || ·) a b

/-- Whether a byte is a slash. -/
def isSlash (b : UInt8) : Bool := b == 47

/-- Whether a byte is no slash. -/
def isPlain (b : UInt8) : Bool := b != 47

/-- Whether a byte is no line feed. -/
def isInline (b : UInt8) : Bool := b != 10

/-- Whether a byte belongs to the bytes of a range of characters. Between two different characters
the last byte of the first and the first byte of the second are the ends of a range of bytes. -/
def inRange (b : UInt8) (range : Char × Char) : Bool :=
  let (first, last) := range
  if first = last then (charBytes first).contains b
  else
    let low := charBytes first
    let high := charBytes last
    low.dropLast.contains b || high.tail.contains b ||
      (low.getLastD 0 ≤ b && b ≤ high.headD 0)

/-! ## Tokens -/

mutual

/-- Whether a token is a group without any alternative that holds a token. -/
def Token.isVoid : Token → Bool
  | .alternatives branches => allVoid branches
  | _ => false

/-- Whether all tokens are void. -/
def isVoidBranch : List Token → Bool
  | [] => true
  | t :: rest => t.isVoid && isVoidBranch rest

/-- Whether all branches are void. -/
def allVoid : List (List Token) → Bool
  | [] => true
  | b :: rest => isVoidBranch b && allVoid rest

end

mutual

/-- The row of a token in front of a row. -/
def Token.back (s : List UInt8) : Token → List Bool → List Bool
  | .literal c, row => (charBytes c).foldr (fun b row => backByte (· == b) s row) row
  | .any, row => backByte isPlain s row
  | .many, row => backMany isPlain s row
  | .leadingTree, row =>
    either row (either (backByte isSlash s row) (backMany isInline s (backByte isSlash s row)))
  | .trailingTree, row => backByte isSlash s (backMany isInline s row)
  | .innerTree, row =>
    backByte isSlash s (either row (backMany isInline s (backByte isSlash s row)))
  | .oneOf negated ranges, row => backByte (fun b => ranges.any (inRange b) != negated) s row
  | .alternatives branches, row => if allVoid branches then row else backAny s branches row

/-- The row of a list of tokens in front of a row. -/
def backAll (s : List UInt8) : List Token → List Bool → List Bool
  | [], row => row
  | t :: rest, row => t.back s (backAll s rest row)

/-- The places of any branch that holds a token, in front of a row. -/
def backAny (s : List UInt8) : List (List Token) → List Bool → List Bool
  | [], row => row.map fun _ => false
  | b :: rest, row =>
    if isVoidBranch b then backAny s rest row
    else either (backAll s b row) (backAny s rest row)

end

/-- The row at the end of a text: only its end. -/
def endRow : List UInt8 → List Bool
  | [] => [true]
  | _ :: s => false :: endRow s

/-- Whether tokens match a whole text. The pattern `**` matches every text on one line. -/
def tokensMatch (tokens : List Token) (s : List UInt8) : Bool :=
  match tokens with
  | [.leadingTree] => s.all isInline
  | _ => (backAll s tokens (endRow s)).headD false

/-! ## Shapes -/

/-- The characters of tokens that are all literal. -/
def literals? : List Token → Option (List Char)
  | [] => some []
  | .literal c :: rest => (literals? rest).map (c :: ·)
  | _ :: _ => none

/-- The shape of a pattern, as far as it decides how the pattern is matched. -/
inductive Shape where
  /-- `**/name`: the last segment is the name. -/
  | name (text : List Char)
  /-- No wildcards: the path is the text. -/
  | whole (text : List Char)
  /-- `**/*.ext`: the last segment has the extension. -/
  | extension (text : List Char)
  /-- `dir/**`: the path starts with the text, which ends in a slash. -/
  | below (text : List Char)
  /-- `**/a/b`: the path is the text or ends with it after a slash. -/
  | ending (text : List Char)
  /-- The pattern ends in an extension, which is compared first. -/
  | withExtension (text : List Char) (tokens : List Token)
  | general (tokens : List Token)
  deriving Repr

/-- The extension that literal characters spell: a dot and then neither dots nor slashes. -/
def extension? : List Token → Option (List Char)
  | .literal '.' :: rest =>
    match literals? rest with
    | some l => if l.contains '.' || l.contains '/' then none else some ('.' :: l)
    | none => none
  | _ => none

/-- The extension at the end of a pattern, from its tokens in reverse. -/
def lastExtension? (read : List Char) : List Token → Option (List Char)
  | .literal c :: rest =>
    if c = '/' then none else if c = '.' then some (c :: read) else lastExtension? (c :: read) rest
  | _ => none

/-- The shape of a pattern that starts with `**/`, from the tokens that follow. -/
def shapeInTree (rest : List Token) : Option Shape :=
  match literals? rest with
  | some [] => none
  | some l => some (if l.contains '/' then .ending l else .name l)
  | none =>
    match rest with
    | .many :: rest => (extension? rest).map .extension
    | _ => none

/-- The shape of a pattern without wildcards, except for a last `/**`. -/
def plainShape (tokens : List Token) : Option Shape :=
  match literals? tokens with
  | some [] => none
  | some l => some (.whole l)
  | none =>
    match tokens.reverse with
    | .trailingTree :: before => (literals? before.reverse).map fun l => .below (l ++ ['/'])
    | _ => none

/-- The shape of a pattern. -/
def Shape.ofTokens (tokens : List Token) : Shape :=
  let simple := match tokens with
    | .leadingTree :: rest => shapeInTree rest
    | _ => plainShape tokens
  match simple with
  | some shape => shape
  | none =>
    match lastExtension? [] tokens.reverse with
    | some l => .withExtension l tokens
    | none => .general tokens

/-- The last segment of a path. -/
def lastSegment (s : List UInt8) : List UInt8 := (s.reverse.takeWhile isPlain).reverse

/-- The text of a segment from its last dot on; nothing if it has no dot. -/
def extensionOf (s : List UInt8) : List UInt8 :=
  if s.contains 46 then 46 :: (s.reverse.takeWhile (· != 46)).reverse else []

/-- Whether a path has the extension. -/
def hasExtension (s : List UInt8) (text : List Char) : Bool :=
  extensionOf (lastSegment s) == bytesOf text

/-- Whether a pattern of the shape matches a path. -/
def Shape.matches (s : List UInt8) : Shape → Bool
  | .name text => lastSegment s == bytesOf text
  | .whole text => s == bytesOf text
  | .extension text => hasExtension s text
  | .below text => (bytesOf text).isPrefixOf s
  | .ending text => s == bytesOf text || (bytesOf ('/' :: text)).isSuffixOf s
  | .withExtension text tokens => hasExtension s text && tokensMatch tokens s
  | .general tokens => tokensMatch tokens s

/-! ## Patterns -/

/-- A pattern that can be matched. -/
structure Compiled where
  shape : Shape
  deriving Repr

/-- The compiled form of a pattern. -/
def compile (pattern : String) : Except Fault Compiled :=
  (parse pattern).map fun tokens => ⟨.ofTokens tokens⟩

/-- Whether a pattern matches a path. -/
def Compiled.matches (g : Compiled) (path : String) : Bool :=
  g.shape.matches (bytesOf path.toList)

end ShaderModules.Glob
