import Mathlib.Data.List.Forall2
import ShaderModules.Json.Literal

/-!
# The grammar of JSON text

What JSON text is, apart from how it is read. A text is a list of characters; white space may stand
around every token.

* `Starts`, `Ends`: how values start, and what may stand behind them.
* `Spells body text`: a literal whose escapes are resolved to `text`.
* `IsLiteral`: a literal whatever it denotes; a surrogate may stand alone in it.
* `IsNumber`, `IsValue`: numbers, and values of any depth.
* `Item`, `Member`, `listText`, `objectText`: the parts of lists and objects with the white space
  around them.
* `WritesList`, `WritesRecord`, `WritesOptional`: the texts that given data may be written as.
* `WritesAmong`: records of which only some fields are given.
-/

namespace ShaderModules.Json.Grammar

/-- White space between tokens. -/
def IsSpace (s : List Char) : Prop := ∀ c ∈ s, c = ' ' ∨ c = '\n' ∨ c = '\t' ∨ c = '\r'

instance (s : List Char) : Decidable (IsSpace s) :=
  List.decidableBAll (fun c => c = ' ' ∨ c = '\n' ∨ c = '\t' ∨ c = '\r') s

/-- The characters that may stand behind a value and do not start one. -/
def delimiters : List Char := [' ', '\n', '\t', '\r', ',', ']', '\x7d']

/-- A text that may stand behind a value. -/
def Ends (s : List Char) : Prop := ∀ c ∈ s.head?, c ∈ delimiters

/-- A text that starts as values do. -/
def Starts (s : List Char) : Prop := ∃ c rest, s = c :: rest ∧ c ∉ delimiters

/-! ## Literals -/

/-- Four hexadecimal digits and the code unit that they denote. -/
inductive IsUnit : List Char → ℕ → Prop
  | digits {a b c d : Char} {w x y z : ℕ} : hexValue? a = some w → hexValue? b = some x →
      hexValue? c = some y → hexValue? d = some z →
      IsUnit [a, b, c, d] (((w * 16 + x) * 16 + y) * 16 + z)

/-- What stands between the quotation marks of a literal, and the text that it denotes. -/
inductive Spells : List Char → List Char → Prop
  | nil : Spells [] []
  /-- A character that stands for itself. -/
  | plain {c : Char} {body text : List Char} : c ≠ '"' → c ≠ '\\' → 0x20 ≤ c.toNat →
      Spells body text → Spells (c :: body) (c :: text)
  /-- An escape of one letter. -/
  | escape {letter c : Char} {body text : List Char} : escapeValue? letter = some c →
      Spells body text → Spells ('\\' :: letter :: body) (c :: text)
  /-- A character by its code unit. -/
  | unit {digits body text : List Char} {n : ℕ} : IsUnit digits n → isLeading n = false →
      isTrailing n = false → Spells body text →
      Spells ('\\' :: 'u' :: (digits ++ body)) (Char.ofNat n :: text)
  /-- A character by a pair of surrogates. -/
  | pair {digits digits' body text : List Char} {n m : ℕ} : IsUnit digits n → isLeading n = true →
      IsUnit digits' m → isTrailing m = true → Spells body text →
      Spells ('\\' :: 'u' :: (digits ++ '\\' :: 'u' :: (digits' ++ body))) (pairedChar n m :: text)

/-- The letters of the one-letter escapes. -/
def escapeLetters : List Char := ['"', '\\', '/', 'b', 'f', 'n', 'r', 't']

/-- What stands between the quotation marks of a literal, whether or not it denotes a text. -/
inductive IsLiteral : List Char → Prop
  | nil : IsLiteral []
  | plain {c : Char} {body : List Char} : c ≠ '"' → c ≠ '\\' → 0x20 ≤ c.toNat → IsLiteral body →
      IsLiteral (c :: body)
  | escape {letter : Char} {body : List Char} : letter ∈ escapeLetters → IsLiteral body →
      IsLiteral ('\\' :: letter :: body)
  | unit {digits body : List Char} {n : ℕ} : IsUnit digits n → IsLiteral body →
      IsLiteral ('\\' :: 'u' :: (digits ++ body))

/-! ## Numbers -/

/-- A run of digits. -/
def IsDigits (s : List Char) : Prop := s ≠ [] ∧ ∀ c ∈ s, c.isDigit = true

instance (s : List Char) : Decidable (IsDigits s) :=
  @instDecidableAnd _ _ inferInstance (List.decidableBAll (fun c => c.isDigit = true) s)

/-- The whole part of a number: no zero in front of other digits. -/
def IsWhole (s : List Char) : Prop := s = ['0'] ∨ IsDigits s ∧ s.head? ≠ some '0'

/-- The fraction of a number, which may be absent. -/
def IsFraction (s : List Char) : Prop := s = [] ∨ ∃ digits, IsDigits digits ∧ s = '.' :: digits

/-- The exponent of a number, which may be absent. -/
def IsExponent (s : List Char) : Prop :=
  s = [] ∨ ∃ letter sign digits, (letter = 'e' ∨ letter = 'E') ∧
    (sign = [] ∨ sign = ['+'] ∨ sign = ['-']) ∧ IsDigits digits ∧ s = letter :: (sign ++ digits)

/-- A number, of any size and length. -/
def IsNumber (s : List Char) : Prop :=
  ∃ sign whole fraction exponent, (sign = [] ∨ sign = ['-']) ∧ IsWhole whole ∧
    IsFraction fraction ∧ IsExponent exponent ∧ s = sign ++ (whole ++ (fraction ++ exponent))

/-! ## Lists and objects -/

/-- A value with the white space around it. -/
structure Item where
  before : List Char
  value : List Char
  after : List Char

namespace Item

/-- The text of an item. -/
def text (i : Item) : List Char := i.before ++ (i.value ++ i.after)

/-- Only white space stands around the value. -/
def Spaced (i : Item) : Prop := IsSpace i.before ∧ IsSpace i.after

instance (i : Item) : Decidable i.Spaced :=
  inferInstanceAs (Decidable (IsSpace i.before ∧ IsSpace i.after))

end Item

/-- A member of an object: a key, between its quotation marks, and an item, with the white space
around the key. -/
structure Member where
  before : List Char
  key : List Char
  after : List Char
  item : Item

namespace Member

/-- What stands in front of the item of a member. -/
def label (m : Member) : List Char := m.before ++ '"' :: (m.key ++ '"' :: (m.after ++ [':']))

/-- The text of a member. -/
def text (m : Member) : List Char := m.label ++ m.item.text

/-- Only white space stands around the key and the value. -/
def Spaced (m : Member) : Prop := IsSpace m.before ∧ IsSpace m.after ∧ m.item.Spaced

instance (m : Member) : Decidable m.Spaced :=
  inferInstanceAs (Decidable (IsSpace m.before ∧ IsSpace m.after ∧ m.item.Spaced))

/-- The key denotes the name. -/
def Named (m : Member) (name : String) : Prop := Spells m.key name.toList

end Member

/-- Texts with commas between them. -/
def commas : List (List Char) → List Char
  | [] => []
  | s :: rest => s ++ rest.flatMap (',' :: ·)

/-- A list of items; white space may stand behind the opening bracket. -/
def listText (space : List Char) (items : List Item) : List Char :=
  '[' :: (space ++ (commas (items.map Item.text) ++ [']']))

/-- An object of members; white space may stand behind the opening brace. -/
def objectText (space : List Char) (members : List Member) : List Char :=
  '\x7b' :: (space ++ (commas (members.map Member.text) ++ ['\x7d']))

/-- A value of any depth, without white space around it. -/
inductive IsValue : List Char → Prop
  | null : IsValue ['n', 'u', 'l', 'l']
  | yes : IsValue ['t', 'r', 'u', 'e']
  | no : IsValue ['f', 'a', 'l', 's', 'e']
  | number {s : List Char} : IsNumber s → IsValue s
  | literal {body : List Char} : IsLiteral body → IsValue ('"' :: (body ++ ['"']))
  | list {space : List Char} {items : List Item} : IsSpace space → (∀ i ∈ items, i.Spaced) →
      (∀ i ∈ items, IsValue i.value) → IsValue (listText space items)
  | object {space : List Char} {members : List Member} : IsSpace space →
      (∀ m ∈ members, m.Spaced) → (∀ m ∈ members, IsLiteral m.key) →
      (∀ m ∈ members, IsValue m.item.value) → IsValue (objectText space members)

/-! ## Written data -/

/-- The text is a list of the values of `l`, each written as `W` says. -/
def WritesList {α : Type} (W : α → List Char → Prop) (l : List α) (v : List Char) : Prop :=
  ∃ space items, IsSpace space ∧ List.Forall₂ (fun a i => i.Spaced ∧ W a i.value) l items ∧
    v = listText space items

/-- The text is an object with the given fields, each with what its value may be. They stand in
any order and among members of other names, whose values are arbitrary. -/
def WritesRecord (fields : List (String × (List Char → Prop))) (v : List Char) : Prop :=
  ∃ space members known extra, IsSpace space ∧ (∀ m ∈ members, m.Spaced) ∧
    members.Perm (known ++ extra) ∧
    List.Forall₂ (fun f m => m.Named f.1 ∧ f.2 m.item.value) fields known ∧
    (∀ m ∈ extra, ∃ name, m.Named name ∧ name ∉ fields.map (·.1) ∧ IsValue m.item.value) ∧
    v = objectText space members

/-- The text is an object with the given fields, each with what its value may be. They stand in
any order and among members of names that are not reserved, whose values are arbitrary. -/
def WritesAmong (reserved : List String) (fields : List (String × (List Char → Prop)))
    (v : List Char) : Prop :=
  ∃ space members known extra, IsSpace space ∧ (∀ m ∈ members, m.Spaced) ∧
    members.Perm (known ++ extra) ∧
    List.Forall₂ (fun f m => m.Named f.1 ∧ f.2 m.item.value) fields known ∧
    (∀ m ∈ extra, ∃ name, m.Named name ∧ name ∉ reserved ∧ IsValue m.item.value) ∧
    v = objectText space members

/-- The text is a literal of the text that is there, or `null`. -/
def WritesOptional : Option String → List Char → Prop
  | some t, v => ∃ body, Spells body t.toList ∧ v = '"' :: (body ++ ['"'])
  | none, v => v = ['n', 'u', 'l', 'l']

end ShaderModules.Json.Grammar
