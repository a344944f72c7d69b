import ShaderModules.Config.Setting
import ShaderModules.Decimal
import ShaderModules.Format
import ShaderModules.Text.Shown

/-!
# Typed reading of settings

Layered settings are a notation for records. What does not fit is reported with the keys on the
way to it and with the layer that set it.

* `Mismatch`, `SettingError`: what does not fit, and where; `SettingError.message` is the text.
* `Reading`: a partial function from settings, the `Format` of the notation.
-/

namespace ShaderModules

/-- What does not fit. -/
inductive Mismatch where
  | wrongType (found expected : String)
  | negative (n : Int)
  | unknownVariant (name : String) (options : List String)
  | missingField (name : String)
  | wrongLength (length : Nat) (expected : String)
  /-- A value in none of the forms of a type. -/
  | noForm (type : String)
  /-- A layer that cannot be read at all. -/
  | unreadable (text : String)
  deriving DecidableEq, Repr

/-- The names that are possible, as messages list them. -/
def alternatives (options : List String) : String :=
  let quoted := options.map fun o => "`" ++ o ++ "`"
  match quoted with
  | [one] => one
  | many => "one of " ++ ", ".intercalate many

/-- The text of a mismatch. -/
def Mismatch.message : Mismatch → String
  | .wrongType found expected => "invalid type: found " ++ found ++ ", expected " ++ expected
  | .negative n => "invalid value signed int `" ++ toString n ++ "`, expected usize"
  | .unknownVariant name options =>
    "unknown variant: found `" ++ name ++ "`, expected `" ++ alternatives options ++ "`"
  | .missingField name => "missing field `" ++ name ++ "`"
  | .wrongLength length expected =>
    "invalid length " ++ toString length ++ ", expected " ++ expected
  | .noForm type => "data did not match any variant of untagged enum " ++ type
  | .unreadable text => text

/-- Why settings cannot be read: what does not fit, under which keys, in which layer. -/
structure SettingError where
  mismatch : Mismatch
  path : List String := []
  origin : Option Layer := none
  deriving DecidableEq, Repr

/-- The beginning of the names of environment variables. -/
def environmentPrefix : String := "SHADER_FORGE_"

/-- The text with its letters in upper case. -/
def upperCase (s : String) : String := String.ofList (s.toList.map Char.toUpper)

/-- A path of keys in the spelling of a layer. -/
def Layer.spell (o : Layer) (path : List String) : String :=
  match o with
  | .environment => ".".intercalate (path.map upperCase)
  | _ => ".".intercalate ("default" :: path)

/-- The name of a layer. -/
def Layer.name : Layer → String
  | .defaults => "the defaults"
  | .file path => path ++ " TOML file"
  | .environment => "`" ++ environmentPrefix ++ "` environment variable(s)"
  | .commandLine => "the command line"

namespace SettingError

/-- The text of an error. -/
def message (e : SettingError) : String :=
  e.mismatch.message ++
    match e.origin with
    | none => ""
    | some o =>
      (if e.path.isEmpty then "" else " for key " ++ Text.shown (o.spell e.path)) ++
        " in " ++ o.name

/-- The error below one more key. -/
def below (key : String) (e : SettingError) : SettingError := { e with path := key :: e.path }

end SettingError

/-- How messages name a value. -/
def Scalar.found : Scalar → String
  | .absent => "option"
  | .text s => "string " ++ Text.shown s
  | .character c => "char " ++ Text.shownChar c
  | .flag b => "bool " ++ toString b
  | .natural n => "unsigned int `" ++ toString n ++ "`"
  | .integer n => "signed int `" ++ toString n ++ "`"
  | .float x => "float `" ++ Decimal.plainText x ++ "`"

/-- How messages name a node. -/
def Setting.found : Setting → String
  | .scalar _ v => v.found
  | .list _ _ => "sequence"
  | .table _ _ => "map"

/-- The error about a node. -/
def Setting.error (s : Setting) (m : Mismatch) : SettingError :=
  { mismatch := m, origin := some s.origin }

/-- What fits an expected type, as a value of that type. -/
structure Reading (α : Type) where
  run : Setting → Except SettingError α

namespace Reading

variable {α : Type}

/-- The error about a node. -/
def wrong (s : Setting) (m : Mismatch) : Except SettingError α := .error (s.error m)

/-- The error about a node of a type that is not expected. -/
def unexpected (expected : String) (s : Setting) : Except SettingError α :=
  wrong s (.wrongType s.found expected)

/-- A text, where `expected` is what a message calls it. A character is a text too. -/
def textAs (expected : String) : Reading String where
  run
    | .scalar _ (.text s) => .ok s
    | .scalar _ (.character c) => .ok c.toString
    | s => unexpected expected s

/-- A truth value. -/
def flag : Reading Bool where
  run
    | .scalar _ (.flag b) => .ok b
    | s => unexpected "a boolean" s

/-- A whole number that is not negative. -/
def natural : Reading Nat where
  run
    | .scalar _ (.natural n) => .ok n
    | .scalar o (.integer n) =>
      if n < 0 then wrong (.scalar o (.integer n)) (.negative n) else .ok n.toNat
    | s => unexpected "usize" s

/-- A value that may be absent. -/
def option (item : Reading α) : Reading (Option α) where
  run
    | .scalar _ .absent => .ok none
    | s => (item.run s).map some

/-- Items in order, the first of which has the given index. -/
def itemsFrom (item : Reading α) (index : Nat) : List Setting → Except SettingError (List α)
  | [] => .ok []
  | s :: rest =>
    match item.run s with
    | .error e => .error (e.below (toString index))
    | .ok a => (itemsFrom item (index + 1) rest).map (a :: ·)

/-- Any number of items in order. -/
def list (item : Reading α) : Reading (List α) where
  run
    | .list _ items => itemsFrom item 0 items
    | s => unexpected "a sequence" s

/-- Texts by name. -/
def table : Reading (Keyed String) where
  run
    | .table _ entries => entries.mapM fun (k, s) =>
      match (textAs "a string").run s with
      | .ok t => .ok (k, t)
      | .error e => .error (e.below k)
    | s => unexpected "a map" s

/-- The text of a node that is a text and not a character. -/
def plainText? : Setting → Option String
  | .scalar _ (.text s) => some s
  | _ => none

/-- A text, or any number of texts in order. -/
def oneOrMany : Reading (List String) where
  run s :=
    match s with
    | .scalar _ (.text t) => .ok [t]
    | .list _ items =>
      match items.mapM plainText? with
      | some l => .ok l
      | none => wrong s (.noForm "OneOrMany")
    | _ => wrong s (.noForm "OneOrMany")

/-- One of the named values: its name, or a table with the name as its first key. -/
def choice (type : String) (options : List (String × α)) : Reading α where
  run s :=
    let variant (name : String) : Except SettingError α :=
      match options.find? (·.1 == name) with
      | some (_, a) => .ok a
      | none => wrong s (.unknownVariant name (options.map (·.1)))
    match s with
    | .scalar _ (.text name) => variant name
    | .scalar _ (.character c) =>
      wrong s (.wrongType ("string " ++ Text.shown c.toString) ("enum " ++ type))
    | .table _ [] => unexpected "enum" s
    | .table _ ((name, v) :: _) =>
      match variant name with
      | .error e => .error e
      | .ok _ => .error ((v.error (.wrongType v.found "unit")).below name)
    | _ => unexpected ("enum " ++ type) s

/-- The fields given by name. -/
def byName (o : Layer) (blank : α) (fields : List (Field Reading α)) (entries : Keyed Setting) :
    Except SettingError α := do
  let acc ← entries.foldlM (fun acc (k, s) =>
    match fields.find? (·.name == k) with
    | some field =>
      match field.update.run s with
      | .ok u => .ok (u acc)
      | .error e => .error (e.below k)
    | none => .ok acc) blank
  match fields.find? fun f => f.absence = .required && (Keyed.get? f.name entries).isNone with
  | some f => .error { mismatch := .missingField f.name, origin := some o }
  | none => .ok acc

/-- The fields given by position. What is left over is ignored. -/
def byPosition (o : Layer) (expected : String) (index : Nat) (acc : α) :
    List (Field Reading α) → List Setting → Except SettingError α
  | [], _ => .ok acc
  | field :: fields, [] =>
    if field.absence = .defaulted then byPosition o expected (index + 1) acc fields []
    else .error { mismatch := .wrongLength index expected, origin := some o }
  | field :: fields, s :: rest =>
    match field.update.run s with
    | .error e => .error (e.below (toString index))
    | .ok u => byPosition o expected (index + 1) (u acc) fields rest

/-- A record, by name or by position. -/
def record (name : String) (blank : α) (fields : List (Field Reading α)) : Reading α where
  run
    | .table o entries => byName o blank fields entries
    | .list o items => byPosition o (recordExpectation name fields.length) 0 blank fields items
    | s => unexpected ("struct " ++ name) s

instance : Functor Reading where
  map f p := ⟨fun s => (p.run s).map f⟩

instance : Format Reading where
  text := textAs "a string"
  path := textAs "path string"
  flag := flag
  option := option
  list := list
  table := table
  oneOrMany := oneOrMany
  choice := choice
  record := record

end Reading

end ShaderModules
