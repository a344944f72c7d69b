import ShaderModules.Format
import ShaderModules.Json.Value
import ShaderModules.Json.Fault

/-!
# Typed reading of JSON values

A value that is already in memory is fitted to an expected type. The members of its objects are
met in the order of their keys, and of two members with one key the later counts.

* `Fit`: a partial function from values, with a complaint where it is not defined.
* The parts of a `Format` for values.
-/

namespace ShaderModules.Json

/-- What fits an expected type, as a value of that type. -/
structure Fit (α : Type) where
  run : Value → Except Complaint α

namespace Fit

variable {α β : Type}

/-- The complaint about a value of a type that is not expected. -/
def unexpected (expected : String) (v : Value) : Except Complaint α :=
  .error (.wrongType v.found expected)

/-- A text, where `expected` is what a complaint calls it. -/
def textAs (expected : String) : Fit String where
  run
    | .text t => .ok t
    | v => unexpected expected v

/-- A truth value. -/
def flag : Fit Bool where
  run
    | .flag b => .ok b
    | v => unexpected "a boolean" v

/-- A value or `null`. -/
def option (item : Fit α) : Fit (Option α) where
  run
    | .null => .ok none
    | v => (item.run v).map some

/-- Any number of items in order. -/
def list (item : Fit α) : Fit (List α) where
  run
    | .list items => items.mapM item.run
    | v => unexpected "a sequence" v

/-- Texts by name. -/
def table : Fit (Keyed String) where
  run
    | .object members =>
      (Keyed.ofList members).mapM fun (k, v) => ((textAs "a string").run v).map fun t => (k, t)
    | v => unexpected "a map" v

/-- A text, or any number of texts in order. -/
def oneOrMany : Fit (List String) where
  run
    | .text t => .ok [t]
    | .list items =>
      match items.mapM (textAs "a string").run with
      | .ok l => .ok l
      | .error _ => .error (.noForm "OneOrMany")
    | _ => .error (.noForm "OneOrMany")

/-- The variant of a name. -/
def variant (options : List (String × α)) (name : String) : Except Complaint α :=
  match options.find? (·.1 == name) with
  | some (_, a) => .ok a
  | none => .error (.unknownVariant name (options.map (·.1)))

/-- One of the named values: its name, or an object with the name as its only key. -/
def choice (options : List (String × α)) : Fit α where
  run
    | .text name => variant options name
    | .object members =>
      match Keyed.ofList members with
      | [(name, v)] =>
        match variant options name, v with
        | .error c, _ => .error c
        | .ok a, .null => .ok a
        | .ok _, v => unexpected "unit" v
      | _ => .error .wrongMap
    | v => unexpected "string or map" v

/-- The fields given by name. -/
def byName (blank : α) (fields : List (Field Fit α)) (members : Keyed Value) :
    Except Complaint α := do
  let acc ← members.foldlM (fun acc (k, v) =>
    match fields.find? (·.name == k) with
    | some field => (field.update.run v).map (· acc)
    | none => .ok acc) blank
  match fields.find? fun f => f.absence = .required && (Keyed.get? f.name members).isNone with
  | some f => .error (.missingField f.name)
  | none => .ok acc

/-- The fields given by position, and the number of values that are left. -/
def byPosition (expected : String) (index : Nat) (acc : α) :
    List (Field Fit α) → List Value → Except Complaint (α × Nat)
  | [], values => .ok (acc, values.length)
  | field :: fields, [] =>
    if field.absence = .defaulted then byPosition expected (index + 1) acc fields []
    else .error (.wrongLength index expected)
  | field :: fields, v :: values =>
    match field.update.run v with
    | .error c => .error c
    | .ok u => byPosition expected (index + 1) (u acc) fields values

/-- A record, by name or by position. -/
def record (name : String) (blank : α) (fields : List (Field Fit α)) : Fit α where
  run
    | .object members => byName blank fields (Keyed.ofList members)
    | .list values =>
      match byPosition (recordExpectation name fields.length) 0 blank fields values with
      | .error c => .error c
      | .ok (a, 0) => .ok a
      | .ok _ => .error (.wrongLength values.length "fewer elements in array")
    | v => unexpected ("struct " ++ name) v

instance : Functor Fit where
  map f p := ⟨fun v => (p.run v).map f⟩

instance : Format Fit where
  text := textAs "a string"
  path := textAs "path string"
  flag := flag
  option := option
  list := list
  table := table
  oneOrMany := oneOrMany
  choice _ := choice
  record := record

/-- Fits a value; a complaint is given as its message. -/
def read (p : Fit α) (v : Value) : Except String α :=
  match p.run v with
  | .ok a => .ok a
  | .error c => .error c.message

end Fit

end ShaderModules.Json
