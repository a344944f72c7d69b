import ShaderModules.Keyed

/-!
# Formats

Options and results are records that may be written in several notations. A record type describes
its fields once; each notation says how the parts of such a description are read.

* `Format`: the parts of a description.
* `Field`: a named field of a record and what its absence means.
-/

namespace ShaderModules

/-- What it means that a field is not given. -/
inductive Absence where
  /-- It has to be given. -/
  | required
  /-- It has to be given only where fields are given by position. -/
  | optional
  /-- The field keeps its default. -/
  | defaulted
  deriving DecidableEq

/-- A field of a record of type `α`: reading it yields the record's update. -/
structure Field (R : Type → Type) (α : Type) where
  name : String
  absence : Absence
  update : R (α → α)

/-- What a notation offers to describe the data written in it: `R α` reads an `α`. -/
class Format (R : Type → Type) extends Functor R where
  /-- A text. -/
  text : R String
  /-- A text that names a file. -/
  path : R String
  /-- A truth value. -/
  flag : R Bool
  /-- A value, or the mark of absence. -/
  option {α : Type} : R α → R (Option α)
  /-- Any number of values in order. -/
  list {α : Type} : R α → R (List α)
  /-- Texts by name. -/
  table : R (Keyed String)
  /-- A text, or any number of texts in order. -/
  oneOrMany : R (List String)
  /-- One of the named values of a type, with the type's name. -/
  choice {α : Type} : String → List (String × α) → R α
  /-- A record: its type's name, the values of fields not given, and its fields. -/
  record {α : Type} : String → α → List (Field R α) → R α

/-- A record by position, when fewer fields than expected are given. -/
def recordExpectation (name : String) (fields : Nat) : String :=
  "struct " ++ name ++ " with " ++ toString fields ++ (if fields = 1 then " element" else " elements")

end ShaderModules
