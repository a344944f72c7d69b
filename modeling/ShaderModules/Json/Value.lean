/-!
# JSON values

* `Number`: whole numbers of at most 64 bits are kept exactly, every other number as a binary
  floating-point number.
* `Value`: values whose objects keep their members in the order given.
-/

namespace ShaderModules.Json

/-- The greatest whole number that is kept exactly. -/
def maxNatural : Nat := 18446744073709551615

/-- The greatest distance below zero at which a whole number is kept exactly. -/
def maxNegative : Nat := 9223372036854775808

/-- A number: a whole number from `0` to `2 ^ 64 - 1`, one from `-2 ^ 63` to `-1` given by its
absolute value, or a floating-point number. -/
inductive Number where
  | natural (n : Nat)
  | negative (n : Nat)
  | float (x : Float)
  deriving Repr, Inhabited

/-- A value. -/
inductive Value where
  | null
  | flag (b : Bool)
  | number (n : Number)
  | text (s : String)
  | list (items : List Value)
  | object (members : List (String × Value))
  deriving Repr, Inhabited

/-- The value of the last member of that name. -/
def Value.member? (name : String) : Value → Option Value
  | .object members => (members.reverse.find? (·.1 == name)).map (·.2)
  | _ => none

end ShaderModules.Json
