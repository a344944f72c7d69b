import ShaderModules.Decimal
import ShaderModules.Json.Value
import ShaderModules.Text.Quoted

/-!
# JSON values as text

* `Value.render`: the text of a value without white space, members in their order.
-/

namespace ShaderModules.Json

/-- The text of a number. -/
def Number.render : Number → String
  | .natural n => toString n
  | .negative n => "-" ++ toString n
  | .float x => Decimal.jsonText x

mutual

/-- The text of a value. -/
def Value.render : Value → String
  | .null => "null"
  | .flag true => "true"
  | .flag false => "false"
  | .number n => n.render
  | .text s => Text.quote s
  | .list items => "[" ++ ",".intercalate (renderItems items) ++ "]"
  | .object members => "\x7b" ++ ",".intercalate (renderMembers members) ++ "\x7d"

/-- The texts of the items of a list. -/
def renderItems : List Value → List String
  | [] => []
  | v :: rest => v.render :: renderItems rest

/-- The texts of the members of an object. -/
def renderMembers : List (String × Value) → List String
  | [] => []
  | (k, v) :: rest => (Text.quote k ++ ":" ++ v.render) :: renderMembers rest

end

end ShaderModules.Json
