import ShaderModules.Bundle
import ShaderModules.Identifier
import ShaderModules.Text.Quoted

/-!
# Generated modules

A module imports one runtime helper and exports its snippets. It is built as a list of exports,
checked, and only then written as text.

* `Module.validate`: every exported name is an identifier and exported once, and there is at most
  one default export. The first offence in the order of the exports is reported.
* `Module.render`: the text. Exports are separated by empty lines.
-/

namespace ShaderModules

/-- The runtime helper that makes a program of two sources. -/
def createProgram : String := "createProgram"

/-- An export of a module. -/
inductive Export where
  /-- A function that makes a program of a vertex and a fragment source. -/
  | program (name vertex fragment : String)
  /-- A source as text. -/
  | value (name source : String)
  /-- The source that is exported as the default. -/
  | default (source : String)
  deriving DecidableEq, Repr

namespace Export

/-- The exported name; the default export has none. -/
def name? : Export → Option String
  | program name _ _ => some name
  | value name _ => some name
  | default _ => none

/-- The statement that declares an export. -/
def render : Export → String
  | program name vertex fragment =>
    "export const " ++ name ++ " = gl => " ++ createProgram ++ "(gl, " ++ Text.quote vertex ++ ", "
      ++ Text.quote fragment ++ ");"
  | value name source => "export const " ++ name ++ " = " ++ Text.quote source ++ ";"
  | default source => "export default " ++ Text.quote source ++ ";"

end Export

/-- A source map. -/
structure SourceMap where
  version : Nat := 3
  sources : List String := []
  names : List String := []
  mappings : String := ""
  deriving DecidableEq, Repr

/-- Texts as a JSON array. -/
def quotedList (items : List String) : String :=
  "[" ++ ",".intercalate (items.map Text.quote) ++ "]"

/-- A source map as JSON text. -/
def SourceMap.render (m : SourceMap) : String :=
  "\x7b\"version\":" ++ toString m.version ++ ",\"sources\":" ++ quotedList m.sources ++
    ",\"names\":" ++ quotedList m.names ++ ",\"mappings\":" ++ Text.quote m.mappings ++ "\x7d"

/-- The text of a module and its source map. -/
structure Generated where
  code : String
  map : SourceMap := {}
  deriving DecidableEq, Repr

/-- A module: the place of the runtime helper and the exports in order. -/
structure Module where
  helperPath : String := "../util"
  exports : List Export := []
  deriving DecidableEq, Repr

namespace Module

/-- The module with one more export. -/
def push (m : Module) (e : Export) : Module := { m with exports := m.exports ++ [e] }

/-- The exported names in order. -/
def exportNames (m : Module) : List String := m.exports.filterMap Export.name?

/-- The source of the first default export. -/
def defaultExport? (m : Module) : Option String :=
  m.exports.findSome? fun
    | .default source => some source
    | _ => none

/-- Checks exports one after the other, after the names `seen` and, if `hasDefault`, a default
export. -/
def check (seen : List String) (hasDefault : Bool) : List Export → Except StructureError Unit
  | [] => .ok ()
  | e :: rest =>
    match e.name? with
    | some name =>
      if !isIdentifier name then .error (.invalidExportName name)
      else if name ∈ seen then .error (.duplicateExport name)
      else check (name :: seen) hasDefault rest
    | none =>
      if hasDefault then .error (.duplicateExport "default") else check seen true rest

/-- Checks the exports of a module. -/
def validate (m : Module) : Except StructureError Unit := check [] false m.exports

/-- The text of a module. -/
def code (m : Module) : String :=
  m.exports.foldl (fun text e => text ++ "\n" ++ e.render ++ "\n")
    ("import \x7b" ++ createProgram ++ "\x7d from " ++ Text.quote m.helperPath ++ ";\n")

/-- The module as text, with an empty source map: the text does not correspond to places in the
shader source. -/
def render (m : Module) : Generated := { code := m.code }

end Module

end ShaderModules
