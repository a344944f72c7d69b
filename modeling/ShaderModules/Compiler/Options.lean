import ShaderModules.Format

/-!
# Options of the shader compiler

* `CompileOptions.flags`: the options as command-line flags. A switch is given only when it is on.
-/

namespace ShaderModules

/-- The form of the compiler's output. -/
inductive OutputFormat where
  /-- Snippets as JSON, the only form that is read. -/
  | json
  deriving DecidableEq, Repr

/-- The name of an output form. -/
def OutputFormat.name : OutputFormat → String
  | .json => "json"

/-- The identifiers that the compiler may rename. -/
inductive Renaming where
  | all
  /-- Only identifiers that are not exported. -/
  | internalOnly
  | none
  deriving DecidableEq, Repr

/-- The name of a renaming rule. -/
def Renaming.name : Renaming → String
  | .all => "all"
  | .internalOnly => "internal-only"
  | .none => "none"

/-- Options for the compiler. -/
structure CompileOptions where
  disableRewriting : Bool := false
  format : OutputFormat := .json
  keepSymbols : Bool := false
  prettyPrint : Bool := false
  renames : Renaming := .internalOnly
  deriving DecidableEq, Repr

namespace CompileOptions

/-- How compile options are written. -/
def schema {R : Type → Type} [Format R] : R CompileOptions :=
  Format.record "CompileOptions" {}
    [⟨"disableRewriting", .defaulted, (fun v s => { s with disableRewriting := v }) <$> Format.flag⟩,
     ⟨"format", .defaulted, (fun v s => { s with format := v }) <$>
       Format.choice "OutputFormat" [("json", OutputFormat.json)]⟩,
     ⟨"keepSymbols", .defaulted, (fun v s => { s with keepSymbols := v }) <$> Format.flag⟩,
     ⟨"prettyPrint", .defaulted, (fun v s => { s with prettyPrint := v }) <$> Format.flag⟩,
     ⟨"renaming", .defaulted, (fun v s => { s with renames := v }) <$>
       Format.choice "Renaming" [("all", Renaming.all), ("internal-only", Renaming.internalOnly),
         ("none", Renaming.none)]⟩]

/-- A switch that is given when it is on. -/
def switch (name : String) (on : Bool) : List String := if on then [name] else []

/-- The options as command-line flags. -/
def flags (o : CompileOptions) : List String :=
  ["--format=" ++ o.format.name, "--renaming=" ++ o.renames.name]
    ++ switch "--disable-rewriting" o.disableRewriting
    ++ switch "--keep-symbols" o.keepSymbols
    ++ switch "--pretty-print" o.prettyPrint

end CompileOptions

end ShaderModules
