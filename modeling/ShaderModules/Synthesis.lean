import ShaderModules.Module

/-!
# From a bundle to a module

Snippets are sorted by stage. A vertex and a fragment snippet with the same key become one program
under that key; a stage snippet without partner keeps its name; every other snippet is exported
under its own name, except the designated one, which becomes the default export. Each snippet goes
into exactly one export.

* `StageMap`: contents by key, in the order of insertion.
* `Classified.ofBundle`: the snippets by stage.
* `Classified.plan`: the module they make.
* `Bundle.synthesize`: the module's text, if it is valid.
-/

namespace ShaderModules

/-- How the parts of a module are named. -/
structure Naming where
  suffixes : Suffixes := {}
  /-- The snippet that becomes the default export. -/
  defaultExport : String := "main"
  /-- The place of the runtime helper. -/
  helperPath : String := "../util"
  deriving DecidableEq, Repr

/-- How naming options are written. -/
def Naming.format {R : Type → Type} [Format R] : R Naming :=
  Format.record "SynthesisOptions" {}
    [⟨"suffixes", .defaulted, (fun v s => { s with suffixes := v }) <$> Suffixes.format⟩,
     ⟨"default_export", .defaulted, (fun v s => { s with defaultExport := v }) <$> Format.text⟩,
     ⟨"helper_path", .defaulted, (fun v s => { s with helperPath := v }) <$> Format.text⟩]

/-! ## Contents by key -/

/-- Contents by key, in the order in which the keys were inserted. -/
structure StageMap where
  entries : List (String × String) := []
  deriving DecidableEq, Repr

namespace StageMap

/-- The contents under a key. -/
def get? (m : StageMap) (key : String) : Option String :=
  (m.entries.find? (·.1 == key)).map (·.2)

/-- Whether there are contents under a key. -/
def contains (m : StageMap) (key : String) : Bool := (m.get? key).isSome

/-- The keys in order. -/
def keys (m : StageMap) : List String := m.entries.map (·.1)

/-- The number of keys. -/
def size (m : StageMap) : Nat := m.entries.length

/-- Adds contents under a new key; nothing if the key is there already. -/
def insert? (m : StageMap) (key contents : String) : Option StageMap :=
  if m.contains key then none else some ⟨m.entries ++ [(key, contents)]⟩

theorem contains_iff_mem_keys {m : StageMap} {key : String} :
    m.contains key = true ↔ key ∈ m.keys := by
  simp [contains, get?, keys, List.find?_isSome, and_comm]

end StageMap

/-! ## Snippets by stage -/

/-- Snippets by stage. -/
structure Classified where
  vertex : StageMap := {}
  fragment : StageMap := {}
  /-- Snippets of no stage, by name. -/
  other : StageMap := {}
  deriving DecidableEq, Repr

namespace Classified

/-- The snippets of a stage, or of none. -/
def stage (c : Classified) : Option Stage → StageMap
  | some .vertex => c.vertex
  | some .fragment => c.fragment
  | none => c.other

/-- Replaces the snippets of a stage, or of none. -/
def setStage (c : Classified) : Option Stage → StageMap → Classified
  | some .vertex, m => { c with vertex := m }
  | some .fragment, m => { c with fragment := m }
  | none, m => { c with other := m }

/-- The error for a key that is taken. -/
def collision : Option Stage → String → StructureError
  | some stage, key => .stageCollision stage key
  | none, name => .duplicateEntry name

/-- Adds a snippet to its stage. -/
def add (suffixes : Suffixes) (c : Classified) (s : Snippet) : Except StructureError Classified :=
  let (stage, key) := suffixes.classify s.name
  match (c.stage stage).insert? key s.contents with
  | some m => .ok (c.setStage stage m)
  | none => .error (collision stage key)

/-- The snippets of a bundle by stage. -/
def ofBundle (b : Bundle) (suffixes : Suffixes) : Except StructureError Classified :=
  b.entries.foldlM (add suffixes) {}

/-- What is planned so far: exports, and the keys of the programs among them. -/
structure Planned where
  exports : List Export := []
  consumed : List String := []
  deriving DecidableEq, Repr

/-- Plans a vertex snippet: a program with the fragment snippet of its key, if there is one. -/
def planVertex (naming : Naming) (c : Classified) (p : Planned) : String × String → Planned
  | (key, contents) =>
    match c.fragment.get? key with
    | some fragment => ⟨p.exports ++ [.program key contents fragment], key :: p.consumed⟩
    | none =>
      { p with exports := p.exports ++ [.value (naming.suffixes.attach key .vertex) contents] }

/-- Plans a fragment snippet, unless it is part of a program. -/
def planFragment (naming : Naming) (p : Planned) : String × String → Planned
  | (key, contents) =>
    if key ∈ p.consumed then p
    else { p with exports := p.exports ++ [.value (naming.suffixes.attach key .fragment) contents] }

/-- The export of a snippet of no stage. -/
def otherExport (naming : Naming) (name contents : String) : Export :=
  if name = naming.defaultExport then .default contents else .value name contents

/-- Plans a snippet of no stage. -/
def planOther (naming : Naming) (p : Planned) : String × String → Planned
  | (name, contents) => { p with exports := p.exports ++ [otherExport naming name contents] }

/-- The module of the snippets: vertex snippets, then fragment snippets that are not part of a
program, then the others, each in their order. -/
def plan (naming : Naming) (c : Classified) : Module where
  helperPath := naming.helperPath
  exports :=
    let vertices := c.vertex.entries.foldl (planVertex naming c) {}
    let fragments := c.fragment.entries.foldl (planFragment naming) vertices
    (c.other.entries.foldl (planOther naming) fragments).exports

end Classified

/-- The module of a bundle as text, if its exports are valid. -/
def Bundle.synthesize (naming : Naming) (b : Bundle) : Except StructureError Generated := do
  let c ← Classified.ofBundle b naming.suffixes
  let m := c.plan naming
  m.validate
  return m.render

end ShaderModules
