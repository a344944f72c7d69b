import ShaderModules.Problem
import ShaderModules.Stage
import ShaderModules.Json.Record

/-!
# Bundles

A bundle is the compiler's structured output: named snippets in order, no name twice.

* `StructureError`: what can be wrong with a bundle or with the module made of it.
* `Bundle.ofEntries`: a bundle of given snippets; `firstRepeat?` finds the name that repeats.
* `Bundle.parse`: the bundle written as a JSON object with the list `shaders`.
-/

namespace ShaderModules

/-- A compiled snippet. -/
structure Snippet where
  name : String
  contents : String
  deriving DecidableEq, Repr

/-- What can be wrong with the compiler's output or with the module made of it. -/
inductive StructureError where
  /-- The output is not the JSON that is expected, for the given reason. -/
  | malformed (reason : String)
  | missingShaders
  | emptyResult
  | duplicateEntry (name : String)
  /-- Two names of one stage have the same key. -/
  | stageCollision (stage : Stage) (key : String)
  | duplicateExport (name : String)
  | invalidExportName (name : String)
  deriving DecidableEq, Repr

/-- The text of a structure error. -/
def StructureError.message : StructureError → String
  | .malformed _ => "compiler output is not valid JSON"
  | .missingShaders => "compiler output has no `shaders` field"
  | .emptyResult => "compiler produced neither a log nor an output"
  | .duplicateEntry name => "duplicate shader entry `" ++ name ++ "`"
  | .stageCollision stage key =>
    "shader entries collide on " ++ stage.name ++ " key `" ++ key ++ "`"
  | .duplicateExport name => "export `" ++ name ++ "` is declared more than once"
  | .invalidExportName name => "`" ++ name ++ "` is not a valid export name"

/-- The cause of a structure error. -/
def StructureError.causes : StructureError → List String
  | .malformed reason => [reason]
  | _ => []

instance : Problem StructureError where
  message := StructureError.message
  causes := StructureError.causes

/-- The first name that equals an earlier one, or one of `seen`. -/
def firstRepeat? (seen : List String) : List String → Option String
  | [] => none
  | name :: rest => if name ∈ seen then some name else firstRepeat? (name :: seen) rest

theorem firstRepeat?_eq_none_iff {seen names : List String} :
    firstRepeat? seen names = none ↔ names.Nodup ∧ ∀ n ∈ names, n ∉ seen := by
  induction names generalizing seen with
  | nil => simp [firstRepeat?]
  | cons name rest ih =>
    simp only [firstRepeat?]
    split
    · rename_i h
      simp [h]
    · rename_i h
      rw [ih]
      simp only [List.nodup_cons, List.mem_cons, forall_eq_or_imp, not_or]
      constructor
      · rintro ⟨hd, hs⟩
        exact ⟨⟨fun hm => (hs name hm).1 rfl, hd⟩, h, fun n hn => (hs n hn).2⟩
      · rintro ⟨⟨hn, hd⟩, _, hs⟩
        exact ⟨hd, fun n hm => ⟨fun he => hn (he ▸ hm), hs n hm⟩⟩

/-- Snippets in order, no name twice. -/
structure Bundle where
  entries : List Snippet
  names_nodup : (entries.map Snippet.name).Nodup

namespace Bundle

/-- The bundle of the snippets, unless a name repeats. -/
def ofEntries (entries : List Snippet) : Except StructureError Bundle :=
  match h : firstRepeat? [] (entries.map Snippet.name) with
  | some name => .error (.duplicateEntry name)
  | none => .ok ⟨entries, (firstRepeat?_eq_none_iff.1 h).1⟩

/-- How a snippet is written. -/
def snippetFormat {R : Type → Type} [Format R] : R Snippet :=
  Format.record "CompiledShaderEntry" ⟨"", ""⟩
    [⟨"name", .required, (fun v s => { s with name := v }) <$> Format.text⟩,
     ⟨"contents", .required, (fun v s => { s with contents := v }) <$> Format.text⟩]

/-- How structured output is written: the snippets, if there are any. Other fields are ignored. -/
def outputFormat {R : Type → Type} [Format R] : R (Option (List Snippet)) :=
  Format.record "StructuredOutput" none
    [⟨"shaders", .optional, (fun v _ => v) <$> Format.option (Format.list snippetFormat)⟩]

/-- The bundle written as JSON text. -/
def parse (text : String) : Except StructureError Bundle :=
  match (outputFormat (R := Json.Reader)).parse text with
  | .error reason => .error (.malformed reason)
  | .ok none => .error .missingShaders
  | .ok (some entries) => ofEntries entries

/-- The number of snippets. -/
def size (b : Bundle) : Nat := b.entries.length

end Bundle

end ShaderModules
