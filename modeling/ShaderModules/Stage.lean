import ShaderModules.Format
import ShaderModules.Text.Search

/-!
# Stages and their suffixes

The name of a compiled snippet tells the pipeline stage it belongs to by a suffix. What precedes
the suffix is the snippet's key; a vertex and a fragment snippet with one key make a program.

* `Suffixes.classify`: the stage and the key of a name. The fragment suffix is tried first, and an
  empty suffix marks nothing.
* `Suffixes.attach`: the name of a key in a stage.
* `Suffixes.attach_of_classify`, `Suffixes.classify_eq_none`: classifying loses nothing of a name.
-/

namespace ShaderModules

/-- The stages of the pipeline. -/
inductive Stage where
  | vertex
  | fragment
  deriving DecidableEq, Repr

/-- The name of a stage. -/
def Stage.name : Stage → String
  | .vertex => "vertex"
  | .fragment => "fragment"

/-- The suffixes that mark the stages. -/
structure Suffixes where
  vertex : String := "Vertex"
  fragment : String := "Fragment"
  deriving DecidableEq, Repr

namespace Suffixes

/-- How suffixes are written. -/
def format {R : Type → Type} [Format R] : R Suffixes :=
  Format.record "StageSuffixes" {}
    [⟨"vertex", .defaulted, (fun v s => { s with vertex := v }) <$> Format.text⟩,
     ⟨"fragment", .defaulted, (fun v s => { s with fragment := v }) <$> Format.text⟩]

/-- The suffix of a stage. -/
def ofStage (suffixes : Suffixes) : Stage → String
  | .vertex => suffixes.vertex
  | .fragment => suffixes.fragment

/-- What precedes a suffix in a name that ends with it. -/
def strip? (name suffix : String) : Option String :=
  if suffix = "" then none else Text.dropSuffix? name suffix

/-- The stage of a name, if it has one, and its key. -/
def classify (suffixes : Suffixes) (name : String) : Option Stage × String :=
  match strip? name suffixes.fragment with
  | some key => (some .fragment, key)
  | none =>
    match strip? name suffixes.vertex with
    | some key => (some .vertex, key)
    | none => (none, name)

/-- The name of a key in a stage. -/
def attach (suffixes : Suffixes) (key : String) (stage : Stage) : String :=
  key ++ suffixes.ofStage stage

theorem strip?_eq_some_iff {name suffix key : String} :
    strip? name suffix = some key ↔ suffix ≠ "" ∧ name = key ++ suffix := by
  unfold strip?
  split
  · simp_all
  · simp_all [Text.dropSuffix?_eq_some_iff]

theorem attach_of_classify {suffixes : Suffixes} {name key : String} {stage : Stage}
    (h : suffixes.classify name = (some stage, key)) : suffixes.attach key stage = name := by
  unfold classify at h
  split at h
  · rename_i k hk
    cases h
    exact (strip?_eq_some_iff.1 hk).2.symm
  · split at h
    · rename_i k hk
      cases h
      exact (strip?_eq_some_iff.1 hk).2.symm
    · cases h

theorem classify_eq_none {suffixes : Suffixes} {name key : String}
    (h : suffixes.classify name = (none, key)) : key = name := by
  unfold classify at h
  split at h
  · cases h
  · split at h
    · cases h
    · cases h; rfl

end Suffixes

end ShaderModules
