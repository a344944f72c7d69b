import ShaderModules.Proofs.Classification
import ShaderModules.Proofs.Planning

/-!
# The exports of a bundle

What a bundle exports can be said without maps and without an order of work. A name belongs to the
fragment stage if the fragment suffix ends it, otherwise to the vertex stage if the vertex suffix
does (`Suffixes.stageOf`). The vertex snippets come first, each with the fragment snippet that has
its key or alone, then the fragment snippets that no vertex snippet asks for, then the others
(`Bundle.exports`). The planned module has exactly these exports (`plan_eq_exports`).

* `Suffixes.keyIn`: a name without the suffix of a stage (`classify_eq`).
* `Bundle.ofStage`: the snippets of a stage, which differ in their keys (`keyIn_nodup`).
* `Bundle.partner?`: the fragment snippet with a key (`select_get?`).
* `Bundle.synthesize_eq`: the text of a bundle is the text of its module.
-/

namespace ShaderModules

/-! ## Stages and keys of names -/

namespace Suffixes

/-- Whether a suffix marks a name: it is not empty and ends the name. -/
def Marks (suffix name : String) : Prop := suffix ≠ "" ∧ suffix.toList <:+ name.toList

instance (suffix name : String) : Decidable (Marks suffix name) :=
  inferInstanceAs (Decidable (_ ∧ _))

variable (suffixes : Suffixes)

/-- The stage of a name, if it has one. -/
def stageOf (name : String) : Option Stage :=
  if Marks suffixes.fragment name then some .fragment
  else if Marks suffixes.vertex name then some .vertex
  else none

/-- A name without as many characters at its end as the suffix of the stage has. -/
def keyIn (stage : Stage) (name : String) : String :=
  String.ofList (name.toList.take (name.toList.length - (suffixes.ofStage stage).toList.length))

/-- The key of a name: what precedes the suffix of its stage, or the name itself. -/
def keyOf (name : String) : String :=
  match suffixes.stageOf name with
  | some stage => suffixes.keyIn stage name
  | none => name

theorem strip?_eq_of_marks {name suffix : String} (h : Marks suffix name) :
    strip? name suffix =
      some (String.ofList (name.toList.take (name.toList.length - suffix.toList.length))) := by
  obtain ⟨hne, key, hkey⟩ := h
  refine strip?_eq_some_iff.2 ⟨hne, ?_⟩
  rw [← String.toList_inj, String.toList_append, String.toList_ofList, ← hkey]
  simp

theorem strip?_eq_none_of_not_marks {name suffix : String} (h : ¬ Marks suffix name) :
    strip? name suffix = none := by
  cases hs : strip? name suffix with
  | none => rfl
  | some key =>
    obtain ⟨hne, rfl⟩ := strip?_eq_some_iff.1 hs
    exact absurd ⟨hne, by rw [String.toList_append]; exact List.suffix_append _ _⟩ h

/-- Classifying a name finds its stage and its key. -/
theorem classify_eq (name : String) :
    suffixes.classify name = (suffixes.stageOf name, suffixes.keyOf name) := by
  unfold classify keyOf stageOf
  by_cases hf : Marks suffixes.fragment name
  · rw [strip?_eq_of_marks hf]
    simp only [if_pos hf]
    rfl
  · rw [strip?_eq_none_of_not_marks hf]
    by_cases hv : Marks suffixes.vertex name
    · rw [strip?_eq_of_marks hv]
      simp only [if_neg hf, if_pos hv]
      rfl
    · rw [strip?_eq_none_of_not_marks hv]
      simp only [if_neg hf, if_neg hv]

theorem attach_keyIn {stage : Stage} {name : String} (h : suffixes.stageOf name = some stage) :
    suffixes.attach (suffixes.keyIn stage name) stage = name := by
  refine attach_of_classify ?_
  rw [classify_eq, keyOf, h]

end Suffixes

/-! ## The snippets of one stage -/

namespace Bundle

variable (b : Bundle) (naming : Naming)

/-- The snippets of a stage, or of none, in their order. -/
def ofStage (suffixes : Suffixes) (stage : Option Stage) : List Snippet :=
  b.entries.filter fun s => suffixes.stageOf s.name = stage

/-- The fragment snippet with a key. -/
def partner? (suffixes : Suffixes) (key : String) : Option Snippet :=
  (b.ofStage suffixes (some .fragment)).find? fun s => suffixes.keyIn .fragment s.name = key

/-- The export of a vertex snippet: with the fragment snippet that has its key, or alone. -/
def vertexExport (s : Snippet) : Export :=
  match b.partner? naming.suffixes (naming.suffixes.keyIn .vertex s.name) with
  | some f => .program (naming.suffixes.keyIn .vertex s.name) s.contents f.contents
  | none => .value s.name s.contents

/-- Whether no vertex snippet has the key of a fragment snippet. -/
def IsAlone (suffixes : Suffixes) (s : Snippet) : Prop :=
  ∀ v ∈ b.ofStage suffixes (some .vertex),
    suffixes.keyIn .vertex v.name ≠ suffixes.keyIn .fragment s.name

instance (suffixes : Suffixes) (s : Snippet) : Decidable (b.IsAlone suffixes s) :=
  inferInstanceAs (Decidable (∀ v ∈ _, _))

/-- The export of a snippet of no stage. -/
def otherExport (s : Snippet) : Export :=
  if s.name = naming.defaultExport then .default s.contents else .value s.name s.contents

/-- The exports of a bundle in order. -/
def exports : List Export :=
  (b.ofStage naming.suffixes (some .vertex)).map (b.vertexExport naming) ++
    ((b.ofStage naming.suffixes (some .fragment)).filter fun s => b.IsAlone naming.suffixes s).map
      (fun s => .value s.name s.contents) ++
    (b.ofStage naming.suffixes none).map (otherExport naming)

/-- The module of a bundle. -/
def module : Module := ⟨naming.helperPath, b.exports naming⟩

variable {b} {suffixes : Suffixes}

theorem mem_ofStage {stage : Option Stage} {s : Snippet} :
    s ∈ b.ofStage suffixes stage ↔ s ∈ b.entries ∧ suffixes.stageOf s.name = stage := by
  simp [ofStage]

/-- The map of a stage lists the snippets of the stage under their keys. -/
theorem select_entries (stage : Option Stage) :
    (suffixes.select stage b.entries).entries =
      (b.ofStage suffixes stage).map fun s => (suffixes.keyOf s.name, s.contents) := by
  simp only [Suffixes.select, ofStage]
  induction b.entries with
  | nil => rfl
  | cons s rest ih =>
    by_cases h : suffixes.stageOf s.name = stage
    · simp [Suffixes.keyed?, suffixes.classify_eq, h, ih]
    · simp [Suffixes.keyed?, suffixes.classify_eq, h, ih]

theorem select_entries_some (stage : Stage) :
    (suffixes.select (some stage) b.entries).entries =
      (b.ofStage suffixes (some stage)).map fun s =>
        (suffixes.keyIn stage s.name, s.contents) := by
  rw [select_entries]
  refine List.map_congr_left fun s hs => ?_
  rw [Suffixes.keyOf, (mem_ofStage.1 hs).2]

theorem select_entries_none :
    (suffixes.select none b.entries).entries =
      (b.ofStage suffixes none).map fun s => (s.name, s.contents) := by
  rw [select_entries]
  refine List.map_congr_left fun s hs => ?_
  rw [Suffixes.keyOf, (mem_ofStage.1 hs).2]

/-- The snippets of one stage differ in their keys. -/
theorem keyIn_nodup (b : Bundle) (suffixes : Suffixes) (stage : Stage) :
    ((b.ofStage suffixes (some stage)).map fun s => suffixes.keyIn stage s.name).Nodup := by
  have h := suffixes.select_keys_nodup (some stage) b.names_nodup
  rwa [StageMap.keys, select_entries_some, List.map_map] at h

theorem select_get? (key : String) :
    (suffixes.select (some .fragment) b.entries).get? key =
      (b.partner? suffixes key).map Snippet.contents := by
  rw [StageMap.get?, select_entries_some, List.find?_map, partner?, Option.map_map]
  rfl

theorem select_contains_iff {s : Snippet} :
    (suffixes.select (some .vertex) b.entries).contains (suffixes.keyIn .fragment s.name) = true ↔
      ¬ b.IsAlone suffixes s := by
  rw [StageMap.contains_iff_mem_keys, StageMap.keys, select_entries_some, List.map_map,
    List.mem_map, IsAlone]
  simp

end Bundle

/-! ## The three parts of a plan -/

namespace Classified

variable {b : Bundle} {naming : Naming} {s : Snippet}

theorem vertexExport_sorted (h : s ∈ b.ofStage naming.suffixes (some .vertex)) :
    vertexExport naming (sorted naming.suffixes b.entries)
      (naming.suffixes.keyIn .vertex s.name) s.contents = b.vertexExport naming s := by
  simp only [vertexExport, sorted, Bundle.vertexExport, Bundle.select_get?]
  cases b.partner? naming.suffixes (naming.suffixes.keyIn .vertex s.name) with
  | some f => rfl
  | none =>
    simp only [Option.map_none]
    rw [naming.suffixes.attach_keyIn (Bundle.mem_ofStage.1 h).2]

theorem fragmentExport?_sorted (h : s ∈ b.ofStage naming.suffixes (some .fragment)) :
    fragmentExport? naming (sorted naming.suffixes b.entries)
      (naming.suffixes.keyIn .fragment s.name) s.contents =
        if b.IsAlone naming.suffixes s then some (.value s.name s.contents) else none := by
  have hname := naming.suffixes.attach_keyIn (Bundle.mem_ofStage.1 h).2
  by_cases ha : b.IsAlone naming.suffixes s
  · simp [fragmentExport?, sorted, Bundle.select_contains_iff, ha, hname]
  · simp [fragmentExport?, sorted, Bundle.select_contains_iff, ha]

/-- The three maps of a bundle are planned as its module. -/
theorem plan_sorted (b : Bundle) (naming : Naming) :
    (sorted naming.suffixes b.entries).plan naming = b.module naming := by
  have hv : (sorted naming.suffixes b.entries).vertex.entries.map
      (fun p => vertexExport naming (sorted naming.suffixes b.entries) p.1 p.2) =
        (b.ofStage naming.suffixes (some .vertex)).map (b.vertexExport naming) := by
    rw [sorted, Bundle.select_entries_some, List.map_map]
    exact List.map_congr_left fun s hs => vertexExport_sorted hs
  have hf : (sorted naming.suffixes b.entries).fragment.entries.filterMap
      (fun p => fragmentExport? naming (sorted naming.suffixes b.entries) p.1 p.2) =
        ((b.ofStage naming.suffixes (some .fragment)).filter fun s =>
          b.IsAlone naming.suffixes s).map fun s => Export.value s.name s.contents := by
    rw [sorted, Bundle.select_entries_some, List.filterMap_map, ← List.filterMap_eq_map,
      List.filterMap_filter]
    refine List.filterMap_congr fun s hs => ?_
    rw [Function.comp_apply]
    exact (fragmentExport?_sorted hs).trans (by simp)
  have ho : (sorted naming.suffixes b.entries).other.entries.map
      (fun p => otherExport naming p.1 p.2) =
        (b.ofStage naming.suffixes none).map (Bundle.otherExport naming) := by
    rw [sorted, Bundle.select_entries_none, List.map_map]
    rfl
  have hexports : ((sorted naming.suffixes b.entries).plan naming).exports = b.exports naming := by
    rw [plan_exports, hv, hf, ho, Bundle.exports]
  exact congrArg (Module.mk naming.helperPath) hexports

end Classified

/-- A bundle is made into the text of its module, if the module is valid. -/
theorem Bundle.synthesize_eq (b : Bundle) (naming : Naming) :
    b.synthesize naming = (b.module naming).validate.map fun _ => (b.module naming).render := by
  simp only [Bundle.synthesize, Classified.ofBundle_eq, bind, Except.bind, Classified.plan_sorted]
  cases (b.module naming).validate <;> rfl

theorem Bundle.synthesize_eq_ok_iff {b : Bundle} {naming : Naming} {g : Generated} :
    b.synthesize naming = .ok g ↔
      (b.module naming).validate = .ok () ∧ (b.module naming).render = g := by
  rw [b.synthesize_eq]
  cases (b.module naming).validate <;> simp [Except.map]

/-- **A planned module has the exports of its bundle.** Sorting the bundle succeeds, and the module
that is planned of it imports from the configured place and has, in this order, the vertex
snippets with or without a partner, the fragment snippets that are alone, and the others. No two
snippets of a stage have the same key, so a partner is the only one. -/
theorem plan_eq_exports (b : Bundle) (naming : Naming) :
    (∃ c, Classified.ofBundle b naming.suffixes = .ok c ∧
      (c.plan naming).helperPath = naming.helperPath ∧
      (c.plan naming).exports = b.exports naming) ∧
    ∀ stage, ((b.ofStage naming.suffixes (some stage)).map fun s =>
      naming.suffixes.keyIn stage s.name).Nodup :=
  have hplan := Classified.plan_sorted b naming
  ⟨⟨_, Classified.ofBundle_eq b naming.suffixes, congrArg Module.helperPath hplan,
    congrArg Module.exports hplan⟩, b.keyIn_nodup naming.suffixes⟩

end ShaderModules
