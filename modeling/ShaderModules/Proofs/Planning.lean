import Mathlib.Data.List.Basic
import ShaderModules.Synthesis

/-!
# The exports that are planned

`Classified.plan` goes through the three maps one after the other and keeps the keys of the programs
that it has made. What it comes to can be said of the maps alone (`plan_exports`): these keys are
those that have a vertex and a fragment snippet (`mem_consumed_iff`), so a fragment snippet is
exported alone exactly if there is no vertex snippet with its key.

* `Classified.vertexExport`, `Classified.fragmentExport?`: the exports of a vertex snippet and of a
  fragment snippet.
-/

namespace ShaderModules.Classified

/-- The export of a vertex snippet: a program with the fragment snippet of its key, if any. -/
def vertexExport (naming : Naming) (c : Classified) (key contents : String) : Export :=
  match c.fragment.get? key with
  | some fragment => .program key contents fragment
  | none => .value (naming.suffixes.attach key .vertex) contents

/-- The export of a fragment snippet that is not part of a program. -/
def fragmentExport? (naming : Naming) (c : Classified) (key contents : String) : Option Export :=
  if c.vertex.contains key then none
  else some (.value (naming.suffixes.attach key .fragment) contents)

variable (naming : Naming) (c : Classified)

/-- A loop that exports every snippet. -/
theorem foldl_exports {step : Planned → String × String → Planned} {made : String × String → Export}
    (hstep : ∀ p s, (step p s).exports = p.exports ++ [made s]) (l : List (String × String))
    (p : Planned) : (l.foldl step p).exports = p.exports ++ l.map made := by
  induction l generalizing p with
  | nil => exact (List.append_nil _).symm
  | cons s l ih =>
    rw [List.foldl_cons, ih, hstep, List.append_assoc, List.map_cons, List.singleton_append]

/-! ## Vertex snippets -/

theorem planVertex_exports (p : Planned) (s : String × String) :
    (planVertex naming c p s).exports = p.exports ++ [vertexExport naming c s.1 s.2] := by
  unfold planVertex vertexExport
  dsimp only
  cases c.fragment.get? s.1 <;> rfl

theorem mem_planVertex_consumed {p : Planned} {s : String × String} {key : String} :
    key ∈ (planVertex naming c p s).consumed ↔
      key ∈ p.consumed ∨ key = s.1 ∧ c.fragment.contains key = true := by
  unfold planVertex StageMap.contains
  dsimp only
  by_cases hkey : key = s.1
  · subst hkey
    cases c.fragment.get? s.1 <;> simp
  · cases c.fragment.get? s.1 <;> simp [hkey]

theorem mem_foldl_planVertex_consumed {l : List (String × String)} {p : Planned} {key : String} :
    key ∈ (l.foldl (planVertex naming c) p).consumed ↔
      key ∈ p.consumed ∨ key ∈ l.map (·.1) ∧ c.fragment.contains key = true := by
  induction l generalizing p with
  | nil => simp
  | cons s l ih =>
    rw [List.foldl_cons, ih, mem_planVertex_consumed, List.map_cons, List.mem_cons, or_assoc,
      or_and_right]

/-- **The keys of the programs** are those that have a vertex and a fragment snippet. -/
theorem mem_consumed_iff {key : String} :
    key ∈ (c.vertex.entries.foldl (planVertex naming c) {}).consumed ↔
      c.vertex.contains key = true ∧ c.fragment.contains key = true := by
  rw [mem_foldl_planVertex_consumed, @StageMap.contains_iff_mem_keys c.vertex]
  exact or_iff_right List.not_mem_nil

/-! ## Fragment snippets and others -/

theorem foldl_planFragment (l : List (String × String)) (p : Planned) :
    l.foldl (planFragment naming) p = { p with
      exports := p.exports ++ l.filterMap fun s =>
        if s.1 ∈ p.consumed then none
        else some (.value (naming.suffixes.attach s.1 .fragment) s.2) } := by
  induction l generalizing p with
  | nil => rw [List.filterMap_nil, List.append_nil, List.foldl_nil]
  | cons s l ih =>
    rw [List.foldl_cons, ih, planFragment]
    by_cases h : s.1 ∈ p.consumed
    · simp only [List.filterMap_cons, h, if_true]
    · simp only [List.filterMap_cons, h, if_false, List.append_assoc, List.singleton_append]

/-- **What is planned**, by the maps alone. -/
theorem plan_exports : (c.plan naming).exports =
    (c.vertex.entries.map fun s => vertexExport naming c s.1 s.2) ++
      (c.fragment.entries.filterMap fun s => fragmentExport? naming c s.1 s.2) ++
      c.other.entries.map fun s => otherExport naming s.1 s.2 := by
  have hfragment : ∀ s ∈ c.fragment.entries,
      (if s.1 ∈ (c.vertex.entries.foldl (planVertex naming c) {}).consumed then none
        else some (Export.value (naming.suffixes.attach s.1 .fragment) s.2)) =
        fragmentExport? naming c s.1 s.2 := by
    intro s hs
    have hkey : c.fragment.contains s.1 = true :=
      StageMap.contains_iff_mem_keys.2 (List.mem_map_of_mem hs)
    unfold fragmentExport?
    simp only [mem_consumed_iff, hkey, and_true]
  have hother : ∀ p s, (planOther naming p s).exports =
      p.exports ++ [otherExport naming s.1 s.2] := fun p s => rfl
  unfold plan
  dsimp only
  rw [foldl_exports hother, foldl_planFragment, List.filterMap_congr hfragment,
    foldl_exports (planVertex_exports naming c), List.nil_append]

end ShaderModules.Classified
