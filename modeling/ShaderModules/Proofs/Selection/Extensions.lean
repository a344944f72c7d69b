import ShaderModules.Proofs.Glob.Wildcards
import ShaderModules.Proofs.Selection.Combination

/-!
# Selecting by extension

A selector whose patterns are `**/*` in front of extensions selects the paths whose last segment
ends with one of them (`exists_build_extensions`), wherever they are and whatever else their names
are made of. The default patterns are such patterns (`selects_shaderFiles`).

* `Selector.lastSegment`: the last segment of the normal form of a path.
* `Selector.IsExtension`: a dot and then plain text without dots and slashes.
-/

namespace ShaderModules.Selector

open Glob ShaderModules.Path

/-- The last segment of the normal form of a path. The slash alone has an empty one. -/
def lastSegment (root path : String) : List Char :=
  (segments (normalize root path).toList).getLast (segments_ne_nil _)

/-- A dot and then text in which nothing means anything in a pattern and no segment or further
extension starts. -/
def IsExtension (e : String) : Prop :=
  ∃ w, e.toList = '.' :: w ∧ '.' ∉ w ∧ '/' ∉ w ∧ ∀ c ∈ w, c ∉ wildcards

variable {root path e : String}

/-! ## One extension -/

/-- A pattern that starts with a star is used as it is written. -/
theorem anchor_of_star {pattern : String} (hstar : pattern.toList.head? = some '*')
    (hplain : '\\' ∉ pattern.toList) (root : String) : anchor root pattern = pattern := by
  have hself : (pattern.toList.map fun c => if c = '\\' then '/' else c) = pattern.toList := by
    have hid : ∀ c ∈ pattern.toList, (if c = '\\' then '/' else c) = id c :=
      fun c hc => if_neg fun he => hplain (by rwa [← he])
    rw [List.map_congr_left hid, List.map_id]
  rw [anchor, if_pos (by simp [hstar]), hself, String.ofList_toList]

theorem IsExtension.toList_anchor (h : IsExtension e) (root : String) :
    ∃ w, e.toList = '.' :: w ∧
      (anchor root ("**/*" ++ e)).toList = '*' :: '*' :: '/' :: '*' :: '.' :: w := by
  obtain ⟨w, he, -, -, hw⟩ := h
  have hlist : ("**/*" ++ e).toList = '*' :: '*' :: '/' :: '*' :: '.' :: w := by
    rw [String.toList_append, he]
    rfl
  have hbackslash : '\\' ∉ ("**/*" ++ e).toList := by
    rw [hlist]
    simpa using fun hmem => hw '\\' hmem (by decide)
  exact ⟨w, he, by rw [anchor_of_star (by rw [hlist]; rfl) hbackslash, hlist]⟩

theorem IsExtension.parse_isOk (h : IsExtension e) (root : String) :
    (parse (anchor root ("**/*" ++ e))).isOk = true := by
  obtain ⟨w, he, hanchor⟩ := h.toList_anchor root
  obtain ⟨w', he', -, -, hw⟩ := h
  obtain ⟨-, rfl⟩ := List.cons.inj (he.symm.trans he')
  rw [← String.ofList_toList (s := anchor root ("**/*" ++ e)), hanchor, parse_extension hw]
  rfl

/-- A path has the extension exactly if its last segment ends with it. -/
theorem IsExtension.matchesAt_iff (h : IsExtension e) :
    matchesAt root ("**/*" ++ e) path = true ↔ e.toList <:+ lastSegment root path := by
  obtain ⟨w, he, hanchor⟩ := h.toList_anchor root
  obtain ⟨w', he', hdot, hslash, hw⟩ := h
  obtain ⟨-, rfl⟩ := List.cons.inj (he.symm.trans he')
  rw [matchesAt, hanchor, he]
  exact accepts_extension hw hdot hslash (List.getLast?_eq_some_getLast _)

/-! ## Several extensions -/

/-- The selector of extensions selects the paths that have one of them. -/
theorem exists_build_extensions {extensions : List String} (hne : extensions ≠ [])
    (h : ∀ e ∈ extensions, IsExtension e) (root : String) :
    ∃ s, build root (extensions.map ("**/*" ++ ·)) [] = .ok s ∧
      ∀ path, s.selects path = true ↔ ∃ e ∈ extensions, e.toList <:+ lastSegment root path := by
  obtain ⟨s, hs⟩ : ∃ s, build root (extensions.map ("**/*" ++ ·)) [] = .ok s := by
    refine exists_build_iff.2 fun p hp => ?_
    rw [List.append_nil] at hp
    obtain ⟨e, he, rfl⟩ := List.mem_map.1 hp
    exact (h e he).parse_isOk root
  refine ⟨s, hs, fun path => ?_⟩
  rw [selects_of_build hs, List.isEmpty_map, List.isEmpty_eq_false_iff.2 hne, List.any_map]
  simp only [Bool.false_or, List.any_nil, Bool.not_false, Bool.and_true, List.any_eq_true,
    Function.comp_apply]
  exact exists_congr fun e => and_congr_right fun he => (h e he).matchesAt_iff

/-- **The default selector selects shader files.** It can be built for every root, and it selects a
path exactly if the last segment of its normal form ends with one of the extensions of shaders. -/
theorem selects_shaderFiles (root : String) :
    ∃ s, build root Patterns.shaderFiles [] = .ok s ∧
      ∀ path, s.selects path = true ↔
        ∃ e ∈ [".vs", ".fs", ".vert", ".frag", ".glsl", ".glslx"],
          e.toList <:+ lastSegment root path := by
  have hextensions : ∀ e ∈ [".vs", ".fs", ".vert", ".frag", ".glsl", ".glslx"], IsExtension e := by
    intro e he
    simp only [List.mem_cons, List.not_mem_nil, or_false] at he
    rcases he with rfl | rfl | rfl | rfl | rfl | rfl <;>
      exact ⟨_, rfl, by decide, by decide, plain_of_all (by decide)⟩
  exact exists_build_extensions (List.cons_ne_nil _ _) hextensions root

end ShaderModules.Selector
