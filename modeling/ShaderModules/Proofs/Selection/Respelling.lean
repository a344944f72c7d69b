import Mathlib.Logic.Relation
import ShaderModules.Proofs.Path.Names
import ShaderModules.Proofs.Selection.Anchoring

/-!
# Spellings of a path

A path can be spelled in many ways: segments that lead nowhere may stand anywhere in it. They are
empty, or a `.`, or a name followed by `..`. A selector looks at the normal form of a path only, and
all these spellings have the same one, as has the path joined to the root (`selects_respelled`).

* `Selector.Idle`: segments that lead nowhere (`foldNames_idle`).
* `Selector.Respells`: a path with such segments put in.
* `Selector.remaining`: the names of a normal form (`normalize_eq_slash`).
-/

namespace ShaderModules.Selector

open ShaderModules.Path

/-! ## Segments that lead nowhere -/

/-- Segments after which a walk is where it was before. -/
inductive Idle : List (List Char) → Prop
  /-- The segment between two slashes. -/
  | empty : Idle [[]]
  | here : Idle [['.']]
  /-- A name and the way back. -/
  | detour {n : String} : IsName n → Idle [n.toList, ['.', '.']]

/-- Segments that lead nowhere are put in at one place. It is not in front of the slash that an
absolute path starts with, and no slash is put in front of a relative path. -/
def Respells (p q : String) : Prop :=
  ∃ front idle back, Idle idle ∧ segments p.toList = front ++ back ∧
    segments q.toList = front ++ (idle ++ back) ∧ isAbsolute q = isAbsolute p

theorem foldNames_idle {idle : List (List Char)} (h : Idle idle) (acc : List (List Char)) :
    foldNames acc (idle.filterMap ofSegment?) = acc.reverse := by
  cases h with
  | empty => rfl
  | here => rfl
  | detour hn =>
    rw [List.filterMap_cons_some hn.isSegment]
    rfl

theorem foldNames_steps_respells {p q : String} (h : Respells p q) (acc : List (List Char)) :
    foldNames acc (steps q) = foldNames acc (steps p) := by
  obtain ⟨front, idle, back, hidle, hp, hq, -⟩ := h
  rw [steps, steps, hp, hq, List.filterMap_append, List.filterMap_append, List.filterMap_append,
    foldNames_append, foldNames_append, foldNames_idle hidle, foldNames_append]
  rw [List.reverse_reverse]

/-! ## Normal forms -/

section

variable {root : String} (hroot : isAbsolute root = true)

/-- The names that are left of a path below the root. -/
def remaining (root path : String) : List String :=
  (namesIn (join root path)).map String.ofList

theorem join_of_isAbsolute {path : String} (h : isAbsolute path = true) (base : String) :
    join base path = path := by
  rw [join, h, Bool.true_or, if_pos rfl]

/-- What a walk along a path passes before, if it starts at the root. -/
def startOf (root path : String) : List Component := if isAbsolute path then [] else steps root

theorem namesIn_join_eq (root path : String) :
    namesIn (join root path) =
      foldNames (foldNames [] (startOf root path)).reverse (steps path) := by
  rw [namesIn, foldNames_components, ← foldNames_append, startOf]
  cases hpath : isAbsolute path with
  | true => rw [join_of_isAbsolute hpath, if_pos rfl, List.nil_append]
  | false => rw [steps_join hpath, if_neg Bool.false_ne_true]

theorem isName_of_mem_remaining {path n : String} (h : n ∈ remaining root path) : IsName n := by
  obtain ⟨s, hs, rfl⟩ := List.mem_map.1 h
  have hall : ∀ s ∈ namesIn (join root path), ofSegment? s = some (.name s) ∧ '/' ∉ s := by
    rw [namesIn, foldNames_components]
    refine forall_mem_foldNames (fun s hs => absurd hs List.not_mem_nil) fun s hs => ?_
    obtain ⟨segment, hmem, hsegment⟩ := List.mem_filterMap.1 hs
    obtain rfl : segment = s := eq_of_ofSegment? hsegment
    exact ⟨hsegment, notMem_of_mem_segments hmem⟩
  have hname := hall s hs
  rw [← String.toList_ofList (l := s)] at hname
  exact ⟨hname.1, hname.2⟩

include hroot in
theorem isAbsolute_join_root (path : String) : isAbsolute (join root path) = true := by
  cases hpath : isAbsolute path with
  | true => rwa [join_of_isAbsolute hpath]
  | false => rw [isAbsolute_join (ne_empty_of_isAbsolute hroot) hpath, hroot]

include hroot in
/-- A normal form is a slash and names with slashes between them. -/
theorem normalize_eq_slash (path : String) :
    normalize root path = "/" ++ ofNames (remaining root path) := by
  have hjoined : (if isAbsolute path then path else join root path) = join root path := by
    cases hpath : isAbsolute path with
    | true => rw [if_pos rfl, join_of_isAbsolute hpath]
    | false => rw [if_neg Bool.false_ne_true]
  refine String.toList_inj.1 ?_
  rw [normalize, hjoined, if_pos (isAbsolute_join_root hroot path), String.toList_ofList,
    String.toList_append, ofNames, String.toList_intercalate, remaining, List.map_map]
  simp [namesIn]

include hroot in
theorem remaining_join (path : String) : remaining root (join root path) = remaining root path := by
  rw [remaining, join_of_isAbsolute (isAbsolute_join_root hroot path), remaining]

theorem remaining_of_respells {p q : String} (h : Respells p q) :
    remaining root q = remaining root p := by
  have hstart : startOf root q = startOf root p := by
    obtain ⟨-, -, -, -, -, -, habs⟩ := h
    rw [startOf, startOf, habs]
  rw [remaining, remaining, namesIn_join_eq, namesIn_join_eq, hstart, foldNames_steps_respells h]

theorem foldNames_named (acc : List (List Char)) (names : List String) :
    foldNames acc (named names) = acc.reverse ++ names.map String.toList := by
  induction names generalizing acc with
  | nil => simp [named, foldNames]
  | cons n names ih =>
    rw [named, List.map_cons, foldNames]
    exact (ih (n.toList :: acc)).trans (by simp)

theorem remaining_slash {names : List String} (hnames : ∀ n ∈ names, IsName n) :
    remaining root ("/" ++ ofNames names) = names := by
  have habs : isAbsolute ("/" ++ ofNames names) = true := by simp [isAbsolute]
  have hfold : namesIn ("/" ++ ofNames names) = names.map String.toList := by
    rw [namesIn, components_slash_ofNames hnames]
    exact foldNames_named [] names
  rw [remaining, join_of_isAbsolute habs, hfold, List.map_map]
  simp

/-- The way up removes the last name, if there is one. -/
theorem remaining_up (path : String) :
    remaining root (join path "..") = (remaining root path).dropLast := by
  have hstart : startOf root (join path "..") = startOf root path := by
    by_cases hpath : path = ""
    · subst hpath
      rfl
    · rw [startOf, startOf, isAbsolute_join hpath (by decide)]
  have hsteps : steps (join path "..") = steps path ++ [.up] := steps_join (by decide)
  rw [remaining, remaining, namesIn_join_eq, namesIn_join_eq, hstart, hsteps, foldNames_append,
    ← List.map_dropLast]
  simp only [foldNames, List.tail_reverse, List.reverse_reverse]

end

/-! ## Selecting -/

theorem selects_congr {s : Selector} {p q : String} (h : normalize s.root p = normalize s.root q) :
    s.selects p = s.selects q := by
  unfold selects
  rw [h]

/-- **The spelling of a path does not matter** to a selector with an absolute root: not whether it
is joined to the root, and not what stands in it that leads nowhere. The normal form it looks at is a
slash and names with slashes between them, is its own normal form, and has one name less for the way
up, which stays at the slash if there is none. -/
theorem selects_respelled {s : Selector} (hroot : isAbsolute s.root = true) :
    (∀ path, s.selects (join s.root path) = s.selects path) ∧
      (∀ p q, Relation.ReflTransGen Respells p q → s.selects q = s.selects p) ∧
      ∀ path, ∃ names, (∀ n ∈ names, IsName n) ∧
        normalize s.root path = "/" ++ ofNames names ∧
        normalize s.root (normalize s.root path) = normalize s.root path ∧
        normalize s.root (join path "..") = "/" ++ ofNames names.dropLast := by
  refine ⟨fun path => ?_, fun p q h => ?_, fun path => ?_⟩
  · refine selects_congr ?_
    rw [normalize_eq_slash hroot, normalize_eq_slash hroot, remaining_join hroot]
  · induction h with
    | refl => rfl
    | tail _ h ih =>
      rw [← ih]
      refine selects_congr ?_
      rw [normalize_eq_slash hroot, normalize_eq_slash hroot, remaining_of_respells h]
  · have hnames : ∀ n ∈ remaining s.root path, IsName n := fun n => isName_of_mem_remaining
    have hnormal := normalize_eq_slash hroot path
    refine ⟨remaining s.root path, hnames, hnormal, ?_, ?_⟩
    · rw [hnormal, normalize_eq_slash hroot, remaining_slash hnames]
    · rw [normalize_eq_slash hroot, remaining_up]

/-- A path with a `.`, a detour over a name, a doubled slash and a slash at its end. -/
theorem selects_respelled_detour :
    isAbsolute "/project" = true ∧
      Relation.ReflTransGen Respells "lib/../a.glsl" "./lib/x/../..//a.glsl/" ∧
      ∃ s, build "/project" ["./*.glsl"] [] = .ok s ∧ s.selects "lib/../a.glsl" = true ∧
        s.selects "./lib/x/../..//a.glsl/" = true ∧
        s.selects "/project/lib/../a.glsl" = true := by
  have hdot : Respells "lib/../a.glsl" "./lib/../a.glsl" :=
    ⟨[], [['.']], segments "lib/../a.glsl".toList, .here, rfl, by decide, by decide⟩
  have hdetour : Respells "./lib/../a.glsl" "./lib/x/../../a.glsl" :=
    ⟨segments "./lib".toList, ["x".toList, ['.', '.']], segments "../a.glsl".toList,
      .detour (by decide), by decide, by decide, by decide⟩
  have hdouble : Respells "./lib/x/../../a.glsl" "./lib/x/../..//a.glsl" :=
    ⟨segments "./lib/x/../..".toList, [[]], segments "a.glsl".toList, .empty, by decide, by decide,
      by decide⟩
  have hlast : Respells "./lib/x/../..//a.glsl" "./lib/x/../..//a.glsl/" :=
    ⟨segments "./lib/x/../..//a.glsl".toList, [[]], [], .empty, by decide, by decide, by decide⟩
  have hspelled : Relation.ReflTransGen Respells "lib/../a.glsl" "./lib/x/../..//a.glsl/" :=
    (((Relation.ReflTransGen.single hdot).tail hdetour).tail hdouble).tail hlast
  have hok : ∃ s, build "/project" ["./*.glsl"] [] = .ok s ∧ s.selects "lib/../a.glsl" = true :=
    exists_of_map_selects (by decide +kernel)
  obtain ⟨s, hs, hselects⟩ := hok
  obtain ⟨inc, exc, -, -, hparts⟩ := exists_of_build hs
  have hroot : s.root = "/project" := by rw [hparts]
  have habs : isAbsolute s.root = true := by
    rw [hroot]
    decide
  obtain ⟨hjoin, hrespelled, -⟩ := selects_respelled habs
  have hjoined : join s.root "lib/../a.glsl" = "/project/lib/../a.glsl" := by
    rw [hroot]
    decide
  exact ⟨by decide, hspelled, s, hs, hselects, (hrespelled _ _ hspelled).trans hselects,
    hjoined ▸ (hjoin "lib/../a.glsl").trans hselects⟩

end ShaderModules.Selector
