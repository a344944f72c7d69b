import Mathlib.Tactic.ByContra
import ShaderModules.Proofs.Selection.Combination
import ShaderModules.Proofs.Selection.NormalForm

/-!
# Patterns below a root

A relative pattern is joined to the text of the root, and so is a relative path. If the text of the
root means nothing in a pattern, it is compared with itself: what is selected does not depend on
the root (`selects_root_irrel`). A root with other characters is read as a part of the pattern
(`selects_root_bracket`).

* `Selector.PlainRoot`: a root whose text is plain.
* `Selector.matchesBelow`: whether the names of a pattern match those of a path.
-/

namespace ShaderModules.Selector

open Glob

/-! ## Texts below the names of a root -/

theorem absoluteText_append (a : List (List Char)) {n : List (List Char)} (hn : n ≠ []) :
    absoluteText (a ++ n) = slashed a ++ slashed n := by
  rw [absoluteText_of_ne_nil (by simp [hn]), slashed_append]

theorem exists_slashed {n : List (List Char)} (hn : n ≠ []) : ∃ l, slashed n = '/' :: l := by
  obtain ⟨first, rest, rfl⟩ := List.exists_cons_of_ne_nil hn
  exact ⟨_, slashed_cons first rest⟩

/-- Whether a pattern of the names `n` matches a path of the names `m`. -/
def matchesBelow (n m : List (List Char)) : Bool :=
  if n = [] ∨ m = [] then decide (m = n) else accepts (slashed n) (slashed m)

section Names

variable {a : List (List Char)} (h : ∀ c ∈ slashed a, c ∉ wildcards)
include h

theorem plain_absoluteText : ∀ c ∈ absoluteText a, c ∉ wildcards := by
  by_cases ha : a = []
  · subst ha
    exact plain_of_all (by decide)
  · rwa [absoluteText_of_ne_nil ha]

/-- Names of a root do not decide whether a pattern can be used. -/
theorem parse_absoluteText_isOk (n : List (List Char)) :
    (parse (String.ofList (absoluteText (a ++ n)))).isOk =
      (parse (String.ofList (absoluteText n))).isOk := by
  by_cases hn : n = []
  · subst hn
    rw [List.append_nil, parse_plain (plain_absoluteText h)]
    exact (congrArg Except.isOk (parse_plain (l := ['/']) (plain_of_all (by decide)))).symm
  · obtain ⟨l, hl⟩ := exists_slashed hn
    rw [absoluteText_append a hn, absoluteText_of_ne_nil hn, hl]
    exact parse_append_isOk h l

/-- Names of a root are compared with themselves. Without any, the slash of the root must not be
all of the path. -/
theorem accepts_absoluteText (n : List (List Char)) {m : List (List Char)} (hm : [] ∉ m)
    (hne : m ≠ [] ∨ a ≠ []) :
    accepts (absoluteText (a ++ n)) (absoluteText (a ++ m)) = matchesBelow n m := by
  unfold matchesBelow
  by_cases hn : n = []
  · subst hn
    rw [if_pos (.inl rfl), List.append_nil,
      accepts_plain (plain_absoluteText h) (by simp [absoluteText])]
    refine decide_eq_decide.2 ⟨fun heq => ?_, fun heq => by rw [heq, List.append_nil]⟩
    by_contra hmne
    obtain ⟨first, rest, rfl⟩ := List.exists_cons_of_ne_nil hmne
    rw [absoluteText_append a hmne] at heq
    by_cases ha : a = []
    · subst ha
      simp [absoluteText] at heq
      simp [heq] at hm
    · rw [absoluteText_of_ne_nil ha] at heq
      simp at heq
  · obtain ⟨l, hl⟩ := exists_slashed hn
    rw [absoluteText_append a hn, hl]
    by_cases hmne : m = []
    · subst hmne
      rw [if_pos (.inr rfl), List.append_nil, absoluteText_of_ne_nil (hne.resolve_left (by simp)),
        not_accepts h]
      exact (decide_eq_false (Ne.symm hn)).symm
    · obtain ⟨k, hk⟩ := exists_slashed hmne
      rw [absoluteText_append a hmne, if_neg (by simp [hn, hmne]), hk]
      exact accepts_append h l k

end Names

/-! ## Patterns and paths below a root -/

/-- An absolute path whose text means nothing in a pattern. -/
structure PlainRoot (root : String) : Prop where
  isAbsolute : Path.isAbsolute root = true
  plain : ∀ c ∈ (normalize root ".").toList, c ∉ wildcards

/-- A relative path that does not leave the directory that it is relative to. -/
structure Inside (p : String) : Prop where
  relative : Path.isAbsolute p = false
  stays : Path.Component.up ∉ Path.components p

/-- A pattern that is taken relative to the root. -/
structure Anchored (pattern : String) : Prop extends Inside pattern where
  starless : pattern.toList.head? ≠ some '*'

theorem PlainRoot.plain_names {root : String} (h : PlainRoot root) :
    ∀ c ∈ slashed (namesIn root), c ∉ wildcards := by
  have hplain := h.plain
  rw [normalize_eq h.isAbsolute (by decide) (by decide), show namesIn "." = [] by decide,
    List.append_nil] at hplain
  by_cases hnames : namesIn root = []
  · simp [hnames]
  · rwa [absoluteText_of_ne_nil hnames] at hplain

theorem toList_normalize {root path : String} (hroot : Path.isAbsolute root = true)
    (h : Inside path) :
    (normalize root path).toList = absoluteText (namesIn root ++ namesIn path) :=
  normalize_eq hroot h.relative h.stays

theorem anchor_eq {root pattern : String} (hroot : Path.isAbsolute root = true)
    (h : Anchored pattern) :
    anchor root pattern = String.ofList (absoluteText (namesIn root ++ namesIn pattern)) := by
  rw [anchor, if_neg (by simp [h.starless, h.relative]), ← toList_normalize hroot h.toInside,
    String.ofList_toList]

variable {r₁ r₂ pattern path : String}

theorem parse_anchor_isOk (hroot : PlainRoot r₁) (h : Anchored pattern) :
    (parse (anchor r₁ pattern)).isOk =
      (parse (String.ofList (absoluteText (namesIn pattern)))).isOk := by
  rw [anchor_eq hroot.isAbsolute h, parse_absoluteText_isOk hroot.plain_names]

/-- What a pattern matches does not depend on a plain root, unless the path is the root itself. -/
theorem matchesAt_root_irrel (h₁ : PlainRoot r₁) (h₂ : PlainRoot r₂) (hpattern : Anchored pattern)
    (hpath : Inside path) (hsame : namesIn path ≠ [] ∨ (namesIn r₁ = [] ↔ namesIn r₂ = [])) :
    matchesAt r₁ pattern path = matchesAt r₂ pattern path := by
  have hm := nil_notMem_namesIn path
  simp only [matchesAt, anchor_eq h₁.isAbsolute hpattern, anchor_eq h₂.isAbsolute hpattern,
    toList_normalize h₁.isAbsolute hpath, toList_normalize h₂.isAbsolute hpath,
    String.toList_ofList]
  by_cases hempty : namesIn r₁ = [] ∧ namesIn r₂ = []
  · rw [hempty.1, hempty.2]
  · have hne₁ : namesIn path ≠ [] ∨ namesIn r₁ ≠ [] :=
      hsame.imp_right fun hiff hnil => hempty ⟨hnil, hiff.1 hnil⟩
    have hne₂ : namesIn path ≠ [] ∨ namesIn r₂ ≠ [] :=
      hsame.imp_right fun hiff hnil => hempty ⟨hiff.2 hnil, hnil⟩
    rw [accepts_absoluteText h₁.plain_names _ hm hne₁,
      accepts_absoluteText h₂.plain_names _ hm hne₂]

/-- **Relative patterns do not depend on a plain root**: whether they can be used, and which
relative paths they select. The path of the root itself is matched in another way where the root
is the slash alone. -/
theorem selects_root_irrel {included excluded : Patterns} (h₁ : PlainRoot r₁) (h₂ : PlainRoot r₂)
    (hpatterns : ∀ p ∈ included ++ excluded, Anchored p) :
    (build r₁ included excluded).isOk = (build r₂ included excluded).isOk ∧
      ∀ s₁ s₂, build r₁ included excluded = .ok s₁ → build r₂ included excluded = .ok s₂ →
        ∀ path, Inside path → (namesIn path ≠ [] ∨ (namesIn r₁ = [] ↔ namesIn r₂ = [])) →
          s₁.selects path = s₂.selects path := by
  constructor
  · rw [build_isOk, build_isOk, Bool.eq_iff_iff, List.all_eq_true, List.all_eq_true]
    refine forall₂_congr fun p hp => ?_
    rw [parse_anchor_isOk h₁ (hpatterns p hp), parse_anchor_isOk h₂ (hpatterns p hp)]
  · intro s₁ s₂ hs₁ hs₂ path hpath hsame
    have hany : ∀ l : Patterns, (∀ p ∈ l, p ∈ included ++ excluded) →
        l.any (matchesAt r₁ · path) = l.any (matchesAt r₂ · path) := by
      intro l hl
      rw [Bool.eq_iff_iff, List.any_eq_true, List.any_eq_true]
      refine exists_congr fun p => and_congr_right fun hp => ?_
      rw [matchesAt_root_irrel h₁ h₂ (hpatterns p (hl p hp)) hpath hsame]
    rw [selects_of_build hs₁, selects_of_build hs₂,
      hany included fun p hp => List.mem_append_left _ hp,
      hany excluded fun p hp => List.mem_append_right _ hp]

theorem exists_of_map_selects {x : Except SelectorError Selector} {path : String} {b : Bool}
    (h : (x.map (·.selects path)).toOption = some b) : ∃ s, x = .ok s ∧ s.selects path = b := by
  cases x with
  | error e => cases h
  | ok s => exact ⟨s, rfl, Option.some.inj h⟩

/-- Two projects with the same patterns, of which one is nested deeper. -/
theorem selects_root_irrel_nested :
    (build "/project" ["./src/*.glsl"] ["./src/vendor/**"]).isOk =
        (build "/work/shaders" ["./src/*.glsl"] ["./src/vendor/**"]).isOk ∧
      ∃ s₁ s₂, build "/project" ["./src/*.glsl"] ["./src/vendor/**"] = .ok s₁ ∧
        build "/work/shaders" ["./src/*.glsl"] ["./src/vendor/**"] = .ok s₂ ∧
          s₁.selects "src/wind.glsl" = s₂.selects "src/wind.glsl" := by
  have h₁ : PlainRoot "/project" := ⟨by decide, plain_of_all (by decide)⟩
  have h₂ : PlainRoot "/work/shaders" := ⟨by decide, plain_of_all (by decide)⟩
  have hpatterns : ∀ p ∈ ["./src/*.glsl"] ++ ["./src/vendor/**"], Anchored p := by
    intro p hp
    simp only [List.cons_append, List.nil_append, List.mem_cons, List.not_mem_nil, or_false] at hp
    rcases hp with rfl | rfl <;> exact ⟨⟨by decide, by decide⟩, by decide⟩
  obtain ⟨hbuild, hselects⟩ := selects_root_irrel h₁ h₂ hpatterns
  have hok₁ : ∃ s, build "/project" ["./src/*.glsl"] ["./src/vendor/**"] = .ok s ∧
      s.selects "src/wind.glsl" = true := exists_of_map_selects (by decide +kernel)
  have hok₂ : ∃ s, build "/work/shaders" ["./src/*.glsl"] ["./src/vendor/**"] = .ok s ∧
      s.selects "src/wind.glsl" = true := exists_of_map_selects (by decide +kernel)
  obtain ⟨s₁, hs₁, -⟩ := hok₁
  obtain ⟨s₂, hs₂, -⟩ := hok₂
  exact ⟨hbuild, s₁, s₂, hs₁, hs₂,
    hselects s₁ s₂ hs₁ hs₂ "src/wind.glsl" ⟨by decide, by decide⟩ (.inl (by decide))⟩

/-- Brackets in the text of a root are read as a class of characters, so that the pattern does not
match the file below this root. An open bracket makes the pattern unusable. -/
theorem selects_root_bracket :
    Path.isAbsolute "/project" ∧ Path.isAbsolute "/a[b]c" ∧ Path.isAbsolute "/a[b" ∧
      Anchored "./x.glsl" ∧ Inside "x.glsl" ∧
      (∃ s, build "/project" ["./x.glsl"] [] = .ok s ∧ s.selects "x.glsl" = true) ∧
      (∃ s, build "/a[b]c" ["./x.glsl"] [] = .ok s ∧ s.selects "x.glsl" = false) ∧
      (build "/a[b" ["./x.glsl"] []).isOk = false :=
  ⟨by decide, by decide, by decide, ⟨⟨by decide, by decide⟩, by decide⟩, ⟨by decide, by decide⟩,
    exists_of_map_selects (by decide +kernel), exists_of_map_selects (by decide +kernel),
    by decide +kernel⟩

end ShaderModules.Selector
