import ShaderModules.Proofs.Fallible
import ShaderModules.Proofs.Glob.Matching
import ShaderModules.Selection

/-!
# Selectors by their patterns

A selector can be built exactly if each of its patterns can be used (`build_isOk`), and its decision
is a combination of what its patterns match one by one (`selects_of_build`).

* `Selector.matchesAt`: whether one pattern matches a path, both taken relative to a root.
-/

namespace ShaderModules.Selector

/-! ## One pattern -/

/-- Whether a pattern can be used with a root and matches a path. -/
def matchesAt (root pattern path : String) : Bool :=
  Glob.accepts (anchor root pattern).toList (normalize root path).toList

theorem compilePattern_isOk (root pattern : String) :
    (compilePattern root pattern).isOk = (Glob.parse (anchor root pattern)).isOk := by
  unfold compilePattern Glob.compile
  cases Glob.parse (anchor root pattern) <;> rfl

theorem matches_of_compilePattern {root pattern : String} {g : Glob.Compiled}
    (h : compilePattern root pattern = .ok g) (path : String) :
    g.matches (normalize root path) = matchesAt root pattern path := by
  unfold compilePattern Glob.compile at h
  unfold matchesAt Glob.accepts
  rw [String.ofList_toList]
  cases hparse : Glob.parse (anchor root pattern) with
  | error f => rw [hparse] at h; cases h
  | ok tokens =>
    rw [hparse] at h
    cases h
    rfl

/-! ## All patterns -/

variable {root : String} {included excluded : Patterns}

/-- What the parts of a selector come from. -/
theorem exists_of_build {s : Selector} (h : build root included excluded = .ok s) :
    ∃ inc exc, included.mapM (compilePattern root) = .ok inc ∧
      excluded.mapM (compilePattern root) = .ok exc ∧
      s = ⟨root, if included.isEmpty then none else some inc, exc⟩ := by
  unfold build at h
  cases hinc : included.mapM (compilePattern root) with
  | error e => rw [hinc] at h; cases h
  | ok inc =>
    cases hexc : excluded.mapM (compilePattern root) with
    | error e => rw [hinc, hexc] at h; cases h
    | ok exc =>
      rw [hinc, hexc] at h
      cases h
      exact ⟨inc, exc, rfl, rfl, rfl⟩

/-- A selector can be built exactly if each pattern can be used. -/
theorem build_isOk : (build root included excluded).isOk =
    (included ++ excluded).all fun p => (Glob.parse (anchor root p)).isOk := by
  have hall : ∀ l : Patterns, (l.mapM (compilePattern root)).isOk =
      l.all fun p => (Glob.parse (anchor root p)).isOk := by
    intro l
    simp only [Fallible.mapM_isOk, compilePattern_isOk]
  rw [List.all_append, ← hall, ← hall]
  unfold build
  cases included.mapM (compilePattern root) with
  | error e => rfl
  | ok inc => cases excluded.mapM (compilePattern root) <;> rfl

theorem exists_build_iff : (∃ s, build root included excluded = .ok s) ↔
    ∀ p ∈ included ++ excluded, (Glob.parse (anchor root p)).isOk = true := by
  rw [← Fallible.isOk_iff, build_isOk, List.all_eq_true]

/-- A path is selected if there are no include patterns or one of them matches it, and no exclude
pattern does. -/
theorem selects_of_build {s : Selector} (h : build root included excluded = .ok s)
    (path : String) : s.selects path =
      ((included.isEmpty || included.any (matchesAt root · path)) &&
        !excluded.any (matchesAt root · path)) := by
  obtain ⟨inc, exc, hinc, hexc, rfl⟩ := exists_of_build h
  have hany : ∀ {l : Patterns} {globs : List Glob.Compiled},
      l.mapM (compilePattern root) = .ok globs →
        globs.any (·.matches (normalize root path)) = l.any (matchesAt root · path) :=
    fun hl => Fallible.any_of_mapM hl fun _ _ hp => matches_of_compilePattern hp path
  simp only [selects, hany hexc]
  cases hempty : included.isEmpty with
  | true => rfl
  | false => simp only [Bool.false_eq_true, if_false, hany hinc, Bool.false_or]

end ShaderModules.Selector
