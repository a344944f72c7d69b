import ShaderModules.Proofs.Path.Segments
import ShaderModules.Selection

/-!
# Normal forms of paths

A path is matched in a normal form: a slash and names with slashes between them. The names are
those that remain of the components when every `..` has removed the name in front of it. For a
relative path without `..` they are the names that remain of the root, followed by the names of the
path itself (`normalize_eq`).

* `Selector.namesIn`: the names that remain of a path.
* `Selector.slashed`: names, each behind a slash (`slashed_append`, `absoluteText_of_ne_nil`).
-/

namespace ShaderModules.Selector

/-! ## Names that remain -/

/-- The names that remain of the components of a path. -/
def namesIn (p : String) : List (List Char) := foldNames [] (Path.components p)

theorem foldNames_append (acc : List (List Char)) (l l' : List Path.Component) :
    foldNames acc (l ++ l') = foldNames (foldNames acc l).reverse l' := by
  induction l generalizing acc with
  | nil => simp [foldNames]
  | cons c rest ih => cases c <;> simp only [List.cons_append, foldNames, ih]

/-- Without `..`, what stands in front is kept. -/
theorem foldNames_of_notMem {l : List Path.Component} (h : Path.Component.up ∉ l)
    (acc : List (List Char)) : foldNames acc l = acc.reverse ++ foldNames [] l := by
  induction l generalizing acc with
  | nil => simp [foldNames]
  | cons c rest ih =>
    rw [List.mem_cons, not_or] at h
    cases c with
    | root => exact ih h.2 acc
    | here => exact ih h.2 acc
    | up => exact absurd rfl h.1
    | name n =>
      simp only [foldNames]
      rw [ih h.2, ih h.2 [n]]
      simp

/-- The component that a path starts with is no name and removes none. -/
theorem foldNames_components (acc : List (List Char)) (p : String) :
    foldNames acc (Path.components p) = foldNames acc (Path.steps p) := by
  cases h : Path.isAbsolute p with
  | true => rw [Path.components_of_isAbsolute h]; rfl
  | false =>
    rcases Path.components_of_not_isAbsolute h with hc | hc
    · rw [hc]
    · rw [hc]
      rfl

theorem up_mem_components {p : String} :
    Path.Component.up ∈ Path.components p ↔ Path.Component.up ∈ Path.steps p := by
  cases h : Path.isAbsolute p with
  | true => rw [Path.components_of_isAbsolute h]; simp
  | false => rcases Path.components_of_not_isAbsolute h with hc | hc <;> rw [hc]; simp

/-- A relative path adds its names to those of the path that it is joined to. -/
theorem namesIn_join {root path : String} (hpath : Path.isAbsolute path = false)
    (hup : Path.Component.up ∉ Path.components path) :
    namesIn (Path.join root path) = namesIn root ++ namesIn path := by
  simp only [namesIn, foldNames_components]
  rw [Path.steps_join hpath, foldNames_append,
    foldNames_of_notMem (fun h => hup (up_mem_components.2 h)), List.reverse_reverse]

/-- What holds of all names in front and of all names that follow holds of those that remain. -/
theorem forall_mem_foldNames {motive : List Char → Prop} {acc : List (List Char)}
    {l : List Path.Component} (hacc : ∀ n ∈ acc, motive n) (hl : ∀ n, .name n ∈ l → motive n) :
    ∀ n ∈ foldNames acc l, motive n := by
  induction l generalizing acc with
  | nil => simpa [foldNames] using hacc
  | cons c rest ih =>
    have hrest : ∀ n, .name n ∈ rest → motive n := fun n hn => hl n (List.mem_cons_of_mem _ hn)
    cases c with
    | root => exact ih hacc hrest
    | here => exact ih hacc hrest
    | up => exact ih (fun n hn => hacc n (List.mem_of_mem_tail hn)) hrest
    | name t =>
      refine ih (fun n hn => ?_) hrest
      rcases List.mem_cons.1 hn with rfl | hn
      · exact hl n List.mem_cons_self
      · exact hacc n hn

theorem nil_notMem_namesIn (p : String) : [] ∉ namesIn p := by
  have hall : ∀ n ∈ namesIn p, n ≠ [] := by
    unfold namesIn
    rw [foldNames_components]
    refine forall_mem_foldNames (by simp) fun n hn => ?_
    obtain ⟨s, -, hs⟩ := List.mem_filterMap.1 hn
    exact Path.ne_nil_of_ofSegment? hs
  exact fun h => hall [] h rfl

/-! ## The text of names -/

/-- Names, each behind a slash. -/
def slashed (names : List (List Char)) : List Char := names.flatMap ('/' :: ·)

@[simp] theorem slashed_nil : slashed [] = [] := rfl

@[simp] theorem slashed_cons (n : List Char) (names : List (List Char)) :
    slashed (n :: names) = '/' :: (n ++ slashed names) := rfl

theorem slashed_append (a b : List (List Char)) : slashed (a ++ b) = slashed a ++ slashed b :=
  List.flatMap_append

/-- A slash and names with slashes between them. -/
def absoluteText (names : List (List Char)) : List Char := '/' :: ['/'].intercalate names

theorem absoluteText_of_ne_nil {names : List (List Char)} (h : names ≠ []) :
    absoluteText names = slashed names := by
  obtain ⟨n, rest, rfl⟩ := List.exists_cons_of_ne_nil h
  unfold absoluteText
  rw [slashed_cons]
  refine congrArg ('/' :: ·) ?_
  induction rest generalizing n with
  | nil => simp [List.intercalate]
  | cons m rest ih =>
    rw [slashed_cons, ← ih m (List.cons_ne_nil _ _)]
    simp [List.intercalate, List.intersperse]

/-- The normal form of a relative path: the names of the root, then those of the path. -/
theorem normalize_eq {root path : String} (hroot : Path.isAbsolute root = true)
    (hpath : Path.isAbsolute path = false) (hup : Path.Component.up ∉ Path.components path) :
    (normalize root path).toList = absoluteText (namesIn root ++ namesIn path) := by
  have hne : root ≠ "" := fun h => by subst h; cases hroot
  simp only [normalize, hpath, Bool.false_eq_true, if_false, Path.isAbsolute_join hne hpath, hroot,
    if_true, String.toList_ofList]
  rw [← namesIn_join hpath hup]
  rfl

end ShaderModules.Selector
