import ShaderModules.Proofs.Inlining.Reachability

/-!
# The expansion laid out text by text

The inliner keeps one list of pending lines. The same expansion can be laid out as a tree: for each
line of a text, what becomes of it, and below a directive that inlines a file, the layout of the
lines of this file (`Layout`). Depth-first, this is the order in which the lines are read
(`Layout.steps`).

A layout is an expansion if every step is what the line asks for after the steps before it
(`Layout.Expands`). A directive that fails is passed over, so that every source has an expansion
(`Layout.exists_isExpansion`), whether it can be resolved or not. Resolving takes the steps of the
expansion one after the other and stops at the first that fails
(`Layout.IsExpansion.resolve_value`).

* `Finds`: an entry that a line directs to, with what is read there.
* `Meets`: what becomes of a line after the entries that have been visited.
* `Step`: a line, and what becomes of it.
-/

namespace ShaderModules.Inliner

open FileTree

variable {tree : FileTree} {source : String} {o : ResolveOptions}

/-! ## The lines of a text -/

/-- A line to be read is the one of its text that has its number. -/
theorem getElem?_of_mem_pendingLines {file dir text : String} {p : Pending}
    (h : p ∈ pendingLines file dir text) : p.file = file ∧ 0 < p.number ∧
      (Text.lines text.toList)[p.number - 1]? = some p.text := by
  obtain ⟨i, hi, rfl⟩ := List.mem_mapIdx.1 h
  exact ⟨rfl, Nat.succ_pos i, List.getElem?_eq_getElem hi⟩

theorem exists_of_mem_fileLines {names : List String} {p : Pending} (h : p ∈ fileLines tree names) :
    ∃ text, tree.textAt? names = some text ∧
      p ∈ pendingLines (pathOf names) (pathOf names.dropLast) text := by
  unfold fileLines at h
  split at h
  · exact ⟨_, ‹_›, h⟩
  · cases h

/-! ## What becomes of a line -/

/-- A line directs to an entry, and this is what reading it gives. -/
def Finds (tree : FileTree) (dir : String) (line : List Char) (names : List String)
    (contents : Except ToolError String) : Prop :=
  ∃ target node, Directive.Line.ofText line = .target target ∧
    tree.locateAny true (Path.join dir target) = .ok (.found names node) ∧
    textOf names node = contents

theorem directs_iff {dir : String} {line : List Char} {names : List String} :
    Directs tree dir line names ↔ ∃ contents, Finds tree dir line names contents := by
  constructor
  · rintro ⟨target, node, hline, hloc⟩
    exact ⟨_, target, node, hline, hloc, rfl⟩
  · rintro ⟨contents, target, node, hline, hloc, -⟩
    exact ⟨target, node, hline, hloc⟩

theorem Finds.directs {dir : String} {line : List Char} {names : List String}
    {contents : Except ToolError String} (h : Finds tree dir line names contents) :
    Directs tree dir line names := directs_iff.2 ⟨contents, h⟩

theorem Finds.textAt? {dir text : String} {line : List Char} {names : List String}
    (h : Finds tree dir line names (.ok text)) : tree.textAt? names = some text := by
  obtain ⟨target, node, -, hloc, hcontents⟩ := h
  exact textAt?_of_textOf hloc hcontents

/-- What a line asks for that finds an entry. -/
theorem Finds.meet_eq {p : Pending} {names : List String} {contents : Except ToolError String}
    (h : Finds tree p.dir p.text names contents) (visited : List (List String)) :
    meet tree visited p =
      if names ∈ visited then .ok (.repeated names) else contents.map (.enter names) := by
  obtain ⟨target, node, hline, hloc, rfl⟩ := h
  exact meet_target hline hloc

theorem meet_repeated {visited : List (List String)} {p : Pending} {names : List String}
    (h : Directs tree p.dir p.text names) (hv : names ∈ visited) :
    meet tree visited p = .ok (.repeated names) := by
  obtain ⟨contents, hfinds⟩ := directs_iff.1 h
  rw [hfinds.meet_eq, if_pos hv]

theorem meet_missing {visited : List (List String)} {p : Pending} {target : String} {e : OsError}
    (hline : Directive.Line.ofText p.text = .target target)
    (h : tree.canonical (Path.join p.dir target) = .error e) :
    meet tree visited p = .error (.unreadable (Path.join p.dir target) e) := by
  rw [canonical] at h
  rw [meet, hline]
  dsimp only
  split at h
  · cases h
  · rename_i hloc
    cases h
    rw [hloc]
  · rename_i hloc
    cases h
    rw [hloc]

/-- What becomes of a line. -/
inductive Fate where
  | kept
  /-- It directs to an entry that has been visited. -/
  | repeated (names : List String)
  /-- It is replaced by the lines of the file that it directs to. -/
  | inlined (names : List String)
  /-- It directs to an entry that cannot be read. -/
  | unreadable (names : List String) (e : ToolError)
  /-- It is a directive and directs to nothing. -/
  | refused (e : ToolError)

/-- What becomes of a line after the entries `visited`. -/
inductive Meets (tree : FileTree) (visited : List (List String)) (p : Pending) : Fate → Prop
  | kept (plain : Directive.Line.ofText p.text = .plain) : Meets tree visited p .kept
  | repeated {names : List String} (directs : Directs tree p.dir p.text names)
      (seen : names ∈ visited) : Meets tree visited p (.repeated names)
  | inlined {names : List String} {text : String} (finds : Finds tree p.dir p.text names (.ok text))
      (first : names ∉ visited) : Meets tree visited p (.inlined names)
  | unreadable {names : List String} {e : ToolError}
      (finds : Finds tree p.dir p.text names (.error e)) (first : names ∉ visited) :
      Meets tree visited p (.unreadable names e)
  | malformed (line : Directive.Line.ofText p.text = .malformed) : Meets tree visited p
      (.refused (.directive p.file p.number (String.ofList (Text.trimmed p.text))))
  | missing {target : String} {e : OsError} (line : Directive.Line.ofText p.text = .target target)
      (fails : tree.canonical (Path.join p.dir target) = .error e) :
      Meets tree visited p (.refused (.unreadable (Path.join p.dir target) e))

theorem exists_meets (tree : FileTree) (visited : List (List String)) (p : Pending) :
    ∃ fate, Meets tree visited p fate := by
  cases hline : Directive.Line.ofText p.text with
  | plain => exact ⟨_, .kept hline⟩
  | malformed => exact ⟨_, .malformed hline⟩
  | target target =>
    cases hloc : tree.locateAny true (Path.join p.dir target) with
    | error e => exact ⟨_, .missing hline (e := e) (by rw [canonical, hloc])⟩
    | ok l =>
      cases l with
      | vacant dir name => exact ⟨_, .missing hline (e := .notFound) (by rw [canonical, hloc])⟩
      | found names node =>
        by_cases hv : names ∈ visited
        · exact ⟨_, .repeated ⟨target, node, hline, hloc⟩ hv⟩
        · cases htext : textOf names node with
          | error e => exact ⟨_, .unreadable ⟨target, node, hline, hloc, htext⟩ hv⟩
          | ok text => exact ⟨_, .inlined ⟨target, node, hline, hloc, htext⟩ hv⟩

/-! ## Steps -/

/-- A line, and what becomes of it. -/
structure Step where
  line : Pending
  fate : Fate

namespace Step

/-- The line, if it is kept. -/
def kept : Step → List Pending
  | ⟨p, .kept⟩ => [p]
  | _ => []

/-- The file that is inlined in place of the line. -/
def inlined : Step → List (List String)
  | ⟨_, .inlined names⟩ => [names]
  | _ => []

/-- The entry that is visited for the first time. -/
def visits : Step → List (List String)
  | ⟨_, .inlined names⟩ => [names]
  | ⟨_, .unreadable names _⟩ => [names]
  | _ => []

/-- The file whose repeated inclusion is skipped. -/
def skipped : Step → List (List String)
  | ⟨_, .repeated names⟩ => [names]
  | _ => []

/-- The error of the line, if it fails. -/
def errors : Step → List ToolError
  | ⟨_, .unreadable _ e⟩ => [e]
  | ⟨_, .refused e⟩ => [e]
  | _ => []

end Step

/-- The entries that have been visited after steps, the latest first. -/
def visitedBy (visited : List (List String)) (l : List Step) : List (List String) :=
  (l.flatMap Step.visits).reverse ++ visited

theorem visitedBy_append (visited : List (List String)) (l l' : List Step) :
    visitedBy visited (l ++ l') = visitedBy (visitedBy visited l) l' := by
  simp only [visitedBy, List.flatMap_append, List.reverse_append, List.append_assoc]

/-- The progress after steps. -/
def Progress.through (g : Progress) (l : List Step) : Progress where
  lines := ((l.flatMap Step.kept).map Pending.text).reverse ++ g.lines
  visited := visitedBy g.visited l
  skipped := (l.flatMap Step.skipped).reverse ++ g.skipped

theorem Progress.through_append (g : Progress) (l l' : List Step) :
    g.through (l ++ l') = (g.through l).through l' := by
  simp only [through, visitedBy_append, List.flatMap_append, List.map_append, List.reverse_append,
    List.append_assoc]

/-- A line asks for something unless its step has an error. -/
theorem Meets.meet_eq_error_iff {visited : List (List String)} {s : Step}
    (h : Meets tree visited s.line s.fate) (e : ToolError) :
    meet tree visited s.line = .error e ↔ e ∈ s.errors := by
  obtain ⟨p, fate⟩ := s
  dsimp only at h ⊢
  have hok : ∀ {m}, meet tree visited p = .ok m → (meet tree visited p = .error e ↔ e ∈ []) := by
    intro m hm
    rw [hm]
    exact ⟨fun h => (by cases h), fun h => (by cases h)⟩
  have hfails : ∀ {e'}, meet tree visited p = .error e' →
      (meet tree visited p = .error e ↔ e ∈ [e']) := by
    intro e' hm
    rw [hm, Except.error.injEq, List.mem_singleton, eq_comm]
  cases h with
  | kept hline => exact hok (m := .keep) (by rw [meet, hline])
  | repeated hdirects hseen => exact hok (meet_repeated hdirects hseen)
  | @inlined names text hfinds hfirst =>
    exact hok (m := .enter names text) (by rw [hfinds.meet_eq, if_neg hfirst]; rfl)
  | @unreadable names e' hfinds hfirst =>
    have hm : meet tree visited p = .error e' := by
      rw [hfinds.meet_eq, if_neg hfirst]
      rfl
    exact hfails hm
  | malformed hline => exact hfails (by rw [meet, hline])
  | missing hline hmissing => exact hfails (meet_missing hline hmissing)

/-- A step that does not fail leads to the lines of the file inlined, if there is one, and then to
those that were pending. -/
theorem Meets.expand_eq {g : Progress} {s : Step} (h : Meets tree g.visited s.line s.fate)
    (hok : s.errors = []) (pending : List Pending) :
    expand tree g (s.line :: pending) =
      expand tree (g.through [s]) (s.inlined.flatMap (fileLines tree) ++ pending) := by
  obtain ⟨p, fate⟩ := s
  dsimp only at h
  rw [expand_cons]
  cases h with
  | kept hline =>
    have hmeet : meet tree g.visited p = .ok .keep := by rw [meet, hline]
    rw [hmeet]
    rfl
  | repeated hdirects hseen =>
    rw [meet_repeated hdirects hseen]
    rfl
  | inlined hfinds hfirst =>
    rw [hfinds.meet_eq, if_neg hfirst]
    rfl
  | _ => cases hok

/-- A step that fails ends the expansion. -/
theorem Meets.expand_error {g : Progress} {s : Step} (h : Meets tree g.visited s.line s.fate)
    {e : ToolError} (he : s.errors.head? = some e) (pending : List Pending) :
    expand tree g (s.line :: pending) = (g, some e) := by
  rw [expand_cons, (h.meet_eq_error_iff e).2 (List.mem_of_head? he)]

/-! ## Layouts -/

/-- What becomes of the lines of a text, one after the other. Where a file is inlined, its lines are
laid out in the block of the line. -/
inductive Layout where
  | done
  | line (s : Step) (block rest : Layout)

namespace Layout

/-- The lines of the text itself. -/
def own : Layout → List Pending
  | done => []
  | line s _ rest => s.line :: rest.own

/-- All steps in the order of reading: the lines of a file come right after the directive that they
replace. -/
def steps : Layout → List Step
  | done => []
  | line s block rest => s :: (block.steps ++ rest.steps)

/-- The lines that come out. -/
def output (t : Layout) : List Pending := t.steps.flatMap Step.kept

/-- The files that are inlined. -/
def files (t : Layout) : List (List String) := t.steps.flatMap Step.inlined

/-- The files whose repeated inclusion is skipped. -/
def skips (t : Layout) : List (List String) := t.steps.flatMap Step.skipped

/-- The errors of the directives that fail. -/
def errors (t : Layout) : List ToolError := t.steps.flatMap Step.errors

/-- What is collected from the steps is that of the line, of its block, and of what follows. -/
theorem flatMap_steps_line {α : Type} (f : Step → List α) (s : Step) (block rest : Layout) :
    (line s block rest).steps.flatMap f =
      f s ++ (block.steps.flatMap f ++ rest.steps.flatMap f) := by
  rw [steps, List.flatMap_cons, List.flatMap_append]

section

variable (s : Step) (block rest : Layout)

theorem output_line : (line s block rest).output = s.kept ++ (block.output ++ rest.output) :=
  flatMap_steps_line Step.kept s block rest

theorem files_line : (line s block rest).files = s.inlined ++ (block.files ++ rest.files) :=
  flatMap_steps_line Step.inlined s block rest

theorem skips_line : (line s block rest).skips = s.skipped ++ (block.skips ++ rest.skips) :=
  flatMap_steps_line Step.skipped s block rest

theorem errors_line : (line s block rest).errors = s.errors ++ (block.errors ++ rest.errors) :=
  flatMap_steps_line Step.errors s block rest

end

/-- The layout is the expansion of its lines, after the entries `visited`. -/
inductive Expands (tree : FileTree) : List (List String) → Layout → Prop
  | done (visited : List (List String)) : Expands tree visited done
  | line {visited : List (List String)} {s : Step} {block rest : Layout}
      (meets : Meets tree visited s.line s.fate)
      (lines : block.own = s.inlined.flatMap (fileLines tree))
      (inner : Expands tree (visitedBy visited [s]) block)
      (after : Expands tree (visitedBy visited (s :: block.steps)) rest) :
      Expands tree visited (line s block rest)

/-- The layout is the expansion of a source. -/
structure IsExpansion (tree : FileTree) (source : String) (o : ResolveOptions) (t : Layout) :
    Prop where
  own : t.own = sourceLines source o
  expands : t.Expands tree (start tree o.file)

/-! ## Every source has an expansion -/

theorem unvisited_le {visited visited' : List (List String)} (h : visited ⊆ visited') :
    unvisited tree visited' ≤ unvisited tree visited := by
  unfold unvisited
  rw [← List.countP_eq_length_filter, ← List.countP_eq_length_filter]
  refine List.countP_mono_left fun names _ hnames => ?_
  rw [decide_eq_true_eq] at hnames ⊢
  exact fun hv => hnames (h hv)

/-- Every text has an expansion: a file is inlined only if it has not been visited, so that the
blocks end. -/
theorem exists_expands {n : Nat} {visited : List (List String)} (hn : unvisited tree visited ≤ n)
    (lines : List Pending) : ∃ t : Layout, t.own = lines ∧ t.Expands tree visited := by
  -- the outer induction is for the blocks, the inner one for the lines of one text
  induction n using Nat.strongRecOn generalizing visited lines with
  | ind n ihblock =>
    induction lines generalizing visited with
    | nil => exact ⟨.done, rfl, .done visited⟩
    | cons p lines ih =>
      obtain ⟨fate, hmeets⟩ := exists_meets tree visited p
      have hblock : ∃ block : Layout,
          block.own = (⟨p, fate⟩ : Step).inlined.flatMap (fileLines tree) ∧
          block.Expands tree (visitedBy visited [⟨p, fate⟩]) := by
        cases hmeets with
        | @inlined names text hfinds hfirst =>
          have hlt : unvisited tree (names :: visited) < n :=
            Nat.lt_of_lt_of_le (unvisited_lt (mem_names_of_textAt? hfinds.textAt?) hfirst) hn
          exact ihblock _ hlt (Nat.le_refl _) _
        | _ => exact ⟨.done, rfl, .done _⟩
      obtain ⟨block, hown, hinner⟩ := hblock
      have hle : unvisited tree (visitedBy visited (⟨p, fate⟩ :: block.steps)) ≤ n :=
        Nat.le_trans (unvisited_le (List.subset_append_right _ _)) hn
      obtain ⟨rest, hrest, hafter⟩ := ih hle
      exact ⟨.line ⟨p, fate⟩ block rest, congrArg (p :: ·) hrest, .line hmeets hown hinner hafter⟩

theorem exists_isExpansion (tree : FileTree) (source : String) (o : ResolveOptions) :
    ∃ t : Layout, t.IsExpansion tree source o := by
  obtain ⟨t, hown, hexpands⟩ := exists_expands (Nat.le_refl _) (sourceLines source o)
  exact ⟨t, hown, hexpands⟩

/-! ## Resolving goes through the expansion -/

namespace Expands

variable {t : Layout} {visited : List (List String)}

/-- Where no step fails, reading the lines of a layout is going through its steps. -/
theorem expand_eq (h : t.Expands tree visited) {g : Progress} (hg : g.visited = visited)
    (hok : t.errors = []) : expand tree g t.own = (g.through t.steps, none) := by
  induction h generalizing g with
  | done => rw [own, expand]; rfl
  | @line visited s block rest hmeets hlines _ _ ihblock ihrest =>
    rw [errors_line, List.append_eq_nil_iff, List.append_eq_nil_iff] at hok
    obtain ⟨hs, hblock, hrest⟩ := hok
    subst hg
    calc expand tree g (s.line :: rest.own)
        = expand tree (g.through [s]) (block.own ++ rest.own) := by
          rw [hmeets.expand_eq hs, hlines]
      _ = expand tree (g.through (s :: block.steps)) rest.own := by
          rw [expand_append, ihblock rfl hblock, andThen_of_ok rfl, ← Progress.through_append,
            List.singleton_append]
      _ = (g.through (s :: (block.steps ++ rest.steps)), none) := by
          rw [ihrest rfl hrest, ← Progress.through_append, List.cons_append]

/-- The first step that fails ends the expansion with its error. -/
theorem expand_error (h : t.Expands tree visited) {g : Progress} (hg : g.visited = visited)
    {e : ToolError} (he : t.errors.head? = some e) : (expand tree g t.own).2 = some e := by
  induction h generalizing g with
  | done => cases he
  | @line visited s block rest hmeets hlines hinner _ ihblock ihrest =>
    subst hg
    rw [errors_line] at he
    rw [own]
    -- the first error is that of the step, of its block, or of what follows
    by_cases hs : s.errors = []
    · rw [hs, List.nil_append] at he
      rw [hmeets.expand_eq hs, ← hlines, expand_append]
      by_cases hblock : block.errors = []
      · rw [hinner.expand_eq rfl hblock, andThen_of_ok rfl, ← Progress.through_append]
        exact ihrest rfl (by rwa [hblock, List.nil_append] at he)
      · have hfails := ihblock (g := g.through [s]) rfl (List.head?_append_of_ne_nil _ hblock ▸ he)
        rw [andThen_of_error hfails, hfails]
    · rw [hmeets.expand_error (List.head?_append_of_ne_nil _ hs ▸ he)]

end Expands

namespace IsExpansion

variable {t : Layout}

theorem expansion_eq (h : t.IsExpansion tree source o) :
    expansion tree source o = expand tree { visited := start tree o.file } t.own := by
  rw [h.own]
  rfl

/-- A source whose expansion has no step that fails is resolved, with an event for each directive
that is skipped. -/
theorem resolve_eq (h : t.IsExpansion tree source o) (hok : t.errors = []) :
    resolve tree source o = ⟨.ok (inlineMarker ++ unlines (t.output.map Pending.text)),
      t.skips.map (skipEvent o.file)⟩ := by
  unfold resolve
  rw [h.expansion_eq, h.expands.expand_eq rfl hok]
  simp only [Progress.through, List.append_nil, List.reverse_reverse]
  rfl

/-- **Resolving goes through the expansion** up to the first step that fails. -/
theorem resolve_value (h : t.IsExpansion tree source o) : (resolve tree source o).value =
    match t.errors.head? with
    | some e => .error e
    | none => .ok (inlineMarker ++ unlines (t.output.map Pending.text)) := by
  cases he : t.errors.head? with
  | some e =>
    have hfailure := h.expands.expand_error (g := { visited := start tree o.file }) rfl he
    unfold resolve
    rw [h.expansion_eq]
    generalize expand tree { visited := start tree o.file } t.own = result at hfailure ⊢
    obtain ⟨g, failure⟩ := result
    cases hfailure
    rfl
  | none => rw [h.resolve_eq (List.head?_eq_none_iff.1 he)]

/-- Only what has no step that fails is resolved. -/
theorem errors_eq_nil (h : t.IsExpansion tree source o) {text : String}
    (htext : (resolve tree source o).value = .ok text) : t.errors = [] := by
  rw [h.resolve_value] at htext
  split at htext
  · cases htext
  · exact List.head?_eq_none_iff.1 ‹_›

end IsExpansion

end Layout

end ShaderModules.Inliner
