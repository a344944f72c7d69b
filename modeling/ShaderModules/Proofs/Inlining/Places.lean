import Mathlib.Data.List.Induction
import ShaderModules.Proofs.Inlining.Layout

/-!
# Where a step of an expansion stands

A step is about a line of one text, and this text is laid out around it: the expansion of the lines
ahead, the step with its block, and the expansion of the lines behind
(`Layout.Expands.exists_place`). Text by text, all lines are read, each once and in its order
(`Layout.own_sublist`, `Layout.Expands.fileLines_sublist`, `Layout.Expands.lines_perm`), and no file
is inlined twice (`Layout.Expands.files_nodup`).

* `Layout.Place`: where a step stands.
* `Layout.Expands.mem_visitedBy_iff`: after some steps, what their lines direct to has been visited.
-/

namespace ShaderModules.Inliner

open FileTree

variable {tree : FileTree} {source : String} {o : ResolveOptions}

/-! ## What a step visits -/

/-- A line directs to what its step skips because it has been visited, or visits because it has
not. -/
theorem Meets.directs_iff {visited : List (List String)} {s : Step}
    (h : Meets tree visited s.line s.fate) (names : List String) :
    Directs tree s.line.dir s.line.text names ↔
      names ∈ s.skipped ∧ names ∈ visited ∨ names ∈ s.visits ∧ names ∉ visited := by
  obtain ⟨p, fate⟩ := s
  dsimp only at h ⊢
  have hnone : ¬Directs tree p.dir p.text names →
      (Directs tree p.dir p.text names ↔
        names ∈ [] ∧ names ∈ visited ∨ names ∈ [] ∧ names ∉ visited) := by
    intro hd
    simp [hd]
  have hfirst : ∀ {names'}, Directs tree p.dir p.text names' → names' ∉ visited →
      (Directs tree p.dir p.text names ↔
        names ∈ [] ∧ names ∈ visited ∨ names ∈ [names'] ∧ names ∉ visited) := by
    intro names' hd hv
    constructor
    · intro hd'
      obtain rfl := hd'.unique hd
      exact .inr ⟨List.mem_singleton_self _, hv⟩
    · rintro (⟨hnil, -⟩ | ⟨hmem, -⟩)
      · cases hnil
      · exact List.mem_singleton.1 hmem ▸ hd
  cases h with
  | kept hline =>
    refine hnone fun ⟨target, node, hline', _⟩ => ?_
    cases hline.symm.trans hline'
  | @repeated names' hd hseen =>
    constructor
    · intro hd'
      obtain rfl := hd'.unique hd
      exact .inl ⟨List.mem_singleton_self _, hseen⟩
    · rintro (⟨hmem, -⟩ | ⟨hnil, -⟩)
      · exact List.mem_singleton.1 hmem ▸ hd
      · cases hnil
  | inlined hfinds hv => exact hfirst hfinds.directs hv
  | unreadable hfinds hv => exact hfirst hfinds.directs hv
  | malformed hline =>
    refine hnone fun ⟨target, node, hline', _⟩ => ?_
    cases hline.symm.trans hline'
  | missing hline hfails =>
    refine hnone fun hd => ?_
    cases hfails.symm.trans (hd.canonical hline)

theorem mem_visitedBy_singleton {visited : List (List String)} {s : Step} {names : List String} :
    names ∈ visitedBy visited [s] ↔ names ∈ s.visits ∨ names ∈ visited := by
  rw [visitedBy, List.flatMap_singleton, List.mem_append, List.mem_reverse]

/-- Behind a line, what it directs to has been visited, and nothing else that was not before. -/
theorem Meets.mem_visitedBy_iff {visited : List (List String)} {s : Step}
    (h : Meets tree visited s.line s.fate) {names : List String} : names ∈ visitedBy visited [s] ↔
      names ∈ visited ∨ Directs tree s.line.dir s.line.text names := by
  rw [mem_visitedBy_singleton, h.directs_iff]
  tauto

/-- No entry is visited twice. -/
theorem Meets.visitedBy_nodup {visited : List (List String)} {s : Step}
    (h : Meets tree visited s.line s.fate) (hv : visited.Nodup) :
    (visitedBy visited [s]).Nodup := by
  obtain ⟨p, fate⟩ := s
  cases fate with
  | inlined names =>
    cases h with
    | inlined _ hfirst => exact List.nodup_cons.2 ⟨hfirst, hv⟩
  | unreadable names e =>
    cases h with
    | unreadable _ hfirst => exact List.nodup_cons.2 ⟨hfirst, hv⟩
  | _ => exact hv

theorem inlined_sublist_visits (l : List Step) :
    (l.flatMap Step.inlined).Sublist (l.flatMap Step.visits) := by
  induction l with
  | nil => exact .slnil
  | cons s l ih =>
    obtain ⟨p, fate⟩ := s
    refine List.Sublist.append ?_ ih
    cases fate with
    | inlined names => exact .refl _
    | _ => exact List.nil_sublist _

namespace Layout

variable {t : Layout} {visited : List (List String)}

/-! ## The lines that are read -/

/-- The lines of a text are read in their order. -/
theorem own_sublist (t : Layout) : t.own.Sublist (t.steps.map Step.line) := by
  induction t with
  | done => exact .slnil
  | line s block rest _ ih =>
    rw [own, steps, List.map_cons, List.map_append]
    exact (ih.trans (List.sublist_append_right _ _)).cons_cons s.line

/-- A file is inlined in place of a line. -/
theorem exists_of_mem_files {names : List String} (h : names ∈ t.files) :
    ∃ before p after, t.steps = before ++ ⟨p, .inlined names⟩ :: after := by
  obtain ⟨⟨p, fate⟩, hs, hnames⟩ := List.mem_flatMap.1 h
  obtain ⟨before, after, hsteps⟩ := List.append_of_mem hs
  cases fate with
  | inlined names' =>
    cases List.mem_singleton.1 hnames
    exact ⟨before, p, after, hsteps⟩
  | _ => cases hnames

/-- The lines that are read are those that are laid out and those of the files inlined. -/
theorem Expands.lines_perm (h : t.Expands tree visited) :
    (t.steps.map Step.line).Perm (t.own ++ t.files.flatMap (fileLines tree)) := by
  induction h with
  | done => exact .nil
  | @line visited s block rest _ hlines _ _ ihblock ih =>
    rw [files_line, own, steps, List.map_cons, List.map_append, List.cons_append,
      List.flatMap_append, List.flatMap_append, ← hlines]
    refine .cons _ ((ihblock.append ih).trans ?_)
    rw [← List.append_assoc block.own]
    exact List.perm_append_comm_assoc _ _ _

/-! ## Where a step stands -/

/-- The lines of a text in an expansion, with the steps before and behind those of the text: the
lines that are laid out, or the lines of a file, right behind the directive that they replace. -/
inductive IsText (tree : FileTree) (t : Layout) : List Step → List Step → List Pending → Prop
  | whole : IsText tree t [] [] t.own
  | file (outer beyond : List Step) (p : Pending) (names : List String) :
      IsText tree t (outer ++ [⟨p, .inlined names⟩]) beyond (fileLines tree names)

/-- Where a step of an expansion stands: in a text, between the expansion of the lines ahead of its
own and that of the lines behind. -/
structure Place (tree : FileTree) (visited : List (List String)) (t : Layout)
    (before : List Step) (s : Step) (after : List Step) where
  outside : List Step
  ahead : Layout
  block : Layout
  behind : Layout
  beyond : List Step
  before_eq : before = outside ++ ahead.steps
  after_eq : after = block.steps ++ (behind.steps ++ beyond)
  text : IsText tree t outside beyond (ahead.own ++ s.line :: behind.own)
  lines : block.own = s.inlined.flatMap (fileLines tree)
  meets : Meets tree (visitedBy visited before) s.line s.fate
  expands_ahead : ahead.Expands tree (visitedBy visited outside)
  expands_block : block.Expands tree (visitedBy (visitedBy visited before) [s])
  expands_behind : behind.Expands tree (visitedBy (visitedBy visited before) (s :: block.steps))

namespace Place

variable {visited : List (List String)} {r s : Step} {b rest : Layout} {before after : List Step}

/-- A place in what follows a line is one in the text of the line, or in a text further in. -/
theorem of_rest (hmeets : Meets tree visited r.line r.fate)
    (hlines : b.own = r.inlined.flatMap (fileLines tree))
    (hinner : b.Expands tree (visitedBy visited [r]))
    (place : Place tree (visitedBy visited (r :: b.steps)) rest before s after) :
    Nonempty (Place tree visited (.line r b rest) (r :: (b.steps ++ before)) s after) := by
  obtain ⟨outside, ahead, block, behind, beyond, hbefore, hafter, htext, hblock, hstep, hahead,
    hexpands, hbehind⟩ := place
  rw [← visitedBy_append visited (r :: b.steps) before] at hstep hexpands hbehind
  generalize hown : ahead.own ++ s.line :: behind.own = own at htext
  cases htext with
  | whole =>
    refine ⟨⟨[], .line r b ahead, block, behind, [], ?_, hafter, ?_, hblock, hstep,
      .line hmeets hlines hinner hahead, hexpands, hbehind⟩⟩
    · rw [hbefore]
      rfl
    · rw [Layout.own, List.cons_append, hown]
      exact .whole
  | file outer beyond p names =>
    rw [← visitedBy_append] at hahead
    refine ⟨⟨(r :: b.steps) ++ (outer ++ [⟨p, .inlined names⟩]), ahead, block, behind, beyond, ?_,
      hafter, ?_, hblock, hstep, hahead, hexpands, hbehind⟩⟩
    · rw [hbefore]
      simp only [List.cons_append, List.append_assoc]
    · rw [hown, ← List.append_assoc]
      exact .file ((r :: b.steps) ++ outer) beyond p names

/-- A place in the block of a line is one in the file inlined there, or in a text further in. -/
theorem of_block (hlines : b.own = r.inlined.flatMap (fileLines tree))
    (place : Place tree (visitedBy visited [r]) b before s after) :
    Nonempty (Place tree visited (.line r b rest) (r :: before) s (after ++ rest.steps)) := by
  obtain ⟨outside, ahead, block, behind, beyond, hbefore, hafter, htext, hblock, hstep, hahead,
    hexpands, hbehind⟩ := place
  rw [← visitedBy_append visited [r] before] at hstep hexpands hbehind
  rw [← visitedBy_append] at hahead
  generalize hown : ahead.own ++ s.line :: behind.own = own at htext
  have hbefore' : r :: before = [r] ++ outside ++ ahead.steps := by
    rw [hbefore]
    rfl
  have hafter' : after ++ rest.steps = block.steps ++ (behind.steps ++ (beyond ++ rest.steps)) := by
    rw [hafter, List.append_assoc, List.append_assoc]
  refine ⟨⟨[r] ++ outside, ahead, block, behind, beyond ++ rest.steps, hbefore', hafter', ?_,
    hblock, hstep, hahead, hexpands, hbehind⟩⟩
  rw [hown]
  cases htext with
  | whole =>
    obtain ⟨p, fate⟩ := r
    rw [hlines] at hown ⊢
    cases fate with
    | inlined names =>
      rw [Step.inlined, List.flatMap_singleton]
      exact .file [] _ p names
    | _ => exact absurd hown (by simp [Step.inlined])
  | file outer beyond p names => exact .file (r :: outer) _ p names

end Place

namespace Expands

/-- A step of an expansion has its place in it. -/
theorem exists_place (h : t.Expands tree visited) {before after : List Step} {s : Step}
    (hsteps : t.steps = before ++ s :: after) : Nonempty (Place tree visited t before s after) := by
  induction h generalizing before after with
  | done => cases before <;> cases hsteps
  | @line visited r b rest hmeets hlines hinner hafter ihblock ihrest =>
    rw [steps] at hsteps
    cases before with
    | nil =>
      obtain ⟨rfl, rfl⟩ := List.cons.inj hsteps
      exact ⟨⟨[], .done, b, rest, [], rfl, by rw [List.append_nil], .whole, hlines, hmeets,
        .done visited, hinner, hafter⟩⟩
    | cons r' before =>
      obtain ⟨rfl, htail⟩ := List.cons.inj hsteps
      -- the step follows the block, is the first to follow it, or is in it
      rcases List.append_eq_append_iff.1 htail with ⟨m, rfl, hrest⟩ | ⟨m, hblock, htail⟩
      · exact (ihrest hrest).elim (Place.of_rest hmeets hlines hinner)
      · rcases List.cons_eq_append_iff.1 htail with ⟨rfl, hrest⟩ | ⟨m, rfl, rfl⟩
        · rw [List.append_nil] at hblock
          subst hblock
          have hrest' : rest.steps = [] ++ s :: after := hrest
          have hplace := (ihrest hrest').elim (Place.of_rest hmeets hlines hinner)
          rwa [List.append_nil] at hplace
        · exact (ihblock hblock).elim (Place.of_block hlines)

/-- After some steps of an expansion, what their lines direct to has been visited, and nothing else
that was not before. -/
theorem mem_visitedBy_iff (h : t.Expands tree visited) {before after : List Step}
    (hsteps : t.steps = before ++ after) (names : List String) :
    names ∈ visitedBy visited before ↔
      names ∈ visited ∨ ∃ s ∈ before, Directs tree s.line.dir s.line.text names := by
  induction before using List.reverseRecOn generalizing after with
  | nil => simp [visitedBy]
  | append_singleton before s ih =>
    rw [List.append_assoc, List.singleton_append] at hsteps
    obtain ⟨place⟩ := h.exists_place hsteps
    rw [visitedBy_append, place.meets.mem_visitedBy_iff, ih hsteps, or_assoc]
    simp only [List.mem_append, List.mem_singleton, or_and_right, exists_or, exists_eq_left]

/-- What is inlined has not been visited before. -/
theorem notMem_of_mem_files (h : t.Expands tree visited) {names : List String}
    (hnames : names ∈ t.files) : names ∉ visited := by
  obtain ⟨before, p, after, hsteps⟩ := exists_of_mem_files hnames
  obtain ⟨place⟩ := h.exists_place hsteps
  cases place.meets with
  | inlined _ hfirst => exact fun hv => hfirst (List.mem_append_right _ hv)

/-- The lines of a file inlined are read in their order. -/
theorem fileLines_sublist (h : t.Expands tree visited) {names : List String}
    (hnames : names ∈ t.files) : (fileLines tree names).Sublist (t.steps.map Step.line) := by
  obtain ⟨before, p, after, hsteps⟩ := exists_of_mem_files hnames
  obtain ⟨place⟩ := h.exists_place hsteps
  have hown : place.block.own = fileLines tree names :=
    place.lines.trans (List.flatMap_singleton _ _)
  rw [hsteps, place.after_eq, ← hown]
  refine place.block.own_sublist.trans (List.Sublist.map _ ?_)
  exact (List.sublist_append_left _ _).trans
    ((List.sublist_cons_self _ _).trans (List.sublist_append_right _ _))

/-- No file is inlined twice. -/
theorem visitedBy_nodup (h : t.Expands tree visited) (hv : visited.Nodup) :
    (visitedBy visited t.steps).Nodup := by
  induction h with
  | done => exact hv
  | @line visited s block rest hmeets _ _ _ ihblock ih =>
    have hblock := ihblock (hmeets.visitedBy_nodup hv)
    rw [← visitedBy_append] at hblock
    have hrest := ih hblock
    rwa [← visitedBy_append] at hrest

theorem files_nodup (h : t.Expands tree visited) (hv : visited.Nodup) : t.files.Nodup := by
  have hvisits := (List.nodup_append.1 (h.visitedBy_nodup hv)).1
  exact (List.nodup_reverse.1 hvisits).sublist (inlined_sublist_visits t.steps)

end Expands

/-- A line that is read is a line of the source or of a file inlined, with the name of its text and
the number that it has there. -/
theorem IsExpansion.exists_text (h : t.IsExpansion tree source o) {s : Step} (hs : s ∈ t.steps) :
    ∃ contents, (s.line.file = o.file ∧ contents = source ∨
        ∃ names ∈ t.files, s.line.file = pathOf names ∧ tree.textAt? names = some contents) ∧
      0 < s.line.number ∧
      (Text.lines contents.toList)[s.line.number - 1]? = some s.line.text := by
  have hline : s.line ∈ t.own ++ t.files.flatMap (fileLines tree) :=
    h.expands.lines_perm.mem_iff.1 (List.mem_map_of_mem hs)
  rcases List.mem_append.1 hline with hown | hfile
  · rw [h.own] at hown
    obtain ⟨hfile, hnumber⟩ := getElem?_of_mem_pendingLines hown
    exact ⟨source, .inl ⟨hfile, rfl⟩, hnumber⟩
  · obtain ⟨names, hnames, hline⟩ := List.mem_flatMap.1 hfile
    obtain ⟨contents, hcontents, hline⟩ := exists_of_mem_fileLines hline
    obtain ⟨hfile, hnumber⟩ := getElem?_of_mem_pendingLines hline
    exact ⟨contents, .inr ⟨names, hnames, hfile, hcontents⟩, hnumber⟩

end Layout

end ShaderModules.Inliner
