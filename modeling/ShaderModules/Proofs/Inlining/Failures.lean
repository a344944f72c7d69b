import ShaderModules.Proofs.Inlining.Places

/-!
# Where inlining fails

Resolving fails exactly if the depth-first expansion of the source meets a directive that fails, and
then with the error of the first one (`resolve_fails_at_first`). A directive fails if it has no
target, if its target leads nowhere, or if it is the first to name an entry that cannot be read
(`Fails`). What has been named before is never read again.

* `Named`: an entry that the steps before have named.
-/

namespace ShaderModules.Inliner

open FileTree

variable {tree : FileTree} {source : String} {o : ResolveOptions}

/-- The entry is the preprocessed file, or the line of a step before directs to it. -/
def Named (tree : FileTree) (o : ResolveOptions) (before : List Step) (names : List String) :
    Prop :=
  IsSource tree o names ∨ ∃ s ∈ before, Directs tree s.line.dir s.line.text names

/-- A directive that fails, behind the steps `before`, with its error. -/
inductive Fails (tree : FileTree) (o : ResolveOptions) (before : List Step) (p : Pending) :
    ToolError → Prop
  | malformed (line : Directive.Line.ofText p.text = .malformed) : Fails tree o before p
      (.directive p.file p.number (String.ofList (Text.trimmed p.text)))
  | missing {target : String} {cause : OsError}
      (line : Directive.Line.ofText p.text = .target target)
      (fails : tree.canonical (Path.join p.dir target) = .error cause) :
      Fails tree o before p (.unreadable (Path.join p.dir target) cause)
  | unreadable {names : List String} {cause : OsError}
      (finds : Finds tree p.dir p.text names (.error (.unreadable (pathOf names) cause)))
      (first : ¬Named tree o before names) :
      Fails tree o before p (.unreadable (pathOf names) cause)

/-- An entry is read as a text unless it is no file or its bytes are no text. -/
theorem exists_of_textOf_eq_error {names : List String} {node : Node} {e : ToolError}
    (h : textOf names node = .error e) : ∃ cause, e = .unreadable (pathOf names) cause := by
  unfold textOf at h
  split at h
  · split at h
    · cases h
    · exact ⟨_, (Except.error.inj h).symm⟩
  · exact ⟨_, (Except.error.inj h).symm⟩

section

variable {visited : List (List String)} {before : List Step}
  (hnamed : ∀ names, names ∈ visited ↔ Named tree o before names)
include hnamed

/-- A directive that fails makes the inliner fail. -/
theorem Fails.meet_eq {p : Pending} {e : ToolError} (h : Fails tree o before p e) :
    meet tree visited p = .error e := by
  cases h with
  | malformed hline => rw [meet, hline]
  | missing hline hmissing => exact meet_missing hline hmissing
  | unreadable hfinds hfirst =>
    rw [hfinds.meet_eq, if_neg fun hv => hfirst ((hnamed _).1 hv)]
    rfl

/-- A step has an error exactly if its directive fails. -/
theorem Meets.mem_errors_iff {s : Step} (h : Meets tree visited s.line s.fate) (e : ToolError) :
    e ∈ s.errors ↔ Fails tree o before s.line e := by
  refine ⟨fun he => ?_, fun hfails => (h.meet_eq_error_iff e).1 (hfails.meet_eq hnamed)⟩
  obtain ⟨p, fate⟩ := s
  dsimp only at h ⊢
  cases h with
  | unreadable hfinds hfirst =>
    cases List.mem_singleton.1 he
    obtain ⟨target, node, -, -, hnode⟩ := id hfinds
    obtain ⟨cause, rfl⟩ := exists_of_textOf_eq_error hnode
    exact .unreadable hfinds fun hn => hfirst ((hnamed _).2 hn)
  | malformed hline =>
    cases List.mem_singleton.1 he
    exact .malformed hline
  | missing hline hmissing =>
    cases List.mem_singleton.1 he
    exact .missing hline hmissing
  | _ => cases he

/-- A directive that names what has been named before is skipped, whatever the entry holds. -/
theorem Meets.fate_eq_repeated {s : Step} (h : Meets tree visited s.line s.fate)
    {names : List String} (hd : Directs tree s.line.dir s.line.text names)
    (hn : Named tree o before names) : s.fate = .repeated names := by
  have hv : names ∈ visited := (hnamed names).2 hn
  obtain ⟨hskipped, -⟩ := ((h.directs_iff names).1 hd).resolve_right fun hfirst => hfirst.2 hv
  obtain ⟨p, fate⟩ := s
  cases fate with
  | repeated names' => rw [List.mem_singleton.1 hskipped]
  | _ => cases hskipped

end

namespace Layout

variable {t : Layout}

theorem IsExpansion.mem_visitedBy_iff (h : t.IsExpansion tree source o) {before after : List Step}
    (hsteps : t.steps = before ++ after) (names : List String) :
    names ∈ visitedBy (start tree o.file) before ↔ Named tree o before names := by
  rw [h.expands.mem_visitedBy_iff hsteps, mem_start, Named]

end Layout

/-- **Inlining fails at the first directive that fails.** The errors of an expansion are those of
the directives that fail, in the order of reading, and resolving fails exactly with the first of
them. A directive that names what has been named before is skipped, whatever is to be read there.
The error of a directive without a target has the name of its text, the number that the line has
there, and the line. -/
theorem resolve_fails_at_first (tree : FileTree) (source : String) (o : ResolveOptions) :
    (∃ t : Layout, t.IsExpansion tree source o) ∧
    ∀ t : Layout, t.IsExpansion tree source o →
      (∀ e, (resolve tree source o).value = .error e ↔ t.errors.head? = some e) ∧
      (∀ before s after, t.steps = before ++ s :: after →
        (∀ e, e ∈ s.errors ↔ Fails tree o before s.line e) ∧
        ∀ names, Directs tree s.line.dir s.line.text names → Named tree o before names →
          s.fate = .repeated names) ∧
      ∀ file number text, (resolve tree source o).value = .error (.directive file number text) →
        ∃ contents line, (file = o.file ∧ contents = source ∨
            ∃ names ∈ t.files, file = pathOf names ∧ tree.textAt? names = some contents) ∧
          0 < number ∧ (Text.lines contents.toList)[number - 1]? = some line ∧
          Directive.Line.ofText line = .malformed ∧
          text = String.ofList (Text.trimmed line) := by
  refine ⟨Layout.exists_isExpansion tree source o, fun t hexpansion => ?_⟩
  have hvalue : ∀ e, (resolve tree source o).value = .error e ↔ t.errors.head? = some e := by
    intro e
    rw [hexpansion.resolve_value]
    cases t.errors.head? with
    | none => simp
    | some e' => simp
  refine ⟨hvalue, fun before s after hsteps => ?_, fun file number text h => ?_⟩
  · obtain ⟨place⟩ := hexpansion.expands.exists_place hsteps
    have hnamed := hexpansion.mem_visitedBy_iff hsteps
    exact ⟨place.meets.mem_errors_iff hnamed, fun names => place.meets.fate_eq_repeated hnamed⟩
  · obtain ⟨s, hs, he⟩ := List.mem_flatMap.1 (List.mem_of_head? ((hvalue _).1 h))
    obtain ⟨before, after, hsteps⟩ := List.append_of_mem hs
    obtain ⟨place⟩ := hexpansion.expands.exists_place hsteps
    have hfails := (place.meets.mem_errors_iff (hexpansion.mem_visitedBy_iff hsteps) _).1 he
    obtain ⟨contents, hcontents, hnumber, hget⟩ := hexpansion.exists_text hs
    generalize s.line = p at hfails hcontents hnumber hget
    cases hfails with
    | malformed hline => exact ⟨contents, p.text, hcontents, hnumber, hget, hline, rfl⟩

/-- A library with a directive that has no target. -/
def brokenTree : FileTree where
  nodes := [(["main"], .file "".toUTF8 false),
    (["lib"], .file "float x;\n#include nope\n".toUTF8 false)]

/-- A source that includes the library and then a file that does not exist. -/
def brokenSource : String := "#include <lib>\n#include \"gone\""

/-- The options for the file `main` of `brokenTree`. -/
def brokenOptions : ResolveOptions := ⟨"/main", "/", [], [], []⟩

/-- The expansion of the source. -/
def brokenLayout : Layout :=
  .line ⟨⟨"/main", 1, "/", "#include <lib>".toList⟩, .inlined ["lib"]⟩
    (.line ⟨⟨"/lib", 1, "/", "float x;".toList⟩, .kept⟩ .done <|
      .line ⟨⟨"/lib", 2, "/", "#include nope".toList⟩,
        .refused (.directive "/lib" 2 "#include nope")⟩ .done .done) <|
  .line ⟨⟨"/main", 2, "/", "#include \"gone\"".toList⟩,
    .refused (.unreadable "/gone" .notFound)⟩ .done .done

theorem isExpansion_brokenLayout :
    brokenLayout.IsExpansion brokenTree brokenSource brokenOptions := by
  have hmain : brokenTree.locateAny true brokenOptions.file =
      .ok (.found ["main"] (.file "".toUTF8 false)) := by
    have h : brokenTree.locateAny true brokenOptions.file =
        brokenTree.locateFrom true maxLinks [] ["main"] := rfl
    rw [h, locateFrom]
    rfl
  have hlib : Finds brokenTree "/" "#include <lib>".toList ["lib"]
      (.ok "float x;\n#include nope\n") := by
    refine ⟨"lib", .file "float x;\n#include nope\n".toUTF8 false, rfl, ?_, rfl⟩
    have h : brokenTree.locateAny true (Path.join "/" "lib") =
        brokenTree.locateFrom true maxLinks [] ["lib"] := rfl
    rw [h, locateFrom]
    rfl
  have hgone : brokenTree.canonical (Path.join "/" "gone") = .error .notFound := by
    have h : brokenTree.locateAny true (Path.join "/" "gone") =
        brokenTree.locateFrom true maxLinks [] ["gone"] := rfl
    rw [canonical, h, locateFrom]
    rfl
  have hstart : start brokenTree brokenOptions.file = [["main"]] := by rw [start, hmain]
  refine ⟨rfl, hstart ▸ .line (.inlined hlib (by decide)) rfl ?_ ?_⟩
  · exact .line (.kept rfl) rfl (.done _) (.line (.malformed rfl) rfl (.done _) (.done _))
  · exact .line (@Meets.missing _ _ _ "gone" _ rfl hgone) rfl (.done _) (.done _)

/-- The directive in the library comes first, with its line there. -/
theorem resolve_fails_at_first_broken :
    brokenLayout.IsExpansion brokenTree brokenSource brokenOptions ∧
    (resolve brokenTree brokenSource brokenOptions).value =
      .error (.directive "/lib" 2 "#include nope") := by
  obtain ⟨-, hall⟩ := resolve_fails_at_first brokenTree brokenSource brokenOptions
  exact ⟨isExpansion_brokenLayout, ((hall _ isExpansion_brokenLayout).1 _).2 rfl⟩

end ShaderModules.Inliner
