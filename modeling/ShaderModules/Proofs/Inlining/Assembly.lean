import ShaderModules.Proofs.Inlining.Lines
import ShaderModules.Proofs.Inlining.Places

/-!
# What the inlined text is put together from

The text that comes out consists of the lines of the source and of the files inlined that are no
directives, each of them once and in its order (`resolve_conserves_lines`). The lines of a file,
with all that is inlined in them, stand together, in place of the directive that is the first to
name it.

* `plainLines`: the lines that are no directives.
-/

namespace ShaderModules.Inliner

variable {tree : FileTree} {source : String} {o : ResolveOptions}

/-- The lines that are no directives. -/
def plainLines (lines : List Pending) : List Pending :=
  lines.filter fun p => Directive.Line.ofText p.text = .plain

/-- A line is kept exactly if it is no directive. -/
theorem Meets.kept_eq {visited : List (List String)} {s : Step}
    (h : Meets tree visited s.line s.fate) : s.kept = plainLines [s.line] := by
  obtain ⟨p, fate⟩ := s
  dsimp only at h
  have hdirective : ∀ {names}, Directs tree p.dir p.text names → [] = plainLines [p] := by
    rintro names ⟨target, node, hline, -⟩
    simp [plainLines, hline]
  cases h with
  | kept hline => simp [Step.kept, plainLines, hline]
  | repeated hdirects => exact hdirective hdirects
  | inlined hfinds => exact hdirective hfinds.directs
  | unreadable hfinds => exact hdirective hfinds.directs
  | malformed hline => simp [Step.kept, plainLines, hline]
  | missing hline => simp [Step.kept, plainLines, hline]

namespace Layout

variable {t : Layout} {visited : List (List String)}

namespace Expands

/-- What comes out are the lines read that are no directives. -/
theorem output_eq (h : t.Expands tree visited) : t.output = plainLines (t.steps.map Step.line) := by
  induction h with
  | done => rfl
  | @line visited s block rest hmeets _ _ _ ihblock ih =>
    rw [output_line, ihblock, ih, hmeets.kept_eq]
    simp only [plainLines, ← List.filter_append, steps, List.map_cons, List.map_append,
      List.singleton_append]

end Expands

/-- What comes out of a text around a directive. -/
theorem Place.output_eq {before after : List Step} {s : Step}
    (place : Place tree visited t before s after) (hsteps : t.steps = before ++ s :: after)
    (hs : s.kept = []) :
    t.output = place.outside.flatMap Step.kept ++ place.ahead.output ++ place.block.output ++
      place.behind.output ++ place.beyond.flatMap Step.kept := by
  rw [output, hsteps, List.flatMap_append, List.flatMap_cons, hs,
    congrArg (List.flatMap Step.kept) place.before_eq,
    congrArg (List.flatMap Step.kept) place.after_eq]
  simp only [output, List.flatMap_append, List.nil_append, List.append_assoc]

/-- A line that comes out is no directive and holds no line feed. -/
theorem IsExpansion.plain_of_mem_output (h : t.IsExpansion tree source o) {p : Pending}
    (hp : p ∈ t.output) : Directive.Line.ofText p.text = .plain ∧ '\n' ∉ p.text := by
  rw [h.expands.output_eq] at hp
  obtain ⟨hmem, hplain⟩ := List.mem_filter.1 hp
  obtain ⟨s, hs, rfl⟩ := List.mem_map.1 hmem
  obtain ⟨contents, -, -, hline⟩ := h.exists_text hs
  exact ⟨of_decide_eq_true hplain, Text.notMem_of_mem_lines (List.mem_of_getElem? hline)⟩

end Layout

/-- **No line is lost and none is invented.** Every source has an expansion, and if it is resolved,
the text is the marker and the lines that come out, each with a line feed behind it. These are the
lines of the source and of the files inlined that are no directives, each once; those of one text
come in their order. The expansion of a file stands together, between that of the lines ahead of the
first directive that names the file and that of the lines behind. -/
theorem resolve_conserves_lines (tree : FileTree) (source : String) (o : ResolveOptions) :
    (∃ t : Layout, t.IsExpansion tree source o) ∧
    ∀ (t : Layout) (out : String), t.IsExpansion tree source o →
      (resolve tree source o).value = .ok out →
      out = inlineMarker ++ unlines (t.output.map Pending.text) ∧
      (∀ p ∈ t.output, '\n' ∉ p.text) ∧
      t.output.Perm (plainLines (sourceLines source o) ++
        t.files.flatMap fun names => plainLines (fileLines tree names)) ∧
      t.files.Nodup ∧
      (plainLines (sourceLines source o)).Sublist t.output ∧
      (∀ names ∈ t.files, (plainLines (fileLines tree names)).Sublist t.output) ∧
      ∀ before p names after, t.steps = before ++ ⟨p, .inlined names⟩ :: after →
        (∀ s ∈ before, ¬Directs tree s.line.dir s.line.text names) ∧
        ∃ place : Layout.Place tree (start tree o.file) t before ⟨p, .inlined names⟩ after,
          place.block.own = fileLines tree names ∧
          t.output = place.outside.flatMap Step.kept ++ place.ahead.output ++ place.block.output ++
            place.behind.output ++ place.beyond.flatMap Step.kept := by
  refine ⟨Layout.exists_isExpansion tree source o, fun t out hexpansion h => ?_⟩
  have hexpands := hexpansion.expands
  have hout : inlineMarker ++ unlines (t.output.map Pending.text) = out := by
    rw [hexpansion.resolve_eq (hexpansion.errors_eq_nil h)] at h
    exact Except.ok.inj h
  have hperm : t.output.Perm (plainLines (sourceLines source o) ++
      t.files.flatMap fun names => plainLines (fileLines tree names)) := by
    rw [hexpands.output_eq, ← hexpansion.own]
    refine (hexpands.lines_perm.filter _).trans ?_
    rw [List.filter_append, List.filter_flatMap]
    rfl
  refine ⟨hout.symm, fun p hp => (hexpansion.plain_of_mem_output hp).2, hperm,
    hexpands.files_nodup start_nodup, ?_, fun names hnames => ?_,
    fun before p names after hsteps => ?_⟩
  · rw [hexpands.output_eq, ← hexpansion.own]
    exact t.own_sublist.filter _
  · rw [hexpands.output_eq]
    exact (hexpands.fileLines_sublist hnames).filter _
  · obtain ⟨place⟩ := hexpands.exists_place hsteps
    have hfirst : names ∉ visitedBy (start tree o.file) before := by
      cases place.meets with
      | inlined _ hfirst => exact hfirst
    rw [hexpands.mem_visitedBy_iff hsteps, not_or, not_exists] at hfirst
    refine ⟨fun s hs hd => hfirst.2 s ⟨hs, hd⟩, place, ?_, place.output_eq hsteps rfl⟩
    exact place.lines.trans (List.flatMap_singleton _ _)

/-- A source that includes the library of `cyclicTree` twice. -/
def framedSource : String := "float a;\n#include <lib>\nfloat b;\n#include <lib>"

/-- The expansion of the library: its own directives are skipped. -/
def libraryLayout : Layout :=
  .line ⟨⟨"/lib", 1, "/", "#include <main>".toList⟩, .repeated ["main"]⟩ .done <|
  .line ⟨⟨"/lib", 2, "/", "#include \"lib\"".toList⟩, .repeated ["lib"]⟩ .done <|
  .line ⟨⟨"/lib", 3, "/", "float x;".toList⟩, .kept⟩ .done .done

/-- The expansion of the source. -/
def framedLayout : Layout :=
  .line ⟨⟨"/main", 1, "/", "float a;".toList⟩, .kept⟩ .done <|
  .line ⟨⟨"/main", 2, "/", "#include <lib>".toList⟩, .inlined ["lib"]⟩ libraryLayout <|
  .line ⟨⟨"/main", 3, "/", "float b;".toList⟩, .kept⟩ .done <|
  .line ⟨⟨"/main", 4, "/", "#include <lib>".toList⟩, .repeated ["lib"]⟩ .done .done

theorem isExpansion_framedLayout :
    framedLayout.IsExpansion cyclicTree framedSource cyclicOptions := by
  have hstart : start cyclicTree cyclicOptions.file = [["main"]] := by
    have h : cyclicTree.locateAny true cyclicOptions.file = _ := locate_main
    rw [start, h]
  have hlib : ∀ line, Directive.Line.ofText line = .target "lib" →
      Finds cyclicTree "/" line ["lib"] (.ok cyclicText) :=
    fun line hline => ⟨"lib", _, hline, locate_lib, rfl⟩
  have hmain : Directs cyclicTree "/" "#include <main>".toList ["main"] :=
    ⟨"main", _, rfl, locate_main⟩
  refine ⟨rfl, hstart ▸ ?_⟩
  refine .line (.kept rfl) rfl (.done _) (.line (.inlined (hlib _ rfl) (by decide)) rfl ?_ ?_)
  · exact .line (.repeated hmain (by decide)) rfl (.done _)
      (.line (.repeated (hlib _ rfl).directs (by decide)) rfl (.done _)
        (.line (.kept rfl) rfl (.done _) (.done _)))
  · exact .line (.kept rfl) rfl (.done _)
      (.line (.repeated (hlib _ rfl).directs (by decide)) rfl (.done _) (.done _))

theorem resolve_framed : (resolve cyclicTree framedSource cyclicOptions).value =
    .ok "#define GLSLIFY 1\nfloat a;\nfloat x;\nfloat b;\n" := by
  rw [isExpansion_framedLayout.resolve_eq rfl]
  rfl

/-- The lines of the library stand between those of the source, in place of the first directive. -/
theorem resolve_conserves_lines_framed :
    framedLayout.IsExpansion cyclicTree framedSource cyclicOptions ∧
    (resolve cyclicTree framedSource cyclicOptions).value =
      .ok "#define GLSLIFY 1\nfloat a;\nfloat x;\nfloat b;\n" ∧
    framedLayout.output.Perm (plainLines (sourceLines framedSource cyclicOptions) ++
      plainLines (fileLines cyclicTree ["lib"])) ∧
    ∃ before p after, framedLayout.steps = before ++ ⟨p, .inlined ["lib"]⟩ :: after ∧
      ∃ place : Layout.Place cyclicTree (start cyclicTree cyclicOptions.file) framedLayout before
          ⟨p, .inlined ["lib"]⟩ after,
        place.block.own = fileLines cyclicTree ["lib"] := by
  obtain ⟨-, hall⟩ := resolve_conserves_lines cyclicTree framedSource cyclicOptions
  obtain ⟨-, -, hperm, -, -, -, hplaces⟩ :=
    hall framedLayout _ isExpansion_framedLayout resolve_framed
  obtain ⟨before, p, after, hsteps⟩ :=
    Layout.exists_of_mem_files (t := framedLayout) (List.mem_singleton_self ["lib"])
  obtain ⟨-, place, hblock, -⟩ := hplaces before p ["lib"] after hsteps
  exact ⟨isExpansion_framedLayout, resolve_framed, hperm, before, p, after, hsteps, place, hblock⟩

end ShaderModules.Inliner
