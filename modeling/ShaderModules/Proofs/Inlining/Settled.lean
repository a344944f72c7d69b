import ShaderModules.Proofs.Inlining.Assembly
import ShaderModules.Proofs.Inlining.Consulted
import ShaderModules.Proofs.Inlining.Substitution

/-!
# Inlined text is settled

No line of inlined text is a directive, so that inlining it again consults no file and changes
nothing but line ends (`resolve_again`).
-/

namespace ShaderModules.Inliner

variable {tree : FileTree} {source out : String} {o : ResolveOptions}

/-- The line of the marker, without its end. -/
def markerLine : List Char := "#define GLSLIFY 1".toList

theorem unlines_cons (line : List Char) (lines : List (List Char)) :
    unlines (line :: lines) = String.ofList (line ++ ['\n']) ++ unlines lines := by
  unfold unlines
  rw [List.flatMap_cons, String.ofList_append]

/-- The marker in front of lines is one more line. -/
theorem inlineMarker_append (lines : List (List Char)) :
    inlineMarker ++ unlines lines = unlines (markerLine :: lines) := by
  rw [unlines_cons]
  rfl

theorem stripInlineMarker_append (text : String) :
    stripInlineMarker (inlineMarker ++ text) = text := by
  unfold stripInlineMarker
  rw [Text.dropPrefix?_eq_some_iff.2 rfl]
  rfl

theorem lines_unlines {lines : List (List Char)} (h : ∀ line ∈ lines, '\n' ∉ line) :
    Text.lines (unlines lines).toList = lines.map fun line => Text.closeLine line.reverse := by
  unfold unlines
  rw [String.toList_ofList, Text.lines_flatMap h]

theorem mem_unlines {lines : List (List Char)} {line : List Char} (hline : line ∈ lines) {c : Char}
    (hc : c ∈ line) : c ∈ (unlines lines).toList := by
  unfold unlines
  rw [String.toList_ofList]
  exact List.mem_flatMap.2 ⟨line, hline, List.mem_append_left _ hc⟩

/-- Without carriage returns, lines that are put together are taken apart again. -/
theorem lines_unlines_of_notMem {lines : List (List Char)} (h : ∀ line ∈ lines, '\n' ∉ line)
    (hr : ∀ line ∈ lines, '\r' ∉ line) : Text.lines (unlines lines).toList = lines := by
  rw [lines_unlines h]
  exact (List.map_congr_left fun line hline => Text.closeLine_reverse (hr line hline)).trans
    (List.map_id _)

/-- What is returned is the marker and lines that are no directives. -/
theorem exists_lines_of_resolve (h : (resolve tree source o).value = .ok out) :
    ∃ lines, out = inlineMarker ++ unlines lines ∧
      ∀ line ∈ lines, Directive.Line.ofText line = .plain ∧ '\n' ∉ line := by
  obtain ⟨t, hexpansion⟩ := Layout.exists_isExpansion tree source o
  rw [hexpansion.resolve_eq (hexpansion.errors_eq_nil h)] at h
  refine ⟨_, (Except.ok.inj h).symm, fun line hline => ?_⟩
  obtain ⟨p, hp, rfl⟩ := List.mem_map.1 hline
  exact hexpansion.plain_of_mem_output hp

/-- Lines without directives, put together and taken apart, are no directives. -/
theorem plain_of_mem_lines {lines : List (List Char)}
    (h : ∀ line ∈ lines, Directive.Line.ofText line = .plain ∧ '\n' ∉ line) :
    ∀ line ∈ Text.lines (unlines lines).toList, Directive.Line.ofText line = .plain := by
  rw [lines_unlines fun line hline => (h line hline).2]
  refine List.forall_mem_map.2 fun line hline => ?_
  exact Directive.plain_closeLine (h line hline).1

/-- **Inlined text is settled.** No line of what is returned is a directive. Resolved once more
without its marker, in whatever tree and with whatever options, it comes back line by line: no path
but that of the preprocessed file is looked at, and without carriage returns the text is the
same. -/
theorem resolve_again (h : (resolve tree source o).value = .ok out) :
    (∀ line ∈ Text.lines out.toList, Directive.Line.ofText line = .plain) ∧
    ∀ (tree' : FileTree) (o' : ResolveOptions),
      resolve tree' (stripInlineMarker out) o' =
        ⟨.ok (inlineMarker ++ unlines (Text.lines (stripInlineMarker out).toList)), []⟩ ∧
      (∀ path, Consults tree' (stripInlineMarker out) o' path → path = o'.file) ∧
      ('\r' ∉ out.toList → (resolve tree' (stripInlineMarker out) o').value = .ok out) := by
  obtain ⟨lines, rfl, hlines⟩ := exists_lines_of_resolve h
  rw [stripInlineMarker_append]
  refine ⟨?_, fun tree' o' => ?_⟩
  · rw [inlineMarker_append]
    exact plain_of_mem_lines (List.forall_mem_cons.2 ⟨by decide, hlines⟩)
  have hplain := plain_of_mem_lines hlines
  have hsubstitutes : Substitutes tree' o'.basedir (Text.lines (unlines lines).toList)
      (Text.lines (unlines lines).toList) [] := .of_plain _ hplain
  have hresolve := hsubstitutes.resolve_eq List.nodup_nil fun _ hn => absurd hn List.not_mem_nil
  refine ⟨hresolve, fun path hpath => ?_, fun hr => ?_⟩
  · have hmissing : ∀ line ∈ Text.lines (unlines lines).toList, ∀ names,
        ¬Directs tree' o'.basedir line names := by
      rintro line hline names ⟨target, node, htarget, -⟩
      cases (hplain line hline).symm.trans htarget
    rcases Consults.of_missing hmissing hpath with hfile | ⟨line, hline, target, htarget, -⟩
    · exact hfile
    · cases (hplain line hline).symm.trans htarget
  · rw [hresolve, lines_unlines_of_notMem (fun line hline => (hlines line hline).2)
      fun line hline hmem => hr ?_]
    rw [String.toList_append, List.mem_append]
    exact .inr (mem_unlines hline hmem)

/-- The text into which a library is inlined is returned once more. -/
theorem resolve_again_framed :
    (resolve cyclicTree framedSource cyclicOptions).value =
      .ok "#define GLSLIFY 1\nfloat a;\nfloat x;\nfloat b;\n" ∧
    ∀ (tree : FileTree) (o : ResolveOptions),
      (resolve tree "float a;\nfloat x;\nfloat b;\n" o).value =
        .ok "#define GLSLIFY 1\nfloat a;\nfloat x;\nfloat b;\n" := by
  obtain ⟨-, hagain⟩ := resolve_again resolve_framed
  have hstrip : stripInlineMarker "#define GLSLIFY 1\nfloat a;\nfloat x;\nfloat b;\n" =
      "float a;\nfloat x;\nfloat b;\n" := rfl
  rw [hstrip] at hagain
  exact ⟨resolve_framed, fun tree o => (hagain tree o).2.2 (by decide)⟩

end ShaderModules.Inliner
