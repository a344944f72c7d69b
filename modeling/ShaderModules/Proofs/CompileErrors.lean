import ShaderModules.Proofs.Diagnostics
import ShaderModules.Proofs.Path.Segments
import ShaderModules.Proofs.Text.Pieces

/-!
# The file that a compile error is about

Diagnostics name the text that the compiler was handed by a placeholder. In a compile error the path
of the file stands in its place: what stands between the placeholders is kept, in order, and no
placeholder is left or made anew (`compilation_names_file`). A new one could only be made where the
path ends in a part of it, since an absolute path starts with a slash.

* `Text.Avoids`: a text behind which no text without occurrences makes one.
-/

namespace ShaderModules

namespace Text

variable {sep : List Char}

/-! ## Texts put together without an occurrence -/

/-- The text has no occurrence of `sep`, and does not end in a part that starts one. -/
structure Avoids (sep s : List Char) : Prop where
  without : ¬ sep <:+: s
  unstarted : ∀ start, start <+: sep → start ≠ [] → start ≠ sep → ¬ start <:+ s

/-- A text without the character that `sep` starts with avoids it. -/
theorem avoids_of_notMem {c : Char} (hc : sep.head? = some c) {s : List Char} (hs : c ∉ s) :
    Avoids sep s := by
  obtain ⟨rest, rfl⟩ := List.head?_eq_some_iff.1 hc
  refine ⟨fun hin => hs (hin.subset List.mem_cons_self), fun start hstart hnil _ hend => ?_⟩
  obtain ⟨x, more, rfl⟩ := List.exists_cons_of_ne_nil hnil
  exact hs (hend.subset ((List.cons_prefix_cons.1 hstart).1 ▸ List.mem_cons_self))

theorem Avoids.of_suffix {s t : List Char} (h : Avoids sep s) (hts : t <:+ s) : Avoids sep t :=
  ⟨fun hin => h.without (hin.trans hts.isInfix),
    fun start hstart hnil hne hend => h.unstarted start hstart hnil hne (hend.trans hts)⟩

/-- A text that ends in another character than those of `sep` starts none. -/
theorem avoids_of_getLast? {c : Char} {s : List Char} (hlast : s.getLast? = some c)
    (hc : c ∉ sep) (hs : ¬ sep <:+: s) : Avoids sep s := by
  refine ⟨hs, fun start hstart hnil _ hend => hc ?_⟩
  obtain ⟨front, rfl⟩ := hend
  rw [List.getLast?_append_of_ne_nil front hnil] at hlast
  exact hstart.subset (List.mem_of_getLast? hlast)

theorem Avoids.append {s t : List Char} (h : Avoids sep s) (ht : ¬ sep <:+: t) :
    ¬ sep <:+: s ++ t := by
  intro hin
  rcases List.infix_append_iff_ne_nil.1 hin with hs | ht' | ⟨a, b, ha, hb, rfl, hend, -⟩
  · exact h.without hs
  · exact ht ht'
  · exact h.unstarted a (List.prefix_append a b) ha (by simpa using hb) hend

/-- A character that `sep` does not have keeps what stands on its two sides apart. -/
theorem not_infix_append_cons {c : Char} (hc : c ∉ sep) {s t : List Char} (hs : ¬ sep <:+: s)
    (ht : ¬ sep <:+: t) : ¬ sep <:+: s ++ c :: t := by
  intro hin
  rcases List.infix_append_iff_ne_nil.1 hin with hs' | hct | ⟨a, b, -, hb, rfl, -, hstart⟩
  · exact hs hs'
  · rcases List.infix_cons_iff.1 hct with hstart | ht'
    · cases sep with
      | nil => exact hs List.nil_infix
      | cons x rest => exact hc ((List.cons_prefix_cons.1 hstart).1 ▸ List.mem_cons_self)
    · exact ht ht'
  · obtain ⟨x, rest, rfl⟩ := List.exists_cons_of_ne_nil hb
    exact hc (List.mem_append_right a ((List.cons_prefix_cons.1 hstart).1 ▸ List.mem_cons_self))

/-- Texts without an occurrence have none when they are joined by a text that starts with another
character and avoids it. -/
theorem not_infix_intercalate {c : Char} (hc : c ∉ sep) {rest : List Char}
    (hvalue : Avoids sep (c :: rest)) {pieces : List (List Char)}
    (hpieces : ∀ p ∈ pieces, ¬ sep <:+: p) {s : List Char} (hs : Avoids sep s) :
    ¬ sep <:+: s ++ (c :: rest).intercalate pieces := by
  induction pieces generalizing s with
  | nil =>
    rw [List.intercalate_nil, List.append_nil]
    exact hs.without
  | cons p pieces ih =>
    obtain ⟨hp, hpieces⟩ := List.forall_mem_cons.1 hpieces
    by_cases hnil : pieces = []
    · rw [hnil, List.intercalate_singleton]
      exact hs.append hp
    · rw [List.intercalate_cons_of_ne_nil hnil, List.append_assoc, ← List.append_assoc,
        List.cons_append]
      have hrest : Avoids sep rest := hvalue.of_suffix (List.suffix_cons c rest)
      exact not_infix_append_cons hc (hs.append hp) (ih hpieces hrest)

end Text

/-! ## The log of a compile error -/

theorem leadsOnce_placeholderInput : Text.LeadsOnce placeholderInput.toList :=
  ⟨'<', "stdin>".toList, by decide, by decide⟩

theorem head?_placeholderInput : placeholderInput.toList.head? = some '<' := by decide

/-- A log in which an absolute path stands for the placeholder has no placeholder in it. -/
theorem not_infix_replace {path : String} (habs : Path.isAbsolute path = true)
    (hpath : Text.Avoids placeholderInput.toList path.toList) (log : String) :
    ¬ placeholderInput.toList <:+: (Text.replace log placeholderInput path).toList := by
  obtain ⟨rest, hrest⟩ := Path.exists_of_isAbsolute habs
  have hslash : '/' ∉ placeholderInput.toList := by decide
  have hpieces : ∀ p ∈ Text.splitOn placeholderInput.toList log.toList,
      ¬ placeholderInput.toList <:+: p :=
    fun p hp => Text.not_infix_of_mem_splitOn leadsOnce_placeholderInput.ne_nil hp
  have hjoined := Text.not_infix_intercalate hslash (hrest ▸ hpath) hpieces
    (Text.avoids_of_notMem head?_placeholderInput List.not_mem_nil)
  rw [List.nil_append, ← hrest] at hjoined
  rwa [Text.replace, String.toList_ofList]

/-- A log without the placeholder makes a message without it. -/
theorem not_infix_message {path log : String}
    (hpath : Text.Avoids placeholderInput.toList path.toList)
    (hlog : ¬ placeholderInput.toList <:+: log.toList) :
    ¬ placeholderInput.toList <:+: (TransformError.compilation path log).message.toList := by
  have hplain : ∀ s : String, '<' ∉ s.toList → Text.Avoids placeholderInput.toList s.toList :=
    fun s => Text.avoids_of_notMem head?_placeholderInput
  have hverb := hplain "Failed to compile " (by decide)
  have hcolon := hplain ":\n" (by decide)
  have htext : ∀ a b c d : String,
      (a ++ b ++ c ++ d).toList = a.toList ++ (b.toList ++ (c.toList ++ d.toList)) := by
    intro a b c d
    simp only [String.toList_append, List.append_assoc]
  have hmessage : (TransformError.compilation path log).message =
      "Failed to compile " ++ path ++ ":\n" ++ log := rfl
  rw [hmessage, htext]
  exact hverb.append (hpath.append (hcolon.append hlog))

/-- **A compile error names the file**: a log that is not empty is a compile error, whatever the
output is. Its log is what stands between the placeholders of the compiler's log, which can be split
at them in one way, joined by the path; no placeholder is left in it, nor in the message. -/
theorem compilation_names_file {r : CompilerResult} {log path : String} (hlog : r.log = some log)
    (hne : log ≠ "") (habs : Path.isAbsolute path = true)
    (hpath : Text.Avoids placeholderInput.toList path.toList) :
    ∃ pieces named, Text.IsSplit placeholderInput.toList log.toList pieces ∧
      (∀ pieces', Text.IsSplit placeholderInput.toList log.toList pieces' → pieces' = pieces) ∧
      r.bundle path = .error (.compilation path named) ∧
      named.toList = path.toList.intercalate pieces ∧
      ¬ placeholderInput.toList <:+: named.toList ∧
      ∀ text ∈ Problem.chain (TransformError.compilation path named),
        ¬ placeholderInput.toList <:+: text.toList := by
  have hsplit := Text.isSplit_splitOn leadsOnce_placeholderInput.ne_nil log.toList
  have hnamed := not_infix_replace habs hpath log
  refine ⟨_, Text.replace log placeholderInput path, hsplit, fun pieces' h => ?_, ?_, ?_, hnamed,
    ?_⟩
  · exact (Text.splitOn_eq leadsOnce_placeholderInput h).symm
  · refine ExternalCompiler.bundle_of_diagnostics? ?_ path
    rw [CompilerResult.diagnostics?, hlog, Option.filter_some_pos (by simpa using hne)]
  · exact String.toList_ofList
  · exact List.forall_mem_singleton.2 (not_infix_message hpath hnamed)

/-- Parts of the placeholder stay where they stand, in the log and in the path. -/
theorem compilation_names_file_fragments :
    Path.isAbsolute "/p/<stdin/a.glsl" = true ∧
      Text.Avoids placeholderInput.toList "/p/<stdin/a.glsl".toList ∧
      (CompilerResult.failure "<stdin>:3:1: <std<stdin>in>").bundle "/p/<stdin/a.glsl" =
        .error (.compilation "/p/<stdin/a.glsl"
          "/p/<stdin/a.glsl:3:1: <std/p/<stdin/a.glslin>") ∧
      ¬ placeholderInput.toList <:+:
        "/p/<stdin/a.glsl:3:1: <std/p/<stdin/a.glslin>".toList := by
  have hpath : Text.Avoids placeholderInput.toList "/p/<stdin/a.glsl".toList :=
    Text.avoids_of_getLast? (by decide) (by decide : 'l' ∉ placeholderInput.toList)
      fun hin => (by decide : '>' ∉ "/p/<stdin/a.glsl".toList) (hin.subset (by decide))
  obtain ⟨pieces, named, -, -, hbundle, -, hnamed, -⟩ := compilation_names_file
    (r := .failure "<stdin>:3:1: <std<stdin>in>") rfl (by decide) (by decide) hpath
  have heq : Text.replace "<stdin>:3:1: <std<stdin>in>" placeholderInput "/p/<stdin/a.glsl" =
      "/p/<stdin/a.glsl:3:1: <std/p/<stdin/a.glslin>" := by decide +kernel
  obtain rfl : named = "/p/<stdin/a.glsl:3:1: <std/p/<stdin/a.glslin>" := by
    have hreplaced : (CompilerResult.failure "<stdin>:3:1: <std<stdin>in>").bundle
        "/p/<stdin/a.glsl" = .error (.compilation "/p/<stdin/a.glsl" (Text.replace
          "<stdin>:3:1: <std<stdin>in>" placeholderInput "/p/<stdin/a.glsl")) := rfl
    rw [hreplaced, heq] at hbundle
    cases hbundle
    rfl
  exact ⟨by decide, hpath, hbundle, hnamed⟩

end ShaderModules
