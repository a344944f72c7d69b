import ShaderModules.Proofs.Bindings
import ShaderModules.Proofs.PlannedExports

/-!
# What the contents of snippets cannot change

Two bundles with the same names differ in nothing but the contents of string literals. Whether a
module is made of them, the error if it is not, and the kinds and names of the exports are matters
of names alone (`Bundle.exports_erase`, `Module.validate_eq_of_erase`). In the text of a module
everything outside the literals stays when the sources are taken out (`Module.outline_code`), since
no content ends its literal or its line.

* `outline`: a text with its string literals emptied.
* `Export.erase`, `Module.erase`, `Bundle.erase`: what is left without contents.
* `Bundle.synthesize_contents_irrel`: the statement about two bundles.
-/

namespace ShaderModules

open Json.Grammar

/-! ## Texts without their literals -/

/-- Where a character stands: outside the string literals, inside one, or behind a backslash inside
one. -/
inductive Place where
  | outside
  | inside
  | escaped

/-- A text from a place on, without what stands inside its literals. The quotation marks stay. -/
def outlineFrom : Place → List Char → List Char
  | _, [] => []
  | .outside, c :: rest => c :: outlineFrom (if c = '"' then .inside else .outside) rest
  | .inside, c :: rest =>
    if c = '"' then c :: outlineFrom .outside rest
    else outlineFrom (if c = '\\' then .escaped else .inside) rest
  | .escaped, _ :: rest => outlineFrom .inside rest

/-- A text with its string literals emptied. -/
def outline (text : String) : String := String.ofList (outlineFrom .outside text.toList)

/-- What holds no quotation mark is kept. -/
theorem outlineFrom_append {s : List Char} (h : '"' ∉ s) (r : List Char) :
    outlineFrom .outside (s ++ r) = s ++ outlineFrom .outside r := by
  induction s with
  | nil => rfl
  | cons c s ih =>
    have hc : c ≠ '"' := fun he => h (he ▸ List.mem_cons_self)
    rw [List.cons_append, outlineFrom, if_neg hc, ih fun hm => h (List.mem_cons_of_mem _ hm)]
    rfl

/-- A character in its written form does not end the literal. -/
theorem outlineFrom_quoteChar (c : Char) (r : List Char) :
    outlineFrom .inside (Text.quoteChar c ++ r) = outlineFrom .inside r := by
  have plain {d : Char} (hquote : d ≠ '"') (hbackslash : d ≠ '\\') (r : List Char) :
      outlineFrom .inside (d :: r) = outlineFrom .inside r := by
    rw [outlineFrom, if_neg hquote, if_neg hbackslash]
  have hhex (n : ℕ) : Text.hexDigit n ≠ '"' ∧ Text.hexDigit n ≠ '\\' := by
    have key : ∀ k < 16, Nat.digitChar k ≠ '"' ∧ Nat.digitChar k ≠ '\\' := by decide
    exact key _ (Nat.mod_lt n (by omega))
  unfold Text.quoteChar
  split
  case h_8 hquote hbackslash _ _ _ _ _ =>
    split
    · simp only [List.cons_append, List.nil_append]
      rw [outlineFrom, if_neg (by decide), if_pos rfl, outlineFrom,
        plain (by decide) (by decide), plain (by decide) (by decide),
        plain (hhex _).1 (hhex _).2, plain (hhex _).1 (hhex _).2]
    · exact plain hquote hbackslash r
  all_goals rfl

theorem outlineFrom_quoteBody (s r : List Char) :
    outlineFrom .inside (Text.quoteBody s ++ r) = outlineFrom .inside r := by
  induction s with
  | nil => rfl
  | cons c s ih =>
    rw [Text.quoteBody, List.flatMap_cons, List.append_assoc, outlineFrom_quoteChar]
    exact ih

/-- **A literal is emptied, whatever it quotes**, and what follows it is read outside. -/
theorem outlineFrom_quote (s : String) (r : List Char) :
    outlineFrom .outside ((Text.quote s).toList ++ r) =
      (Text.quote "").toList ++ outlineFrom .outside r := by
  rw [quote_toList, List.cons_append, outlineFrom, if_pos rfl, List.append_assoc,
    outlineFrom_quoteBody]
  rfl

/-! ## Modules without sources -/

/-- An export without its sources: its kind and its name. -/
def Export.erase : Export → Export
  | program name _ _ => program name "" ""
  | value name _ => value name ""
  | default _ => default ""

@[simp] theorem Export.name?_erase (e : Export) : e.erase.name? = e.name? := by cases e <;> rfl

theorem outlineFrom_name {name : String} (h : isIdentifier name = true) (r : List Char) :
    outlineFrom .outside (name.toList ++ ' ' :: r) =
      name.toList ++ ' ' :: outlineFrom .outside r := by
  rw [outlineFrom_append (notMem_of_isIdentifier h (by decide)), outlineFrom, if_neg (by decide)]

namespace Export

theorem outlineFrom_definition (e : Export) (r : List Char) :
    outlineFrom .outside (e.definition ++ r) = e.erase.definition ++ outlineFrom .outside r := by
  cases e with
  | program name vertex fragment =>
    have hprogram : '"' ∉ "= gl => createProgram(gl, ".toList := by decide
    have hcomma : '"' ∉ ", ".toList := by decide
    have hend : '"' ∉ ");".toList := by decide
    rw [erase, definition_program, definition_program]
    simp only [List.append_assoc, outlineFrom_append hprogram, outlineFrom_quote,
      outlineFrom_append hcomma, outlineFrom_append hend]
  | value name source =>
    have hequals : '"' ∉ "= ".toList := by decide
    have hend : '"' ∉ [';'] := by decide
    rw [erase, definition_value, definition_value]
    simp only [List.append_assoc, outlineFrom_append hequals, outlineFrom_quote,
      outlineFrom_append hend]
  | default source => rfl

/-- In the statement of an export, the sources are all that is emptied. -/
theorem outlineFrom_render {e : Export}
    (he : ∀ name, e.name? = some name → isIdentifier name = true) (r : List Char) :
    outlineFrom .outside (e.render.toList ++ r) =
      e.erase.render.toList ++ outlineFrom .outside r := by
  cases hn : e.name? with
  | some name =>
    have hconst : '"' ∉ "export const ".toList := by decide
    rw [render_named hn, render_named ((name?_erase e).trans hn), List.append_assoc,
      outlineFrom_append hconst, List.append_assoc, List.cons_append, outlineFrom_name (he name hn),
      outlineFrom_definition, List.append_assoc, List.append_assoc, List.cons_append]
  | none =>
    obtain ⟨source, rfl⟩ := eq_default_of_name?_eq_none hn
    have hdefault : '"' ∉ "export default ".toList := by decide
    have hend : '"' ∉ [';'] := by decide
    rw [erase, render_default, render_default]
    simp only [List.append_assoc, outlineFrom_append hdefault, outlineFrom_quote,
      outlineFrom_append hend]

end Export

namespace Module

/-- A module without what its literals hold. -/
def erase (m : Module) : Module := ⟨"", m.exports.map Export.erase⟩

theorem outlineFrom_exportsText {l : List Export}
    (hl : ∀ e ∈ l, ∀ name, e.name? = some name → isIdentifier name = true) :
    outlineFrom .outside (exportsText l) = exportsText (l.map Export.erase) := by
  induction l with
  | nil => rfl
  | cons e rest ih =>
    have hfeed : '"' ∉ ['\n'] := by decide
    have hrest := ih fun d hd => hl d (List.mem_cons_of_mem _ hd)
    unfold exportsText at hrest ⊢
    rw [List.flatMap_cons, List.map_cons, List.flatMap_cons, ← List.singleton_append,
      List.append_assoc, outlineFrom_append hfeed, List.append_assoc,
      Export.outlineFrom_render (hl e List.mem_cons_self), outlineFrom_append hfeed, hrest]
    simp

/-- **The outline of a module's text** is the text of the module without its sources. -/
theorem outline_code {m : Module} (h : m.validate = .ok ()) : outline m.code = m.erase.code := by
  have himport : '"' ∉ "import \x7bcreateProgram\x7d from ".toList := by decide
  have hend : '"' ∉ [';', '\n'] := by decide
  have hexports := outlineFrom_exportsText fun e he name hname =>
    isIdentifier_of_validate h he hname
  have hrest : outlineFrom .outside (';' :: '\n' :: exportsText m.exports) =
      ';' :: '\n' :: exportsText (m.exports.map Export.erase) := by
    rw [← hexports]
    exact outlineFrom_append hend _
  rw [outline, ← String.toList_inj, String.toList_ofList, code_toList, code_toList,
    outlineFrom_append himport, outlineFrom_quote, hrest]
  rfl

theorem check_erase (seen : List String) (hasDefault : Bool) (l : List Export) :
    check seen hasDefault (l.map Export.erase) = check seen hasDefault l := by
  induction l generalizing seen hasDefault with
  | nil => rfl
  | cons e rest ih => simp only [List.map_cons, check, Export.name?_erase, ih]

/-- Whether a module is valid does not depend on its sources, nor does the error. -/
theorem validate_eq_of_erase {m m' : Module} (h : m.erase = m'.erase) :
    m.validate = m'.validate := by
  have hexports : m.exports.map Export.erase = m'.exports.map Export.erase :=
    congrArg Module.exports h
  rw [validate, validate, ← check_erase, hexports, check_erase]

/-- A module has as many lines as it has without its sources. -/
theorem length_lines_code {m : Module} (h : m.validate = .ok ()) :
    (Text.splitAt '\n' m.code.toList).length = 2 + 2 * m.exports.length := by
  rw [code_eq_lines, splitAt_lines fun line hline => notMem_lineTexts h hline, List.length_append,
    List.length_map, length_lineTexts]
  simp only [List.length_singleton]
  omega

end Module

/-! ## Bundles without contents -/

/-- A snippet without its contents. -/
def Snippet.erase (s : Snippet) : Snippet := ⟨s.name, ""⟩

namespace Bundle

/-- A bundle without its contents. -/
def erase (b : Bundle) : Bundle where
  entries := b.entries.map Snippet.erase
  names_nodup := by
    rw [List.map_map]
    exact b.names_nodup

variable {b b' : Bundle} {naming : Naming}

theorem erase_eq (h : b.entries.map Snippet.name = b'.entries.map Snippet.name) :
    b.erase = b'.erase := by
  have hentries (b : Bundle) : b.erase.entries = (b.entries.map Snippet.name).map (⟨·, ""⟩) := by
    rw [List.map_map]
    rfl
  have heq : b.erase.entries = b'.erase.entries := by rw [hentries, hentries, h]
  generalize b.erase = e at heq ⊢
  generalize b'.erase = e' at heq ⊢
  obtain ⟨entries, hnodup⟩ := e
  obtain ⟨entries', hnodup'⟩ := e'
  cases heq
  rfl

theorem ofStage_erase (b : Bundle) (suffixes : Suffixes) (stage : Option Stage) :
    b.erase.ofStage suffixes stage = (b.ofStage suffixes stage).map Snippet.erase := by
  rw [ofStage, erase, List.filter_map]
  rfl

theorem partner?_erase (b : Bundle) (suffixes : Suffixes) (key : String) :
    b.erase.partner? suffixes key = (b.partner? suffixes key).map Snippet.erase := by
  rw [partner?, ofStage_erase, List.find?_map]
  rfl

theorem vertexExport_erase (b : Bundle) (naming : Naming) (s : Snippet) :
    b.erase.vertexExport naming s.erase = (b.vertexExport naming s).erase := by
  have hname : s.erase.name = s.name := rfl
  unfold vertexExport
  rw [partner?_erase, hname]
  cases b.partner? naming.suffixes (naming.suffixes.keyIn .vertex s.name) <;> rfl

theorem isAlone_erase {suffixes : Suffixes} {s : Snippet} :
    b.erase.IsAlone suffixes s.erase ↔ b.IsAlone suffixes s := by
  unfold IsAlone
  rw [ofStage_erase]
  simp only [List.forall_mem_map]
  rfl

theorem otherExport_erase (naming : Naming) (s : Snippet) :
    otherExport naming s.erase = (otherExport naming s).erase := by
  unfold otherExport
  change (if s.name = naming.defaultExport then _ else _) = _
  split <;> rfl

/-- **Kinds and names of the exports** are those of the names alone. -/
theorem exports_erase (b : Bundle) (naming : Naming) :
    b.erase.exports naming = (b.exports naming).map Export.erase := by
  have hvertex : (b.erase.ofStage naming.suffixes (some .vertex)).map
      (b.erase.vertexExport naming) = ((b.ofStage naming.suffixes (some .vertex)).map
        (b.vertexExport naming)).map Export.erase := by
    rw [ofStage_erase, List.map_map, List.map_map]
    exact List.map_congr_left fun s _ => b.vertexExport_erase naming s
  have hfragment : ((b.erase.ofStage naming.suffixes (some .fragment)).filter
      fun s => b.erase.IsAlone naming.suffixes s).map (fun s => Export.value s.name s.contents) =
        (((b.ofStage naming.suffixes (some .fragment)).filter fun s =>
          b.IsAlone naming.suffixes s).map fun s => Export.value s.name s.contents).map
            Export.erase := by
    rw [ofStage_erase, List.filter_map, List.map_map, List.map_map]
    have halone : ((fun s => decide (b.erase.IsAlone naming.suffixes s)) ∘ Snippet.erase) =
        fun s => decide (b.IsAlone naming.suffixes s) :=
      funext fun s => decide_eq_decide.2 isAlone_erase
    rw [halone]
    rfl
  have hother : (b.erase.ofStage naming.suffixes none).map (otherExport naming) =
      ((b.ofStage naming.suffixes none).map (otherExport naming)).map Export.erase := by
    rw [ofStage_erase, List.map_map, List.map_map]
    exact List.map_congr_left fun s _ => otherExport_erase naming s
  rw [exports, hvertex, hfragment, hother, exports, List.map_append, List.map_append]

theorem erase_module (h : b.entries.map Snippet.name = b'.entries.map Snippet.name)
    (naming : Naming) : (b.module naming).erase = (b'.module naming).erase := by
  simp only [Module.erase, module, ← exports_erase, erase_eq h]

/-- **Contents do not show outside literals.** Of two bundles with the same names, either none is
made into a module, for the same reason, or both are. Their exports have the same kinds and names in
the same order, and the texts of the modules have as many lines and are the same outside their
string literals. -/
theorem synthesize_contents_irrel (naming : Naming) {b b' : Bundle}
    (h : b.entries.map Snippet.name = b'.entries.map Snippet.name) :
    ∃ c c', Classified.ofBundle b naming.suffixes = .ok c ∧
      Classified.ofBundle b' naming.suffixes = .ok c' ∧
      (c.plan naming).exports.map Export.erase = (c'.plan naming).exports.map Export.erase ∧
      ((∃ err, b.synthesize naming = .error err ∧ b'.synthesize naming = .error err) ∨
        (b.synthesize naming = .ok (c.plan naming).render ∧
          b'.synthesize naming = .ok (c'.plan naming).render ∧
          (Text.splitAt '\n' (c.plan naming).render.code.toList).length =
            (Text.splitAt '\n' (c'.plan naming).render.code.toList).length ∧
          outline (c.plan naming).render.code = outline (c'.plan naming).render.code)) := by
  have herase := erase_module h naming
  have hexports : (b.exports naming).map Export.erase = (b'.exports naming).map Export.erase :=
    congrArg Module.exports herase
  refine ⟨_, _, Classified.ofBundle_eq b naming.suffixes, Classified.ofBundle_eq b' naming.suffixes,
    ?_, ?_⟩
  · rw [Classified.plan_sorted, Classified.plan_sorted]
    exact hexports
  · rw [Classified.plan_sorted, Classified.plan_sorted, synthesize_eq, synthesize_eq,
      ← Module.validate_eq_of_erase herase]
    cases hvalid : (b.module naming).validate with
    | error err => exact .inl ⟨err, rfl, rfl⟩
    | ok _ =>
      have hvalid' := (Module.validate_eq_of_erase herase).symm.trans hvalid
      have hlength : (b.exports naming).length = (b'.exports naming).length := by
        simpa using congrArg List.length hexports
      refine .inr ⟨rfl, rfl, ?_, ?_⟩
      · exact (Module.length_lines_code hvalid).trans
          ((congrArg (2 + 2 * ·) hlength).trans (Module.length_lines_code hvalid').symm)
      · exact (Module.outline_code hvalid).trans
          ((congrArg Module.code herase).trans (Module.outline_code hvalid').symm)

/-- Snippets with the names of the drawing, whose contents look like ends of literals, other
exports and line ends. -/
def forgery : Bundle :=
  ⟨[⟨"drawVertex", "\";\nexport const x = \""⟩, ⟨"main", "\\"⟩, ⟨"drawFragment", "\\\""⟩,
    ⟨"tint", "\r\n"⟩], by decide⟩

/-- The forgery makes a module that differs from that of the drawing inside its literals only. -/
theorem synthesize_contents_irrel_forgery :
    drawing.entries.map Snippet.name = forgery.entries.map Snippet.name ∧
      ∃ g g', drawing.synthesize {} = .ok g ∧ forgery.synthesize {} = .ok g' ∧
        (Text.splitAt '\n' g.code.toList).length = (Text.splitAt '\n' g'.code.toList).length ∧
        outline g.code = outline g'.code := by
  have hnames : drawing.entries.map Snippet.name = forgery.entries.map Snippet.name := by decide
  have hvalid : (drawing.module {}).validate = .ok () := by decide
  have hmade := synthesize_eq_ok_iff.2 ⟨hvalid, rfl⟩
  obtain ⟨c, c', -, -, -, ⟨err, herror, -⟩ | ⟨h, h', hlines, houtline⟩⟩ :=
    synthesize_contents_irrel {} hnames
  · rw [hmade] at herror
    cases herror
  · exact ⟨hnames, _, _, h, h', hlines, houtline⟩

end Bundle

end ShaderModules
