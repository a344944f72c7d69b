import ShaderModules.Module
import ShaderModules.Proofs.Json.Literal
import ShaderModules.Proofs.Text.Pieces
import ShaderModules.Proofs.Validity

/-!
# The text of a module determines the module

A valid module can be told from its text, and the text has two lines for every export, whatever
the snippets and the path of the helper contain (`code_unambiguous`). Three facts carry this: a
quoted text shows where it ends (`quote_append_inj`), the name of an export holds no space, so that
it ends at the first one (`Text.append_cons_inj`), and the three kinds of statements differ in a
character after the name (`Export.render_append_inj`).

* `Module.lineTexts`: the lines of a module's text.
* `isIdentifier_of_validate`: in a valid module every exported name is an identifier.
-/

namespace ShaderModules

open Json.Grammar

/-! ## Names of exports -/

theorem isIdentifierPart_of_isIdentifier {name : String} (h : isIdentifier name = true) :
    ∀ c ∈ name.toList, isIdentifierPart c = true := by
  unfold isIdentifier at h
  split at h
  · cases h
  · rename_i first rest hname
    rw [hname]
    simp only [Bool.and_eq_true] at h
    obtain ⟨⟨hfirst, hrest⟩, -⟩ := h
    intro c hc
    rcases List.mem_cons.1 hc with rfl | hc
    · unfold isIdentifierStart at hfirst
      unfold isIdentifierPart Char.isAlphanum
      simp only [Bool.or_eq_true] at hfirst ⊢
      rcases hfirst with (h | h) | h
      · exact .inl (.inl (.inl h))
      · exact .inl (.inr h)
      · exact .inr h
    · exact List.all_eq_true.1 hrest c hc

theorem notMem_of_isIdentifier {name : String} (h : isIdentifier name = true) {c : Char}
    (hc : isIdentifierPart c = false) : c ∉ name.toList := by
  intro hm
  rw [isIdentifierPart_of_isIdentifier h c hm] at hc
  cases hc

namespace Module

/-- In a valid module every exported name is an identifier. -/
theorem isIdentifier_of_validate {m : Module} (h : m.validate = .ok ()) {e : Export}
    (he : e ∈ m.exports) {name : String} (hname : e.name? = some name) :
    isIdentifier name = true :=
  (validate_eq_ok_iff.1 h).1 name (List.mem_filterMap.2 ⟨e, he, hname⟩)

end Module

/-! ## Statements -/

namespace Export

/-- What follows the name and a space in the statement of a named export. -/
def definition : Export → List Char
  | program _ vertex fragment =>
    "= gl => createProgram(gl, ".toList ++ ((Text.quote vertex).toList ++ (", ".toList ++
      ((Text.quote fragment).toList ++ ");".toList)))
  | value _ source => "= ".toList ++ ((Text.quote source).toList ++ [';'])
  | default _ => []

theorem definition_program (name vertex fragment : String) :
    (program name vertex fragment).definition =
      "= gl => createProgram(gl, ".toList ++ ((Text.quote vertex).toList ++ (", ".toList ++
        ((Text.quote fragment).toList ++ ");".toList))) := rfl

theorem definition_value (name source : String) :
    (value name source).definition = "= ".toList ++ ((Text.quote source).toList ++ [';']) := rfl

theorem render_named {e : Export} {name : String} (h : e.name? = some name) :
    e.render.toList = "export const ".toList ++ (name.toList ++ ' ' :: e.definition) := by
  cases e with
  | program n v f =>
    cases h
    unfold render definition createProgram
    simp only [String.toList_append, List.append_assoc]
    rfl
  | value n s =>
    cases h
    unfold render definition
    simp only [String.toList_append, List.append_assoc]
    rfl
  | default s => cases h

theorem render_default (source : String) :
    (default source).render.toList =
      "export default ".toList ++ ((Text.quote source).toList ++ [';']) := by
  unfold render
  simp only [String.toList_append, List.append_assoc]
  rfl

/-- After the same name, the definition tells the export and shows where it ends. -/
theorem definition_append_inj {e e' : Export} {name : String} (h : e.name? = some name)
    (h' : e'.name? = some name) {x y : List Char}
    (heq : e.definition ++ x = e'.definition ++ y) : e = e' ∧ x = y := by
  -- behind the equals sign a program goes on with a letter and a value with a quotation mark
  cases e with
  | program n v f =>
    cases e' with
    | program n' v' f' =>
      cases h
      cases h'
      simp only [definition_program, List.append_assoc] at heq
      obtain ⟨hv, heq⟩ := quote_append_inj (List.append_cancel_left heq)
      obtain ⟨hf, heq⟩ := quote_append_inj (List.append_cancel_left heq)
      rw [hv, hf]
      exact ⟨rfl, List.append_cancel_left heq⟩
    | value n' s' =>
      simp [definition_program, definition_value, Text.quote] at heq
    | default s' => cases h'
  | value n s =>
    cases e' with
    | program n' v' f' =>
      simp [definition_program, definition_value, Text.quote] at heq
    | value n' s' =>
      cases h
      cases h'
      simp only [definition_value, List.append_assoc] at heq
      obtain ⟨hs, heq⟩ := quote_append_inj (List.append_cancel_left heq)
      rw [hs]
      exact ⟨rfl, List.append_cancel_left heq⟩
    | default s' => cases h'
  | default s => cases h

theorem eq_default_of_name?_eq_none {e : Export} (h : e.name? = none) :
    ∃ source, e = default source := by
  cases e with
  | program n v f => cases h
  | value n s => cases h
  | default s => exact ⟨s, rfl⟩

/-- A statement tells the export and shows where it ends. -/
theorem render_append_inj {e e' : Export}
    (he : ∀ name, e.name? = some name → isIdentifier name = true)
    (he' : ∀ name, e'.name? = some name → isIdentifier name = true) {x y : List Char}
    (h : e.render.toList ++ x = e'.render.toList ++ y) : e = e' ∧ x = y := by
  cases hn : e.name? with
  | some name =>
    rw [render_named hn] at h
    cases hn' : e'.name? with
    | some name' =>
      rw [render_named hn'] at h
      simp only [List.append_assoc, List.cons_append] at h
      obtain ⟨hname, h⟩ := Text.append_cons_inj (notMem_of_isIdentifier (he name hn) (by decide))
        (notMem_of_isIdentifier (he' name' hn') (by decide)) (List.append_cancel_left h)
      rw [← String.toList_inj.1 hname] at hn'
      exact definition_append_inj hn hn' h
    | none =>
      obtain ⟨source, rfl⟩ := eq_default_of_name?_eq_none hn'
      rw [render_default] at h
      simp at h
  | none =>
    obtain ⟨source, rfl⟩ := eq_default_of_name?_eq_none hn
    rw [render_default] at h
    cases hn' : e'.name? with
    | some name' =>
      rw [render_named hn'] at h
      simp at h
    | none =>
      obtain ⟨source', rfl⟩ := eq_default_of_name?_eq_none hn'
      rw [render_default] at h
      simp only [List.append_assoc] at h
      obtain ⟨hs, h⟩ := quote_append_inj (List.append_cancel_left h)
      rw [hs]
      exact ⟨rfl, List.append_cancel_left h⟩

end Export

/-! ## Lines -/

namespace Export

theorem notMem_definition (e : Export) : '\n' ∉ e.definition := by
  have hquote (s : String) : '\n' ∉ (Text.quote s).toList :=
    fun hm => absurd (le_of_mem_quote hm) (by decide)
  cases e with
  | program n v f =>
    simp only [definition_program, List.mem_append, not_or]
    exact ⟨by decide, hquote v, by decide, hquote f, by decide⟩
  | value n s =>
    simp only [definition_value, List.mem_append, not_or]
    exact ⟨by decide, hquote s, by decide⟩
  | default s => exact List.not_mem_nil

/-- The statement of an export with a valid name stays on one line. -/
theorem notMem_render {e : Export} (he : ∀ name, e.name? = some name → isIdentifier name = true) :
    '\n' ∉ e.render.toList := by
  cases hn : e.name? with
  | some name =>
    rw [render_named hn, List.mem_append, List.mem_append, List.mem_cons]
    rintro (h | h | h | h)
    · exact absurd h (by decide)
    · exact notMem_of_isIdentifier (he name hn) (by decide) h
    · exact absurd h (by decide)
    · exact notMem_definition e h
  | none =>
    obtain ⟨source, rfl⟩ := eq_default_of_name?_eq_none hn
    rw [render_default, List.mem_append, List.mem_append]
    rintro (h | h | h)
    · exact absurd h (by decide)
    · exact absurd (le_of_mem_quote h) (by decide)
    · exact absurd h (by decide)

end Export

namespace Module

/-- The statement that imports the runtime helper. -/
def importStatement (m : Module) : String :=
  "import \x7b" ++ createProgram ++ "\x7d from " ++ Text.quote m.helperPath ++ ";"

/-- The lines of a module's text: the import, and for every export an empty line and its
statement. -/
def lineTexts (m : Module) : List String :=
  m.importStatement :: m.exports.flatMap fun e => ["", e.render]

theorem length_lineTexts (m : Module) : m.lineTexts.length = 1 + 2 * m.exports.length := by
  rw [lineTexts, List.length_cons, List.length_flatMap]
  simp only [List.length_cons, List.length_nil, List.map_const',
    List.sum_replicate_nat]
  omega

/-- The text of the exports behind the import. -/
def exportsText (l : List Export) : List Char :=
  l.flatMap fun e => '\n' :: (e.render.toList ++ ['\n'])

theorem foldl_render (text : String) (l : List Export) :
    (l.foldl (fun text e => text ++ "\n" ++ e.render ++ "\n") text).toList =
      text.toList ++ exportsText l := by
  induction l generalizing text with
  | nil => simp [exportsText]
  | cons e rest ih =>
    rw [List.foldl_cons, ih]
    simp [exportsText]

theorem code_toList (m : Module) :
    m.code.toList =
      "import \x7bcreateProgram\x7d from ".toList ++ ((Text.quote m.helperPath).toList ++
        ';' :: '\n' :: exportsText m.exports) := by
  unfold code
  rw [foldl_render]
  simp only [String.toList_append, List.append_assoc]
  rfl

theorem code_eq_lines (m : Module) :
    m.code.toList = m.lineTexts.flatMap fun line => line.toList ++ ['\n'] := by
  rw [code_toList, lineTexts, List.flatMap_cons, List.flatMap_assoc]
  have hexports : exportsText m.exports = m.exports.flatMap fun e =>
      ["", e.render].flatMap fun line => line.toList ++ ['\n'] := by
    simp [exportsText]
  rw [hexports]
  unfold importStatement
  simp only [String.toList_append, List.append_assoc]
  rfl

theorem notMem_lineTexts {m : Module} (h : m.validate = .ok ()) {line : String}
    (hline : line ∈ m.lineTexts) : '\n' ∉ line.toList := by
  rcases List.mem_cons.1 hline with rfl | hline
  · unfold importStatement
    simp only [String.toList_append, List.mem_append, not_or]
    refine ⟨⟨⟨⟨by decide, by decide⟩, by decide⟩, fun hm => ?_⟩, by decide⟩
    exact absurd (le_of_mem_quote hm) (by decide)
  · obtain ⟨e, he, hline⟩ := List.mem_flatMap.1 hline
    simp only [List.mem_cons, List.not_mem_nil, or_false] at hline
    rcases hline with rfl | rfl
    · exact List.not_mem_nil
    · exact Export.notMem_render fun name hname => isIdentifier_of_validate h he hname

/-- The text of the exports determines them. -/
theorem exportsText_inj {l l' : List Export}
    (hl : ∀ e ∈ l, ∀ name, e.name? = some name → isIdentifier name = true)
    (hl' : ∀ e ∈ l', ∀ name, e.name? = some name → isIdentifier name = true)
    (h : exportsText l = exportsText l') : l = l' := by
  induction l generalizing l' with
  | nil =>
    cases l' with
    | nil => rfl
    | cons e' rest' => simp [exportsText] at h
  | cons e rest ih =>
    cases l' with
    | nil => simp [exportsText] at h
    | cons e' rest' =>
      simp only [exportsText, List.flatMap_cons, List.cons_append, List.cons.injEq, true_and,
        List.append_assoc, List.nil_append] at h
      obtain ⟨he, h⟩ := Export.render_append_inj (hl e List.mem_cons_self)
        (hl' e' List.mem_cons_self) h
      rw [he, ih (fun d hd => hl d (List.mem_cons_of_mem _ hd))
        (fun d hd => hl' d (List.mem_cons_of_mem _ hd)) (List.tail_eq_of_cons_eq h)]

end Module

/-- **The text of a valid module is unambiguous**: no other valid module has the same text, and
with `n` exports the text is made of `1 + 2 * n` lines, each with a line feed at its end and none
inside. -/
theorem code_unambiguous :
    (∀ a b : Module, a.validate = .ok () → b.validate = .ok () →
      a.render.code = b.render.code → a = b) ∧
    ∀ m : Module, m.validate = .ok () →
      m.render.code.toList = (m.lineTexts.flatMap fun line => line.toList ++ ['\n']) ∧
      (∀ line ∈ m.lineTexts, '\n' ∉ line.toList) ∧
      m.lineTexts.length = 1 + 2 * m.exports.length := by
  refine ⟨fun a b ha hb h => ?_, fun m hm => ?_⟩
  · have htext : a.code.toList = b.code.toList := congrArg String.toList h
    rw [Module.code_toList, Module.code_toList] at htext
    obtain ⟨hpath, htext⟩ := quote_append_inj (List.append_cancel_left htext)
    have hexports := Module.exportsText_inj
      (fun e he name hname => Module.isIdentifier_of_validate ha he hname)
      (fun e he name hname => Module.isIdentifier_of_validate hb he hname)
      (List.tail_eq_of_cons_eq (List.tail_eq_of_cons_eq htext))
    obtain ⟨path, exports⟩ := a
    obtain ⟨path', exports'⟩ := b
    cases hpath
    cases hexports
    rfl
  · exact ⟨m.code_eq_lines, fun line hline => Module.notMem_lineTexts hm hline,
      m.length_lineTexts⟩

/-- A module whose helper path and snippet look like ends of literals and another export. -/
def lookalike : Module := ⟨"\"\\\n", [.program "draw" "\";\nexport const x = \"" ""]⟩

/-- The lookalike has three lines, and what has its text is the lookalike. -/
theorem code_unambiguous_lookalike :
    lookalike.validate = .ok () ∧
      (⟨lookalike.helperPath, []⟩ : Module).push (.program "draw" "\";\nexport const x = \"" "") =
        lookalike ∧
      (∀ line ∈ lookalike.lineTexts, '\n' ∉ line.toList) ∧ lookalike.lineTexts.length = 3 := by
  have h : lookalike.validate = .ok () := by rfl
  exact ⟨h, code_unambiguous.1 _ _ h h rfl, (code_unambiguous.2 _ h).2⟩

end ShaderModules
