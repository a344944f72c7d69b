import ShaderModules.Proofs.ModuleText
import ShaderModules.Proofs.PlannedExports
import ShaderModules.Text.Search

/-!
# The names that a module binds

The text of a module binds the imported helper and every named export at its top level
(`declaredNames`). A JavaScript module may bind a name once only, and only names that strict code
allows (`Alphabet.Allows`). What `Module.validate` accepts comes close to that: the exported names
are distinct, and each is written as an identifier and reserved for nothing. Three names are not
refused although they cannot be bound: that of the helper, which the import binds already, and
`eval` and `arguments`. They make the only difference (`bindings_legal_iff`).

* `Module.declaredNames_code`: the names that the text binds are those of the exports and the
  helper.
* `Module.exportNames_of_validate`: what a valid module's names satisfy.
* `helper_bound_twice`: a bundle whose module binds the helper's name twice.
-/

namespace ShaderModules

/-! ## Names that may be bound -/

/-- The characters beyond `$` and `_` that may start and continue a name, as a standard of
characters says. Letters and digits of ASCII are among them. -/
structure Alphabet where
  Starts : Char → Prop
  Continues : Char → Prop
  starts_of_isAlpha : ∀ c : Char, c.isAlpha = true → Starts c
  continues_of_isAlphanum : ∀ c : Char, c.isAlphanum = true → Continues c

/-- The words that are reserved in the strict code of a module: keywords, literals, and the words
that only strict code or only a module reserves. -/
def strictWords : List String :=
  ["break", "case", "catch", "class", "const", "continue", "debugger", "default", "delete", "do",
    "else", "enum", "export", "extends", "finally", "for", "function", "if", "import", "in",
    "instanceof", "new", "return", "super", "switch", "this", "throw", "try", "typeof", "var",
    "void", "while", "with"] ++
  ["false", "null", "true"] ++
  ["implements", "interface", "let", "package", "private", "protected", "public", "static",
    "yield"] ++
  ["await"]

namespace Alphabet

/-- Whether a text is written as a name. The zero-width joiners may stand inside. -/
def Writes (a : Alphabet) (name : String) : Prop :=
  ∃ first rest, name.toList = first :: rest ∧
    (a.Starts first ∨ first = '$' ∨ first = '_') ∧
    ∀ c ∈ rest, a.Continues c ∨ c = '$' ∨ c = '_' ∨ c = '\u200C' ∨ c = '\u200D'

/-- Whether strict code may bind a name. -/
def Allows (a : Alphabet) (name : String) : Prop :=
  a.Writes name ∧ name ∉ strictWords ∧ name ≠ "eval" ∧ name ≠ "arguments"

/-- The letters and digits of ASCII alone. -/
def ascii : Alphabet where
  Starts c := c.isAlpha = true
  Continues c := c.isAlphanum = true
  starts_of_isAlpha _ h := h
  continues_of_isAlphanum _ h := h

end Alphabet

/-- Names bound at the top level of a module do not clash with each other, and strict code may bind
each of `exported`. -/
def BindsLegally (a : Alphabet) (bound exported : List String) : Prop :=
  bound.Nodup ∧ ∀ name ∈ exported, a.Allows name

theorem notMem_reservedWords {name : String} (h : isIdentifier name = true) :
    name ∉ reservedWords := by
  unfold isIdentifier at h
  split at h
  · cases h
  · simp only [Bool.and_eq_true] at h
    simpa using h.2

theorem strictWords_subset : strictWords ⊆ reservedWords := by decide

theorem writes_of_isIdentifier (a : Alphabet) {name : String} (h : isIdentifier name = true) :
    a.Writes name := by
  unfold isIdentifier at h
  split at h
  · cases h
  · rename_i first rest hname
    simp only [Bool.and_eq_true] at h
    obtain ⟨⟨hfirst, hrest⟩, -⟩ := h
    refine ⟨first, rest, hname, ?_, fun c hc => ?_⟩
    · simp only [isIdentifierStart, Bool.or_eq_true, beq_iff_eq] at hfirst
      rcases hfirst with (h | h) | h
      · exact .inl (a.starts_of_isAlpha _ h)
      · exact .inr (.inr h)
      · exact .inr (.inl h)
    · have hpart := List.all_eq_true.1 hrest c hc
      simp only [isIdentifierPart, Bool.or_eq_true, beq_iff_eq] at hpart
      rcases hpart with (h | h) | h
      · exact .inl (a.continues_of_isAlphanum _ h)
      · exact .inr (.inr (.inl h))
      · exact .inr (.inl h)

/-- An identifier may be bound unless it is one of the two names that strict code keeps. -/
theorem allows_iff (a : Alphabet) {name : String} (h : isIdentifier name = true) :
    a.Allows name ↔ name ≠ "eval" ∧ name ≠ "arguments" :=
  ⟨fun ha => ha.2.2, fun hne => ⟨writes_of_isIdentifier a h,
    fun hm => notMem_reservedWords h (strictWords_subset hm), hne⟩⟩

/-! ## The names of a valid module -/

namespace Module

/-- The exported names of a valid module are distinct identifiers. -/
theorem exportNames_of_validate {m : Module} (h : m.validate = .ok ()) :
    m.exportNames.Nodup ∧ ∀ name ∈ m.exportNames, isIdentifier name = true := by
  obtain ⟨hidentifiers, hpairwise⟩ := validate_eq_ok_iff.1 h
  exact ⟨(pairwise_name?_ne_iff.1 hpairwise).1, hidentifiers⟩

end Module

/-! ## The names that a text binds -/

/-- The name that a line of a module binds: an import names it between braces, and an export
between `const` and the next space. -/
def declaredName? (line : List Char) : Option String :=
  match Text.stripPrefix? "import \x7b".toList line with
  | some rest => some (String.ofList (rest.takeWhile (· ≠ '\x7d')))
  | none =>
    (Text.stripPrefix? "export const ".toList line).map fun rest =>
      String.ofList (rest.takeWhile (· ≠ ' '))

/-- The names that the lines of a text bind, in order. -/
def declaredNames (text : String) : List String :=
  (Text.splitAt '\n' text.toList).filterMap declaredName?

/-- A text made of lines is split into them; nothing stands behind the last line feed. -/
theorem splitAt_lines {lines : List String} (h : ∀ line ∈ lines, '\n' ∉ line.toList) :
    Text.splitAt '\n' (lines.flatMap fun line => line.toList ++ ['\n']) =
      lines.map String.toList ++ [[]] := by
  unfold Text.splitAt
  induction lines with
  | nil => simp [Text.splitOn, Text.splitFrom]
  | cons line rest ih =>
    obtain ⟨hline, hrest⟩ := List.forall_mem_cons.1 h
    have hwhole : ¬ ['\n'] <:+: line.toList := fun hin => hline (hin.subset List.mem_cons_self)
    rw [List.flatMap_cons, List.append_assoc, Text.splitOn_append (Text.leadsOnce_singleton '\n'),
      Text.splitOn_of_not_infix hwhole, ih hrest]
    rfl

theorem takeWhile_ne_append {s : List Char} {c : Char} (h : c ∉ s) (rest : List Char) :
    (s ++ c :: rest).takeWhile (· ≠ c) = s := by
  rw [List.takeWhile_append_of_pos fun d hd => by simpa using fun he : d = c => h (he ▸ hd)]
  simp

theorem declaredName?_import (m : Module) :
    declaredName? m.importStatement.toList = some createProgram := by
  have htext : m.importStatement.toList = "import \x7b".toList ++
      (createProgram.toList ++ '\x7d' :: (" from ".toList ++
        ((Text.quote m.helperPath).toList ++ [';']))) := by
    unfold Module.importStatement createProgram
    simp only [String.toList_append, List.append_assoc]
    rfl
  rw [declaredName?, htext, Text.stripPrefix?_eq_some_iff.2 rfl]
  simp only [takeWhile_ne_append (show '\x7d' ∉ createProgram.toList by decide),
    String.ofList_toList]

theorem declaredName?_render {e : Export}
    (he : ∀ name, e.name? = some name → isIdentifier name = true) :
    declaredName? e.render.toList = e.name? := by
  cases hn : e.name? with
  | some name =>
    have himport (rest : List Char) :
        Text.stripPrefix? "import \x7b".toList ("export const ".toList ++ rest) = none := rfl
    have hspace : ' ' ∉ name.toList := notMem_of_isIdentifier (he name hn) (by decide)
    rw [declaredName?, Export.render_named hn, himport, Text.stripPrefix?_eq_some_iff.2 rfl]
    simp only [Option.map_some, takeWhile_ne_append hspace, String.ofList_toList]
  | none =>
    obtain ⟨source, rfl⟩ := Export.eq_default_of_name?_eq_none hn
    rw [declaredName?, Export.render_default]
    rfl

/-- The text of a valid module binds the helper and then the exported names. -/
theorem Module.declaredNames_code {m : Module} (h : m.validate = .ok ()) :
    declaredNames m.code = createProgram :: m.exportNames := by
  rw [declaredNames, m.code_eq_lines, splitAt_lines fun line hline => notMem_lineTexts h hline,
    lineTexts, List.map_cons, List.cons_append, List.filterMap_cons_some (declaredName?_import m)]
  have hexport : ∀ e ∈ m.exports,
      ["", e.render].filterMap (declaredName? ∘ String.toList) = e.name?.toList := by
    intro e he
    have hempty : (declaredName? ∘ String.toList) "" = none := rfl
    have hname : (declaredName? ∘ String.toList) e.render = e.name? :=
      declaredName?_render fun name hname => isIdentifier_of_validate h he hname
    rw [List.filterMap_cons_none hempty]
    cases hn : e.name? with
    | none => rw [List.filterMap_cons_none (hname.trans hn)]; rfl
    | some name => rw [List.filterMap_cons_some (hname.trans hn)]; rfl
  refine congrArg (createProgram :: ·) ?_
  calc (((m.exports.flatMap fun e : Export => ["", e.render]).map String.toList) ++ [[]]).filterMap
        declaredName?
      = m.exports.flatMap fun e : Export =>
          ["", e.render].filterMap (declaredName? ∘ String.toList) := by
        rw [List.filterMap_append, List.filterMap_map, List.filterMap_flatMap]
        exact List.append_nil _
    _ = m.exports.flatMap fun e => e.name?.toList := List.flatMap_congr hexport
    _ = m.exportNames := (List.filterMap_eq_flatMap_toList ..).symm

/-- **What a generated module binds.** The text of a bundle's module binds the helper and the
exported names. The exported names are distinct, each is written as a name and none is a reserved
word. A module may bind all of this exactly if no snippet is exported under the name of the helper
or as `eval` or `arguments`. -/
theorem bindings_legal_iff (a : Alphabet) {b : Bundle} {naming : Naming} {g : Generated}
    (h : b.synthesize naming = .ok g) :
    declaredNames g.code = createProgram :: (b.module naming).exportNames ∧
    (b.module naming).exportNames.Nodup ∧
    (∀ name ∈ (b.module naming).exportNames, a.Writes name ∧ name ∉ strictWords) ∧
    (BindsLegally a (declaredNames g.code) (b.module naming).exportNames ↔
      ∀ name ∈ (b.module naming).exportNames, name ∉ [createProgram, "eval", "arguments"]) := by
  obtain ⟨hvalid, rfl⟩ := Bundle.synthesize_eq_ok_iff.1 h
  have hnames : declaredNames (b.module naming).render.code = _ := Module.declaredNames_code hvalid
  obtain ⟨hnodup, hident⟩ := Module.exportNames_of_validate hvalid
  refine ⟨hnames, hnodup, fun name hname => ⟨writes_of_isIdentifier a (hident name hname),
    fun hm => notMem_reservedWords (hident name hname) (strictWords_subset hm)⟩, ?_⟩
  rw [hnames, BindsLegally, List.nodup_cons]
  constructor
  · rintro ⟨⟨hhelper, -⟩, hallows⟩ name hname
    obtain ⟨heval, harguments⟩ := (allows_iff a (hident name hname)).1 (hallows name hname)
    have hne : name ≠ createProgram := fun he => hhelper (he ▸ hname)
    simp [hne, heval, harguments]
  · intro hfree
    refine ⟨⟨fun hm => by simpa using hfree _ hm, hnodup⟩, fun name hname => ?_⟩
    have hne := hfree name hname
    simp only [List.mem_cons, List.not_mem_nil, or_false, not_or] at hne
    exact (allows_iff a (hident name hname)).2 hne.2

/-- A vertex and a fragment snippet with one key, the default snippet and another one. -/
def drawing : Bundle :=
  ⟨[⟨"drawVertex", "v"⟩, ⟨"main", "m"⟩, ⟨"drawFragment", "f"⟩, ⟨"tint", "t"⟩], by decide⟩

/-- The module of the drawing binds the helper, the program and the other snippet legally. -/
theorem bindings_legal_iff_drawing : ∃ g, drawing.synthesize {} = .ok g ∧
    BindsLegally .ascii (declaredNames g.code) ["draw", "tint"] := by
  have hvalid : (drawing.module {}).validate = .ok () := by decide
  have hnames : (drawing.module {}).exportNames = ["draw", "tint"] := by decide
  have h := Bundle.synthesize_eq_ok_iff.2 ⟨hvalid, rfl⟩
  have hlegal := (bindings_legal_iff .ascii h).2.2.2.2
  rw [hnames] at hlegal
  exact ⟨_, h, hlegal (by decide)⟩

/-- A snippet with the name of the helper. -/
def namesake : Bundle := ⟨[⟨"createProgram", "x"⟩], by decide⟩

/-- The module of the namesake is accepted and binds the name of the helper twice. -/
theorem helper_bound_twice : ∃ g, namesake.synthesize {} = .ok g ∧
    declaredNames g.code = ["createProgram", "createProgram"] ∧
    ∀ a : Alphabet, ¬ BindsLegally a (declaredNames g.code) (namesake.module {}).exportNames := by
  have hvalid : (namesake.module {}).validate = .ok () := by decide
  have hnames : declaredNames (namesake.module {}).render.code =
      ["createProgram", "createProgram"] := Module.declaredNames_code hvalid
  refine ⟨_, Bundle.synthesize_eq_ok_iff.2 ⟨hvalid, rfl⟩, hnames, fun a h => ?_⟩
  rw [BindsLegally, hnames] at h
  exact absurd h.1 (by decide)

end ShaderModules
