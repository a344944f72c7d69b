import Mathlib.Data.List.Nodup
import ShaderModules.Bundle
import ShaderModules.Proofs.Json.Reading

/-!
# Reading a bundle from its text

The structured output for a list of snippets may be written in many ways (`Document`): with white
space between all tokens, with the fields in any order, and with further fields of arbitrary values
in every object. However it is written, reading it gives the bundle of those snippets, or the first
name that repeats (`parse_document`).

* `WritesSnippet`, `WritesOutput`: how a snippet and the whole output are written.
* `exists_of_firstRepeat?`: a name that is reported is the first that repeats.
-/

namespace ShaderModules

open Json Json.Grammar

/-! ## How a bundle is written -/

/-- The text is an object with the name and the contents of the snippet as written literals. -/
def WritesSnippet (s : Snippet) : List Char → Prop :=
  WritesRecord [("name", (· = (Text.quote s.name).toList)),
    ("contents", (· = (Text.quote s.contents).toList))]

/-- The text is an object with the snippets as the list `shaders`. -/
def WritesOutput (entries : List Snippet) : List Char → Prop :=
  WritesRecord [("shaders", WritesList WritesSnippet entries)]

/-- The text is structured output for the snippets, with white space around it. -/
def Document (entries : List Snippet) (text : String) : Prop :=
  ∃ w v w', IsSpace w ∧ IsSpace w' ∧ WritesOutput entries v ∧ text.toList = w ++ (v ++ w')

/-- The field with the name of a snippet. -/
def nameField (s : Snippet) : KnownField Snippet where
  field := ⟨"name", .required, (fun v (t : Snippet) => { t with name := v }) <$> Reader.text⟩
  value := (· = (Text.quote s.name).toList)
  update := fun t => { t with name := s.name }

/-- The field with the contents of a snippet. -/
def contentsField (s : Snippet) : KnownField Snippet where
  field :=
    ⟨"contents", .required, (fun v (t : Snippet) => { t with contents := v }) <$> Reader.text⟩
  value := (· = (Text.quote s.contents).toList)
  update := fun t => { t with contents := s.contents }

theorem accepts_nameField (s : Snippet) (v : List Char) (hv : (nameField s).value v) :
    Accepts (nameField s).field.update v (nameField s).update := by
  obtain rfl : v = (Text.quote s.name).toList := hv
  exact (accepts_quote s.name).map _

theorem accepts_contentsField (s : Snippet) (v : List Char) (hv : (contentsField s).value v) :
    Accepts (contentsField s).field.update v (contentsField s).update := by
  obtain rfl : v = (Text.quote s.contents).toList := hv
  exact (accepts_quote s.contents).map _

theorem accepts_snippet {s : Snippet} {v : List Char} (h : WritesSnippet s v) :
    Accepts (Bundle.snippetFormat (R := Reader)) v s := by
  have hread : ∀ k ∈ [nameField s, contentsField s], ∀ v, k.value v →
      Accepts k.field.update v k.update := by
    rw [List.forall_mem_cons, List.forall_mem_singleton]
    exact ⟨accepts_nameField s, accepts_contentsField s⟩
  have hcomm : ∀ k ∈ [nameField s, contentsField s], ∀ k' ∈ [nameField s, contentsField s],
      ∀ t, k'.update (k.update t) = k.update (k'.update t) := by
    intro k hk k' hk' t
    rw [List.mem_pair] at hk hk'
    rcases hk with rfl | rfl <;> rcases hk' with rfl | rfl <;> rfl
  have hnames : (([nameField s, contentsField s]).map fun k => k.field.name).Nodup := by
    change ["name", "contents"].Nodup
    decide
  exact accepts_record hread hnames hcomm "CompiledShaderEntry" ⟨"", ""⟩ h

/-- The field with the snippets of the output. -/
def shadersField (entries : List Snippet) : KnownField (Option (List Snippet)) where
  field := ⟨"shaders", .optional,
    (fun v _ => v) <$> Reader.option (Reader.list (Bundle.snippetFormat (R := Reader)))⟩
  value := WritesList WritesSnippet entries
  update := fun _ => some entries

theorem accepts_shadersField (entries : List Snippet) (v : List Char)
    (hv : (shadersField entries).value v) :
    Accepts (shadersField entries).field.update v (shadersField entries).update := by
  have hlist : Accepts (Reader.list (Bundle.snippetFormat (R := Reader))) v entries :=
    accepts_list (fun _ _ h => ⟨h.starts, accepts_snippet h⟩) hv
  obtain ⟨space, items, -, -, rfl⟩ := hv
  refine (accepts_option hlist ⟨'[', _, rfl, by decide⟩ ?_).map fun v _ => v
  exact fun h => by cases h

theorem accepts_output {entries : List Snippet} {v : List Char} (h : WritesOutput entries v) :
    Accepts (Bundle.outputFormat (R := Reader)) v (some entries) := by
  have hread : ∀ k ∈ [shadersField entries], ∀ v, k.value v →
      Accepts k.field.update v k.update := by
    rw [List.forall_mem_singleton]
    exact accepts_shadersField entries
  have hcomm : ∀ k ∈ [shadersField entries], ∀ k' ∈ [shadersField entries], ∀ t,
      k'.update (k.update t) = k.update (k'.update t) := by
    intro k hk k' hk' t
    rw [List.mem_singleton] at hk hk'
    rw [hk, hk']
  have hnames : ([shadersField entries].map fun k => k.field.name).Nodup := by
    change ["shaders"].Nodup
    decide
  exact accepts_record hread hnames hcomm "StructuredOutput" none h

/-! ## Names that repeat -/

/-- The snippet at position `i` has the name of an earlier one. -/
def Repeats (entries : List Snippet) (i : ℕ) : Prop :=
  ∃ s, entries[i]? = some s ∧ s.name ∈ (entries.take i).map Snippet.name

/-- The name that is found is among `seen` or stands further in front, and is the first one. -/
theorem exists_of_firstRepeat? {seen names : List String} {name : String}
    (h : firstRepeat? seen names = some name) :
    ∃ before after, names = before ++ name :: after ∧ before.Nodup ∧
      (∀ n ∈ before, n ∉ seen) ∧ (name ∈ seen ∨ name ∈ before) := by
  induction names generalizing seen with
  | nil => cases h
  | cons n names ih =>
    rw [firstRepeat?] at h
    by_cases hn : n ∈ seen
    · rw [if_pos hn] at h
      cases h
      exact ⟨[], names, rfl, List.nodup_nil, fun n hn => absurd hn List.not_mem_nil, .inl hn⟩
    · rw [if_neg hn] at h
      obtain ⟨before, after, rfl, hnodup, hfresh, hname⟩ := ih h
      have hnot : n ∉ before := fun hm => hfresh n hm List.mem_cons_self
      refine ⟨n :: before, after, rfl, List.nodup_cons.2 ⟨hnot, hnodup⟩, ?_, ?_⟩
      · rw [List.forall_mem_cons]
        exact ⟨hn, fun m hm hs => hfresh m hm (List.mem_cons_of_mem n hs)⟩
      · rw [List.mem_cons] at hname ⊢
        rcases hname with (rfl | hs) | hb
        · exact .inr (.inl rfl)
        · exact .inl hs
        · exact .inr (.inr hb)

theorem notMem_take_of_nodup {α : Type} {l : List α} (h : l.Nodup) {i : ℕ} {a : α}
    (ha : l[i]? = some a) : a ∉ l.take i := by
  intro hm
  obtain ⟨hi, rfl⟩ := List.getElem?_eq_some_iff.1 ha
  obtain ⟨k, hk, heq⟩ := List.mem_take_iff_getElem.1 hm
  have hki : k = i := h.getElem_inj_iff.1 heq
  omega

/-- Unless the names are pairwise distinct, the bundle is refused with the name at the first
position that repeats an earlier one. -/
theorem ofEntries_eq_error {entries : List Snippet} (h : ¬ (entries.map Snippet.name).Nodup) :
    ∃ i s, entries[i]? = some s ∧ Repeats entries i ∧ (∀ j < i, ¬ Repeats entries j) ∧
      Bundle.ofEntries entries = .error (.duplicateEntry s.name) := by
  cases hfirst : firstRepeat? [] (entries.map Snippet.name) with
  | none => exact absurd (firstRepeat?_eq_none_iff.1 hfirst).1 h
  | some name =>
    obtain ⟨before, after, hnames, hnodup, -, hname⟩ := exists_of_firstRepeat? hfirst
    have htake {j : ℕ} (hj : j ≤ before.length) :
        (entries.take j).map Snippet.name = before.take j := by
      rw [List.map_take, hnames, List.take_append_of_le_length hj]
    have hat : (entries.map Snippet.name)[before.length]? = some name := by
      rw [hnames, List.getElem?_append_right (Nat.le_refl _), Nat.sub_self]
      rfl
    rw [List.getElem?_map, Option.map_eq_some_iff] at hat
    obtain ⟨s, hs, rfl⟩ := hat
    refine ⟨before.length, s, hs, ⟨s, hs, ?_⟩, ?_, ?_⟩
    · rw [htake (Nat.le_refl _), List.take_length]
      exact hname.resolve_left List.not_mem_nil
    · rintro j hj ⟨t, ht, hmem⟩
      rw [htake (Nat.le_of_lt hj)] at hmem
      refine notMem_take_of_nodup hnodup ?_ hmem
      have htname : (entries.map Snippet.name)[j]? = some t.name := by
        rw [List.getElem?_map, ht]
        rfl
      rwa [hnames, List.getElem?_append_left hj] at htname
    · unfold Bundle.ofEntries
      split
      · rename_i heq
        rw [hfirst] at heq
        cases heq
        rfl
      · rename_i heq
        rw [hfirst] at heq
        cases heq

theorem ofEntries_eq_ok {entries : List Snippet} (h : (entries.map Snippet.name).Nodup) :
    Bundle.ofEntries entries = .ok ⟨entries, h⟩ := by
  unfold Bundle.ofEntries
  split
  · rename_i heq
    rw [firstRepeat?_eq_none_iff.2 ⟨h, fun n _ => List.not_mem_nil⟩] at heq
    cases heq
  · rfl

/-- **Reading undoes writing.** However the structured output for some snippets is written, reading
it is making a bundle of them: the bundle has exactly these snippets in this order, if their names
are pairwise distinct, and else the first position whose name repeats an earlier one is at fault. -/
theorem parse_document {entries : List Snippet} {text : String} (h : Document entries text) :
    Bundle.parse text = Bundle.ofEntries entries ∧
      (∀ hnodup : (entries.map Snippet.name).Nodup,
        Bundle.parse text = .ok ⟨entries, hnodup⟩) ∧
      (¬ (entries.map Snippet.name).Nodup → ∃ i s, entries[i]? = some s ∧ Repeats entries i ∧
        (∀ j < i, ¬ Repeats entries j) ∧
        Bundle.parse text = .error (.duplicateEntry s.name)) := by
  obtain ⟨w, v, w', hw, hw', hv, htext⟩ := h
  have hparse : (Bundle.outputFormat (R := Reader)).parse text = .ok (some entries) := by
    rw [Reader.parse, htext, parseChars_accepts (accepts_output hv) hw hw']
  have hbundle : Bundle.parse text = Bundle.ofEntries entries := by
    rw [Bundle.parse, hparse]
  rw [hbundle]
  exact ⟨rfl, fun hnodup => ofEntries_eq_ok hnodup, ofEntries_eq_error⟩

/-- A further field with a nested value, in which a surrogate stands alone. -/
def noteField : Member :=
  ⟨['\n'], Text.quoteBody "note".toList, [], ⟨[' '], listText [] [⟨[], "1.5e+3".toList, []⟩,
    ⟨[' '], objectText [] [⟨[], "\\ud800".toList, [], ⟨[], "null".toList, []⟩⟩], []⟩], []⟩⟩

/-- A field without white space. -/
def plainField (name : String) (value : List Char) : Member :=
  ⟨[], Text.quoteBody name.toList, [], ⟨[], value, []⟩⟩

/-- A snippet with its contents in front of its name and a further field between them. -/
def annotatedSnippet (s : Snippet) : List Char :=
  objectText [] [plainField "contents" (Text.quote s.contents).toList, noteField,
    plainField "name" (Text.quote s.name).toList]

/-- Structured output with a further field in every object. -/
def annotated (entries : List Snippet) : String :=
  String.ofList (objectText [] [noteField, plainField "shaders"
    (listText [] (entries.map fun s => ⟨[], annotatedSnippet s, [' ']⟩))] ++ ['\n'])

theorem isValue_note : IsValue noteField.item.value := by
  have hnumber : IsValue "1.5e+3".toList := .number
    ⟨[], ['1'], ['.', '5'], ['e', '+', '3'], .inl rfl, .inr ⟨by decide, by decide⟩,
      .inr ⟨['5'], by decide, rfl⟩,
      .inr ⟨'e', ['+'], ['3'], .inl rfl, .inr (.inl rfl), by decide, rfl⟩, rfl⟩
  have hkey : IsLiteral "\\ud800".toList := .unit (.digits rfl rfl rfl rfl) .nil
  refine .list isSpace_nil ?_ ?_
  · rw [List.forall_mem_cons, List.forall_mem_singleton]
    exact ⟨by decide, by decide⟩
  · rw [List.forall_mem_cons, List.forall_mem_singleton]
    refine ⟨hnumber, .object isSpace_nil ?_ ?_ ?_⟩
    · rw [List.forall_mem_singleton]
      decide
    · rw [List.forall_mem_singleton]
      exact hkey
    · rw [List.forall_mem_singleton]
      exact .null

theorem spaced_note : noteField.Spaced := ⟨by decide, isSpace_nil, by decide, isSpace_nil⟩

theorem named_plainField (name : String) (value : List Char) :
    (plainField name value).Named name := spells_quoteBody name.toList

theorem spaced_plainField (name : String) (value : List Char) :
    (plainField name value).Spaced := ⟨isSpace_nil, isSpace_nil, isSpace_nil, isSpace_nil⟩

theorem writesSnippet_annotatedSnippet (s : Snippet) : WritesSnippet s (annotatedSnippet s) := by
  have hname := named_plainField "name" (Text.quote s.name).toList
  have hcontents := named_plainField "contents" (Text.quote s.contents).toList
  have hperm : [plainField "contents" (Text.quote s.contents).toList, noteField,
      plainField "name" (Text.quote s.name).toList].Perm
      ([plainField "name" (Text.quote s.name).toList,
        plainField "contents" (Text.quote s.contents).toList] ++ [noteField]) :=
    List.perm_append_singleton _ [_, noteField]
  unfold annotatedSnippet WritesSnippet
  refine ⟨[], _, _, [noteField], isSpace_nil, ?_, hperm,
    .cons ⟨hname, ?_⟩ (.cons ⟨hcontents, ?_⟩ .nil), ?_, rfl⟩
  · rw [List.forall_mem_cons, List.forall_mem_cons, List.forall_mem_singleton]
    exact ⟨spaced_plainField _ _, spaced_note, spaced_plainField _ _⟩
  · rw [plainField]
  · rw [plainField]
  · rw [List.forall_mem_singleton]
    refine ⟨"note", spells_quoteBody _, ?_, isValue_note⟩
    change "note" ∉ ["name", "contents"]
    decide

theorem document_annotated (entries : List Snippet) : Document entries (annotated entries) := by
  refine ⟨[], _, ['\n'], isSpace_nil, by decide, ⟨[], _, [plainField "shaders"
    (listText [] (entries.map fun s => ⟨[], annotatedSnippet s, [' ']⟩))], [noteField], isSpace_nil,
    ?_, List.Perm.swap _ _ _, .cons ⟨named_plainField _ _, ?_⟩ .nil, ?_, rfl⟩,
    String.toList_ofList⟩
  · rw [List.forall_mem_cons, List.forall_mem_singleton]
    exact ⟨spaced_note, spaced_plainField _ _⟩
  · refine ⟨[], _, isSpace_nil, ?_, rfl⟩
    rw [List.forall₂_map_right_iff, List.forall₂_same]
    have hspace : IsSpace [' '] := by decide
    exact fun s _ => ⟨⟨isSpace_nil, hspace⟩, writesSnippet_annotatedSnippet s⟩
  · rw [List.forall_mem_singleton]
    refine ⟨"note", spells_quoteBody _, ?_, isValue_note⟩
    change "note" ∉ ["shaders"]
    decide

/-- Snippets whose names are not pairwise distinct. -/
def repeated : List Snippet := [⟨"b", "x"⟩, ⟨"a", "y"⟩, ⟨"b", "z"⟩, ⟨"a", ""⟩]

/-- Snippets with difficult texts are read back, and of the repeated names the first is reported. -/
theorem parse_document_annotated :
    Bundle.parse (annotated [⟨"b", "\"\\"⟩, ⟨"a", "\n"⟩]) =
        .ok ⟨[⟨"b", "\"\\"⟩, ⟨"a", "\n"⟩], by decide⟩ ∧
      Bundle.parse (annotated repeated) = .error (.duplicateEntry "b") ∧
      ∃ i s, repeated[i]? = some s ∧ Repeats repeated i ∧
        Bundle.parse (annotated repeated) = .error (.duplicateEntry s.name) := by
  have hall := parse_document (document_annotated repeated)
  obtain ⟨i, s, hs, hrepeats, -, herror⟩ := hall.2.2 (by decide)
  exact ⟨(parse_document (document_annotated _)).2.1 _, hall.1.trans rfl, i, s, hs, hrepeats,
    herror⟩

/-! ## Output as compilers print it -/

/-- Structured output for some snippets without white space and further fields. -/
def printed (entries : List Snippet) : String :=
  String.ofList (objectText [] [plainField "shaders" (listText [] (entries.map fun s =>
    ⟨[], objectText [] [plainField "name" (Text.quote s.name).toList,
      plainField "contents" (Text.quote s.contents).toList], []⟩))])

theorem writesSnippet_plain (s : Snippet) : WritesSnippet s (objectText []
    [plainField "name" (Text.quote s.name).toList,
      plainField "contents" (Text.quote s.contents).toList]) := by
  unfold WritesSnippet
  refine ⟨[], _, _, [], isSpace_nil, ?_, by rw [List.append_nil],
    .cons ⟨named_plainField _ _, ?_⟩ (.cons ⟨named_plainField _ _, ?_⟩ .nil), by simp, rfl⟩
  · rw [List.forall_mem_cons, List.forall_mem_singleton]
    exact ⟨spaced_plainField _ _, spaced_plainField _ _⟩
  · rw [plainField]
  · rw [plainField]

/-- Printed output is read back. -/
theorem parse_printed {entries : List Snippet} (h : (entries.map Snippet.name).Nodup) :
    Bundle.parse (printed entries) = .ok ⟨entries, h⟩ := by
  have hwrites : WritesOutput entries (printed entries).toList := by
    unfold printed WritesOutput
    rw [String.toList_ofList]
    refine ⟨[], _, _, [], isSpace_nil, ?_, List.Perm.refl _,
      .cons ⟨named_plainField _ _, ?_⟩ .nil, by simp, rfl⟩
    · rw [List.append_nil, List.forall_mem_singleton]
      exact spaced_plainField _ _
    · refine ⟨[], _, isSpace_nil, ?_, rfl⟩
      rw [List.forall₂_map_right_iff, List.forall₂_same]
      exact fun s _ => ⟨⟨isSpace_nil, isSpace_nil⟩, writesSnippet_plain s⟩
  have hread := parseChars_accepts (accepts_output hwrites) isSpace_nil isSpace_nil
  rw [List.nil_append, List.append_nil] at hread
  rw [Bundle.parse, Reader.parse, hread]
  exact ofEntries_eq_ok h

end ShaderModules
