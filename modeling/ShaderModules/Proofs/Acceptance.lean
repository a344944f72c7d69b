import Mathlib.Data.List.Pairwise
import ShaderModules.Proofs.Replanning
import ShaderModules.Proofs.Validity

/-!
# When a bundle is accepted

Whether a module can be made of a bundle is a matter of names. Programs are exported under their
keys (`Bundle.IsPaired`), other snippets under their own names (`Bundle.IsStandalone`) or as the
default. No two exports are made of the same snippet, so two programs differ in their keys, two
other exports in their names, and there is one default at most (`exports_pairwise`,
`exists_of_name?_eq`). What remains to go wrong is a name that is no identifier, and a key of a
program that is the name of a snippet beside it: `synthesize_accepts` says that nothing else does.

* `Bundle.mem_exportNames_iff`: the names that the module of a bundle exports.
-/

namespace ShaderModules

/-- Two exports that are made of different snippets and have the same name are a program and a
value. -/
theorem Export.exists_of_name?_eq {naming : Naming} {d e : Export}
    (h : ∀ s ∈ d.slots naming, ∀ t ∈ e.slots naming, s.name ≠ t.name) (hname : d.name? = e.name?) :
    ∃ name vertex fragment source, d.name? = some name ∧
      (d = .program name vertex fragment ∧ e = .value name source ∨
        d = .value name source ∧ e = .program name vertex fragment) := by
  cases d with
  | program key vertex fragment =>
    cases e with
    | program key' vertex' fragment' =>
      cases hname
      exact absurd rfl (h ⟨_, vertex⟩ List.mem_cons_self ⟨_, vertex'⟩ List.mem_cons_self)
    | value name source =>
      cases hname
      exact ⟨_, vertex, fragment, source, rfl, .inl ⟨rfl, rfl⟩⟩
    | default source => cases hname
  | value name source =>
    cases e with
    | program key vertex fragment =>
      cases hname
      exact ⟨_, vertex, fragment, source, rfl, .inr ⟨rfl, rfl⟩⟩
    | value name' source' =>
      cases hname
      exact absurd rfl (h ⟨_, source⟩ List.mem_cons_self ⟨_, source'⟩ List.mem_cons_self)
    | default source' => cases hname
  | default source =>
    cases e with
    | program key vertex fragment => cases hname
    | value name' source' => cases hname
    | default source' =>
      exact absurd rfl (h ⟨_, source⟩ List.mem_cons_self ⟨_, source'⟩ List.mem_cons_self)

namespace Bundle

variable (b : Bundle)

/-! ## The names of a module -/

/-- A vertex and a fragment snippet have the key. -/
def IsPaired (suffixes : Suffixes) (key : String) : Prop :=
  (∃ v ∈ b.ofStage suffixes (some .vertex), suffixes.keyIn .vertex v.name = key) ∧
    ∃ f ∈ b.ofStage suffixes (some .fragment), suffixes.keyIn .fragment f.name = key

/-- A snippet of the bundle is exported under its own name: it belongs to a stage and its key is
not paired, or it belongs to none and is not the default. -/
def IsStandalone (naming : Naming) (s : Snippet) : Prop :=
  s ∈ b.entries ∧
    match naming.suffixes.stageOf s.name with
    | some stage => ¬ b.IsPaired naming.suffixes (naming.suffixes.keyIn stage s.name)
    | none => s.name ≠ naming.defaultExport

variable {b} {naming : Naming} {suffixes : Suffixes}

theorem isPaired_iff {v : Snippet} (h : v ∈ b.ofStage suffixes (some .vertex)) :
    b.IsPaired suffixes (suffixes.keyIn .vertex v.name) ↔
      ∃ f, b.partner? suffixes (suffixes.keyIn .vertex v.name) = some f := by
  simp only [partner?_eq_some_iff]
  exact ⟨fun hp => hp.2, fun hf => ⟨⟨v, h, rfl⟩, hf⟩⟩

theorem isAlone_iff {f : Snippet} (h : f ∈ b.ofStage suffixes (some .fragment)) :
    b.IsAlone suffixes f ↔ ¬ b.IsPaired suffixes (suffixes.keyIn .fragment f.name) := by
  constructor
  · rintro halone ⟨⟨v, hv, hkey⟩, -⟩
    exact halone v hv hkey
  · intro hpaired v hv hkey
    exact hpaired ⟨⟨v, hv, hkey⟩, f, h, rfl⟩

/-- The export of a vertex snippet is a program if its key is paired, and else a value. -/
theorem vertexExport_cases {v : Snippet} (h : v ∈ b.ofStage naming.suffixes (some .vertex)) :
    (∃ f : Snippet, b.IsPaired naming.suffixes (naming.suffixes.keyIn .vertex v.name) ∧
        b.vertexExport naming v =
          .program (naming.suffixes.keyIn .vertex v.name) v.contents f.contents) ∨
      b.IsStandalone naming v ∧ b.vertexExport naming v = .value v.name v.contents := by
  unfold vertexExport
  cases hpartner : b.partner? naming.suffixes (naming.suffixes.keyIn .vertex v.name) with
  | some f => exact .inl ⟨f, (isPaired_iff h).2 ⟨f, hpartner⟩, rfl⟩
  | none =>
    refine .inr ⟨⟨(mem_ofStage.1 h).1, ?_⟩, rfl⟩
    rw [(mem_ofStage.1 h).2]
    intro hpaired
    obtain ⟨f, hf⟩ := (isPaired_iff h).1 hpaired
    rw [hpartner] at hf
    cases hf

/-- A program is exported under each paired key and no other. -/
theorem program_mem_exports_iff {key : String} :
    (∃ vertex fragment, .program key vertex fragment ∈ b.exports naming) ↔
      b.IsPaired naming.suffixes key := by
  simp only [exports, List.mem_append, List.mem_map]
  constructor
  · rintro ⟨vertex, fragment, (⟨v, hv, he⟩ | ⟨f, -, he⟩) | ⟨s, -, he⟩⟩
    · rcases vertexExport_cases hv with ⟨f, hpaired, hexport⟩ | ⟨-, hexport⟩ <;>
        rw [hexport] at he <;> cases he
      exact hpaired
    · cases he
    · unfold otherExport at he
      split at he <;> cases he
  · rintro ⟨⟨v, hv, rfl⟩, hf⟩
    obtain ⟨f, hpartner⟩ := (isPaired_iff hv).1 ⟨⟨v, hv, rfl⟩, hf⟩
    exact ⟨v.contents, f.contents, .inl (.inl ⟨v, hv, by rw [vertexExport, hpartner]⟩)⟩

theorem value_inj {s t : Snippet} (h : Export.value s.name s.contents = .value t.name t.contents) :
    s = t := by
  obtain ⟨name, contents⟩ := s
  obtain ⟨name', contents'⟩ := t
  cases h
  rfl

/-- A value is exported of each snippet that stands alone and of no other. -/
theorem value_mem_exports_iff {s : Snippet} :
    .value s.name s.contents ∈ b.exports naming ↔ b.IsStandalone naming s := by
  simp only [exports, List.mem_append, List.mem_map, List.mem_filter, decide_eq_true_iff]
  constructor
  · rintro ((⟨v, hv, he⟩ | ⟨f, ⟨hf, halone⟩, he⟩) | ⟨t, ht, he⟩)
    · rcases vertexExport_cases hv with ⟨f, -, hexport⟩ | ⟨hstandalone, hexport⟩ <;>
        rw [hexport] at he
      · cases he
      · exact value_inj he ▸ hstandalone
    · rw [← value_inj he]
      refine ⟨(mem_ofStage.1 hf).1, ?_⟩
      rw [(mem_ofStage.1 hf).2]
      exact (isAlone_iff hf).1 halone
    · unfold otherExport at he
      split at he
      · cases he
      · rename_i hdefault
        rw [← value_inj he]
        refine ⟨(mem_ofStage.1 ht).1, ?_⟩
        rw [(mem_ofStage.1 ht).2]
        exact hdefault
  · rintro ⟨hs, hname⟩
    cases hstage : naming.suffixes.stageOf s.name with
    | none =>
      rw [hstage] at hname
      exact .inr ⟨s, mem_ofStage.2 ⟨hs, hstage⟩, if_neg hname⟩
    | some stage =>
      rw [hstage] at hname
      cases stage with
      | vertex =>
        have hv := mem_ofStage.2 ⟨hs, hstage⟩
        rcases vertexExport_cases hv with ⟨f, hpaired, -⟩ | ⟨-, hexport⟩
        · exact absurd hpaired hname
        · exact .inl (.inl ⟨s, hv, hexport⟩)
      | fragment =>
        have hf := mem_ofStage.2 ⟨hs, hstage⟩
        exact .inl (.inr ⟨s, ⟨hf, (isAlone_iff hf).2 hname⟩, rfl⟩)

/-- The exported names are the paired keys and the names of the snippets that stand alone. -/
theorem mem_exportNames_iff {name : String} : name ∈ (b.module naming).exportNames ↔
    b.IsPaired naming.suffixes name ∨ ∃ s, b.IsStandalone naming s ∧ s.name = name := by
  rw [Module.exportNames, List.mem_filterMap]
  constructor
  · rintro ⟨e, he, hname⟩
    cases e with
    | program key vertex fragment =>
      cases hname
      exact .inl (program_mem_exports_iff.1 ⟨vertex, fragment, he⟩)
    | value _ source =>
      cases hname
      exact .inr ⟨⟨name, source⟩, value_mem_exports_iff.1 he, rfl⟩
    | default source => cases hname
  · rintro (hpaired | ⟨s, hs, rfl⟩)
    · obtain ⟨vertex, fragment, he⟩ := program_mem_exports_iff.2 hpaired
      exact ⟨_, he, rfl⟩
    · exact ⟨_, value_mem_exports_iff.2 hs, rfl⟩

/-! ## Names that clash -/

/-- No two exports are made of snippets with a common name. -/
theorem exports_pairwise (b : Bundle) (naming : Naming) : (b.exports naming).Pairwise
    fun d e => ∀ s ∈ d.slots naming, ∀ t ∈ e.slots naming, s.name ≠ t.name := by
  have hnames : ((b.exports naming).flatMap fun e => (e.slots naming).map Snippet.name).Nodup := by
    rw [← List.map_flatMap]
    exact (b.expansion naming).names_nodup
  refine (List.nodup_flatMap.1 hnames).2.imp fun {d e} hdisjoint s hs t ht heq => ?_
  exact hdisjoint (List.mem_map_of_mem hs) (heq ▸ List.mem_map_of_mem ht)

/-- Two exports with the same name are a program and a value: the name is a paired key and the name
of a snippet that stands alone. -/
theorem exists_of_name?_eq {d e : Export} (hd : d ∈ b.exports naming) (he : e ∈ b.exports naming)
    (h : ∀ s ∈ d.slots naming, ∀ t ∈ e.slots naming, s.name ≠ t.name) (hname : d.name? = e.name?) :
    ∃ s, d.name? = some s.name ∧ b.IsPaired naming.suffixes s.name ∧ b.IsStandalone naming s := by
  obtain ⟨name, vertex, fragment, source, hname, ⟨rfl, rfl⟩ | ⟨rfl, rfl⟩⟩ :=
    Export.exists_of_name?_eq h hname
  · exact ⟨⟨name, source⟩, hname, program_mem_exports_iff.1 ⟨_, _, hd⟩,
      value_mem_exports_iff.1 he⟩
  · exact ⟨⟨name, source⟩, hname, program_mem_exports_iff.1 ⟨_, _, he⟩,
      value_mem_exports_iff.1 hd⟩

/-- The exports of a bundle agree in no name exactly if no paired key is the name of a snippet that
stands alone. -/
theorem pairwise_name?_iff : ((b.exports naming).Pairwise fun d e => d.name? ≠ e.name?) ↔
    ∀ key s, b.IsPaired naming.suffixes key → b.IsStandalone naming s → key ≠ s.name := by
  constructor
  · rintro hpairwise key s hpaired hs rfl
    obtain ⟨vertex, fragment, hprogram⟩ := program_mem_exports_iff.2 hpaired
    have : Std.Symm fun d e : Export => d.name? ≠ e.name? := ⟨fun _ _ hne => hne.symm⟩
    exact hpairwise.forall hprogram (value_mem_exports_iff.2 hs) (by simp) rfl
  · intro hclash
    refine (exports_pairwise b naming).imp_of_mem fun {d e} hd he hslots hname => ?_
    obtain ⟨s, -, hpaired, hs⟩ := exists_of_name?_eq hd he hslots hname
    exact hclash s.name s hpaired hs rfl

/-- An export of a bundle that offends has a name that is no identifier, or one that is both a
paired key and the name of a snippet that stands alone. -/
theorem exists_of_offends {before after : List Export} {e : Export} {err : StructureError}
    (hsplit : b.exports naming = before ++ e :: after) (h : Module.Offends before e err) :
    (∃ name, err = .invalidExportName name ∧ isIdentifier name = false ∧
        name ∈ (b.module naming).exportNames) ∨
      ∃ s, err = .duplicateExport s.name ∧ isIdentifier s.name = true ∧
        b.IsPaired naming.suffixes s.name ∧ b.IsStandalone naming s := by
  have he : e ∈ b.exports naming := by simp [hsplit]
  have hbefore : ∀ d ∈ before, d ∈ b.exports naming := fun d hd => by simp [hsplit, hd]
  have hslots : ∀ d ∈ before, ∀ s ∈ d.slots naming, ∀ t ∈ e.slots naming, s.name ≠ t.name := by
    have hpairwise := exports_pairwise b naming
    rw [hsplit, List.pairwise_append] at hpairwise
    exact fun d hd => hpairwise.2.2 d hd e List.mem_cons_self
  rcases h with ⟨hname, hinvalid⟩ | ⟨hname, hid, hmem⟩ | ⟨hnone, d, hd, hdnone⟩
  · exact .inl ⟨_, rfl, hinvalid, List.mem_filterMap.2 ⟨e, he, hname⟩⟩
  · obtain ⟨d, hd, hdname⟩ := List.mem_filterMap.1 hmem
    obtain ⟨s, hs, hpaired, hstandalone⟩ :=
      exists_of_name?_eq (hbefore d hd) he (hslots d hd) (hdname.trans hname.symm)
    rw [hdname] at hs
    cases hs
    exact .inr ⟨s, rfl, hid, hpaired, hstandalone⟩
  · obtain ⟨s, hs, -⟩ :=
      exists_of_name?_eq (hbefore d hd) he (hslots d hd) (hdnone.trans hnone.symm)
    rw [hdnone] at hs
    cases hs

/-- **When a bundle is accepted.** A module is made of a bundle exactly if every paired key and the
name of every snippet that stands alone is an identifier, and no paired key is the name of a snippet
that stands alone. Any other bundle is refused for an exported name that is no identifier, or for a
name that is both a paired key and the name of a snippet that stands alone; a second default is
never at fault. -/
theorem synthesize_accepts (b : Bundle) (naming : Naming) :
    ((∃ g, b.synthesize naming = .ok g) ↔
      (∀ key, b.IsPaired naming.suffixes key → isIdentifier key = true) ∧
      (∀ s, b.IsStandalone naming s → isIdentifier s.name = true) ∧
      ∀ key s, b.IsPaired naming.suffixes key → b.IsStandalone naming s → key ≠ s.name) ∧
    (∀ err, b.synthesize naming = .error err →
      (∃ name, err = .invalidExportName name ∧ isIdentifier name = false ∧
        (b.IsPaired naming.suffixes name ∨ ∃ s, b.IsStandalone naming s ∧ s.name = name)) ∨
      ∃ s, err = .duplicateExport s.name ∧ b.IsPaired naming.suffixes s.name ∧
        b.IsStandalone naming s) ∧
    b.synthesize naming ≠ .error (.duplicateExport "default") := by
  have herror : ∀ err, b.synthesize naming = .error err →
      (b.module naming).validate = .error err := by
    intro err h
    rw [synthesize_eq] at h
    cases hvalid : (b.module naming).validate with
    | error err' => rw [hvalid] at h; cases h; rfl
    | ok _ => rw [hvalid] at h; cases h
  have hoffends : ∀ err, b.synthesize naming = .error err →
      (∃ name, err = .invalidExportName name ∧ isIdentifier name = false ∧
        name ∈ (b.module naming).exportNames) ∨
      ∃ s, err = .duplicateExport s.name ∧ isIdentifier s.name = true ∧
        b.IsPaired naming.suffixes s.name ∧ b.IsStandalone naming s := by
    intro err h
    obtain ⟨before, e, after, hsplit, -, hoffends⟩ :=
      Module.exists_of_validate_eq_error (herror err h)
    exact exists_of_offends hsplit hoffends
  refine ⟨?_, fun err h => ?_, fun h => ?_⟩
  · have hnames : (∀ name ∈ (b.module naming).exportNames, isIdentifier name = true) ↔
        (∀ key, b.IsPaired naming.suffixes key → isIdentifier key = true) ∧
          ∀ s, b.IsStandalone naming s → isIdentifier s.name = true := by
      simp only [mem_exportNames_iff, or_imp, forall_and, forall_exists_index, and_imp]
      exact and_congr_right fun _ =>
        ⟨fun h s hs => h s.name s hs rfl, fun h name s hs hname => hname ▸ h s hs⟩
    have hvalid : (∃ g, b.synthesize naming = .ok g) ↔ (b.module naming).validate = .ok () := by
      simp only [synthesize_eq_ok_iff, exists_and_left, exists_eq', and_true]
    rw [hvalid, Module.validate_eq_ok_iff, hnames, module, pairwise_name?_iff, and_assoc]
  · rcases hoffends err h with ⟨name, rfl, hinvalid, hmem⟩ | ⟨s, rfl, -, hpaired, hs⟩
    · exact .inl ⟨name, rfl, hinvalid, mem_exportNames_iff.1 hmem⟩
    · exact .inr ⟨s, rfl, hpaired, hs⟩
  · rcases hoffends _ h with ⟨name, heq, -⟩ | ⟨s, heq, hid, -⟩
    · cases heq
    · -- the word `default` is refused as a name before it can be met again
      rw [← StructureError.duplicateExport.inj heq] at hid
      exact absurd hid (by decide)

/-- A program whose key is the name of a vertex snippet beside it. -/
def nested : Bundle :=
  ⟨[⟨"fooVertexVertex", "v"⟩, ⟨"fooVertexFragment", "f"⟩, ⟨"fooVertex", "x"⟩], by decide⟩

/-- The key of the program clashes with the vertex snippet that stands alone. -/
theorem synthesize_accepts_nested :
    nested.synthesize {} = .error (.duplicateExport "fooVertex") ∧
      nested.IsPaired {} "fooVertex" ∧ (∃ s, nested.IsStandalone {} s ∧ s.name = "fooVertex") ∧
      ¬ ∃ g, nested.synthesize {} = .ok g := by
  have herror : nested.synthesize {} = .error (.duplicateExport "fooVertex") := by decide
  obtain ⟨haccepts, herrors, -⟩ := synthesize_accepts nested {}
  rcases herrors _ herror with ⟨name, heq, -⟩ | ⟨s, heq, hpaired, hs⟩
  · cases heq
  · obtain hname : "fooVertex" = s.name := StructureError.duplicateExport.inj heq
    refine ⟨herror, hname ▸ hpaired, ⟨s, hs, hname.symm⟩, fun haccepted => ?_⟩
    exact (haccepts.1 haccepted).2.2 s.name s hpaired hs rfl

end Bundle

end ShaderModules
