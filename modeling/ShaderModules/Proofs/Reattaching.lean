import ShaderModules.Proofs.PlannedExports

/-!
# Suffixes taken off and put back

A name that is split into a stage and a key can always be put together again. The other way round, a
key that is put into a stage need not be found there: the suffix may be empty, or the name may end
with the fragment suffix by accident, which is looked for first. It is found for every key and both
stages exactly if the suffixes are unambiguous (`classify_attach_iff`).

* `Suffixes.Unambiguous`: neither suffix is empty or ends with the other.
* `Suffixes.classify_attach_eq_iff`: a key is found again exactly if its stage is.
-/

namespace ShaderModules.Suffixes

/-- Neither suffix is empty, and neither ends with the other. -/
structure Unambiguous (suffixes : Suffixes) : Prop where
  vertex_ne : suffixes.vertex ≠ ""
  fragment_ne : suffixes.fragment ≠ ""
  vertex_not_suffix : ¬ suffixes.vertex.toList <:+ suffixes.fragment.toList
  fragment_not_suffix : ¬ suffixes.fragment.toList <:+ suffixes.vertex.toList

variable {suffixes : Suffixes}

/-! ## One key -/

theorem marks_append_iff {suffix : String} (key : String) :
    Marks suffix (key ++ suffix) ↔ suffix ≠ "" := by
  rw [Marks, String.toList_append]
  exact and_iff_left (List.suffix_append _ _)

/-- A key is found again exactly if its stage is. -/
theorem classify_attach_eq_iff {key : String} {stage : Stage} :
    suffixes.classify (suffixes.attach key stage) = (some stage, key) ↔
      suffixes.stageOf (suffixes.attach key stage) = some stage := by
  constructor
  · intro h
    rw [classify_eq] at h
    exact (Prod.ext_iff.1 h).1
  · intro h
    have hname := suffixes.attach_keyIn h
    rw [classify_eq, keyOf, h]
    exact Prod.ext rfl (String.append_left_inj _ |>.1 hname)

theorem stageOf_attach_fragment {key : String} :
    suffixes.stageOf (suffixes.attach key .fragment) = some .fragment ↔ suffixes.fragment ≠ "" := by
  rw [← marks_append_iff key, stageOf]
  change (if Marks suffixes.fragment (key ++ suffixes.fragment) then _ else _) = _ ↔ _
  split
  · exact iff_of_true rfl ‹_›
  · refine iff_of_false ?_ ‹_›
    split <;> nofun

theorem stageOf_attach_vertex {key : String} :
    suffixes.stageOf (suffixes.attach key .vertex) = some .vertex ↔
      suffixes.vertex ≠ "" ∧ ¬ Marks suffixes.fragment (key ++ suffixes.vertex) := by
  rw [← marks_append_iff key, stageOf]
  change (if Marks suffixes.fragment (key ++ suffixes.vertex) then _
    else if Marks suffixes.vertex (key ++ suffixes.vertex) then _ else _) = _ ↔ _
  split
  · exact iff_of_false nofun fun h => h.2 ‹_›
  · split
    · exact iff_of_true rfl ⟨‹_›, ‹_›⟩
    · exact iff_of_false nofun fun h => absurd h.1 ‹_›

/-! ## All keys -/

/-- Of two endings of one name, one ends the other. -/
theorem Unambiguous.not_marks (h : suffixes.Unambiguous) (key : String) :
    ¬ Marks suffixes.fragment (key ++ suffixes.vertex) := by
  rintro ⟨-, hends⟩
  rw [String.toList_append] at hends
  rcases List.suffix_or_suffix_of_suffix hends (List.suffix_append _ _) with hin | hin
  · exact h.fragment_not_suffix hin
  · exact h.vertex_not_suffix hin

/-- Behind some key, a vertex suffix that ends the fragment suffix is taken for the end of it. -/
theorem exists_marks_of_suffix (hne : suffixes.fragment ≠ "")
    (h : suffixes.vertex.toList <:+ suffixes.fragment.toList) :
    ∃ key, Marks suffixes.fragment (key ++ suffixes.vertex) := by
  obtain ⟨front, hfront⟩ := h
  have hname : String.ofList front ++ suffixes.vertex = suffixes.fragment :=
    String.toList_inj.1 (by rw [String.toList_append, String.toList_ofList, hfront])
  exact ⟨String.ofList front, hne, by simp only [hname, List.suffix_refl]⟩

/-- If the fragment suffix is not empty, every key is found in the vertex stage exactly if the
suffixes are unambiguous. -/
theorem forall_stageOf_attach_vertex (hne : suffixes.fragment ≠ "") :
    (∀ key, suffixes.stageOf (suffixes.attach key .vertex) = some .vertex) ↔
      suffixes.Unambiguous := by
  simp only [stageOf_attach_vertex]
  constructor
  · intro h
    refine ⟨(h "").1, hne, fun hin => ?_, fun hin => (h "").2 ⟨hne, ?_⟩⟩
    · obtain ⟨key, hmarks⟩ := exists_marks_of_suffix hne hin
      exact (h key).2 hmarks
    · rwa [String.empty_append]
  · exact fun h key => ⟨h.vertex_ne, h.not_marks key⟩

/-- **Suffixes can be taken off and put back.** What a name is split into gives the name again. What
is put together is split into its parts again, for all keys and both stages, exactly if the suffixes
are unambiguous. -/
theorem classify_attach_iff (suffixes : Suffixes) :
    (∀ name stage key, suffixes.classify name = (some stage, key) →
      suffixes.attach key stage = name) ∧
    (∀ name key, suffixes.classify name = (none, key) → key = name) ∧
    ((∀ key stage, suffixes.classify (suffixes.attach key stage) = (some stage, key)) ↔
      suffixes.Unambiguous) := by
  refine ⟨fun _ _ _ => attach_of_classify, fun _ _ => classify_eq_none, ?_⟩
  simp only [classify_attach_eq_iff]
  constructor
  · intro h
    have hne := stageOf_attach_fragment.1 (h "" .fragment)
    exact (forall_stageOf_attach_vertex hne).1 (h · .vertex)
  · rintro h key (_ | _)
    · exact (forall_stageOf_attach_vertex h.fragment_ne).2 h key
    · exact stageOf_attach_fragment.2 h.fragment_ne

/-- Each of the suffixes `Vs` and `sV` starts as the other one ends. -/
theorem classify_attach_overlapping :
    let suffixes : Suffixes := ⟨"Vs", "sV"⟩
    suffixes.classify "skyVsVs" = (some .vertex, "skyVs") ∧
      suffixes.attach "skyVs" .vertex = "skyVsVs" ∧
      suffixes.classify "VsVx" = (none, "VsVx") ∧
      suffixes.Unambiguous ∧
      ∀ key stage, suffixes.classify (suffixes.attach key stage) = (some stage, key) := by
  intro suffixes
  obtain ⟨hname, -, hparts⟩ := classify_attach_iff suffixes
  have hsky : suffixes.classify "skyVsVs" = (some .vertex, "skyVs") := by decide
  have hunambiguous : suffixes.Unambiguous := ⟨by decide, by decide, by decide, by decide⟩
  exact ⟨hsky, hname _ _ _ hsky, by decide, hunambiguous, hparts.2 hunambiguous⟩

end ShaderModules.Suffixes
