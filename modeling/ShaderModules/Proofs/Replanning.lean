import ShaderModules.Proofs.BundleText
import ShaderModules.Proofs.Conservation
import ShaderModules.Proofs.PlannedExports

/-!
# Planning a module again

The exports of a bundle can be taken apart into the snippets that they are made of, export by
export (`Bundle.expansion`). This puts the snippets into another order: a fragment snippet that is
part of a program moves behind its vertex snippet. What is planned of them is the same module
(`replan_eq`), because the order between snippets of one part of the module is kept and a partner
is found by its key wherever it stands.

* `Bundle.expansion_entries`: the expansion in three parts.
* `Bundle.ofStage_expansion_vertex`, `Bundle.ofStage_expansion_none`: the vertex snippets and the
  snippets of no stage keep their order.
* `Bundle.partner?_eq_some_iff`: a partner is a matter of membership.
-/

namespace ShaderModules.Bundle

variable (b : Bundle) (naming : Naming)

/-! ## The snippets of the exports -/

/-- The exports are made of the snippets of the bundle. -/
theorem slots_exports_perm : ((b.exports naming).flatMap (Export.slots naming)).Perm b.entries := by
  have hplan := Classified.slots_plan_perm_named naming (c := .sorted naming.suffixes b.entries)
    (naming.suffixes.select_keys_nodup _ b.names_nodup)
    (naming.suffixes.select_keys_nodup _ b.names_nodup)
  rw [Classified.plan_sorted] at hplan
  exact hplan.trans (Classified.sorted_perm naming.suffixes b.entries)

/-- The bundle of the snippets that the exports are made of, in the order of the exports. -/
def expansion : Bundle where
  entries := (b.exports naming).flatMap (Export.slots naming)
  names_nodup := ((b.slots_exports_perm naming).map Snippet.name).nodup_iff.2 b.names_nodup

variable {b naming} {suffixes : Suffixes}

/-- A partner is a fragment snippet with the key; there is no other. -/
theorem partner?_eq_some_iff {key : String} {f : Snippet} :
    b.partner? suffixes key = some f ↔
      f ∈ b.ofStage suffixes (some .fragment) ∧ suffixes.keyIn .fragment f.name = key := by
  constructor
  · intro h
    exact ⟨List.mem_of_find?_eq_some h, by simpa using List.find?_some h⟩
  · rintro ⟨hf, hkey⟩
    cases hfound : b.partner? suffixes key with
    | none => exact absurd (decide_eq_true hkey) (List.find?_eq_none.1 hfound f hf)
    | some g =>
      have hg : suffixes.keyIn .fragment g.name = key := by simpa using List.find?_some hfound
      rw [List.inj_on_of_nodup_map (b.keyIn_nodup suffixes .fragment)
        (List.mem_of_find?_eq_some hfound) hf (hg.trans hkey.symm)]

theorem slots_vertexExport {s : Snippet} (h : s ∈ b.ofStage naming.suffixes (some .vertex)) :
    (b.vertexExport naming s).slots naming =
      s :: (b.partner? naming.suffixes (naming.suffixes.keyIn .vertex s.name)).toList := by
  have hname := naming.suffixes.attach_keyIn (mem_ofStage.1 h).2
  unfold vertexExport
  cases hpartner : b.partner? naming.suffixes (naming.suffixes.keyIn .vertex s.name) with
  | none => rfl
  | some f =>
    obtain ⟨hf, hkey⟩ := partner?_eq_some_iff.1 hpartner
    have hfname := naming.suffixes.attach_keyIn (mem_ofStage.1 hf).2
    rw [hkey] at hfname
    simp only [Export.slots, hname, hfname, Option.toList_some]

theorem slots_otherExport (s : Snippet) : (otherExport naming s).slots naming = [s] := by
  unfold otherExport
  split
  · rename_i h
    simp only [Export.slots, ← h]
  · rfl

/-- The expansion: each vertex snippet with its partner behind it, then the fragment snippets
without a partner, then the snippets of no stage. -/
theorem expansion_entries : (b.expansion naming).entries =
    (b.ofStage naming.suffixes (some .vertex)).flatMap (fun s =>
        s :: (b.partner? naming.suffixes (naming.suffixes.keyIn .vertex s.name)).toList) ++
      (b.ofStage naming.suffixes (some .fragment)).filter (fun s => b.IsAlone naming.suffixes s) ++
      b.ofStage naming.suffixes none := by
  have hvertex : ((b.ofStage naming.suffixes (some .vertex)).map (b.vertexExport naming)).flatMap
      (Export.slots naming) = (b.ofStage naming.suffixes (some .vertex)).flatMap
        (fun s => s :: (b.partner? naming.suffixes
          (naming.suffixes.keyIn .vertex s.name)).toList) := by
    rw [List.flatMap_map]
    exact List.flatMap_congr fun s hs => slots_vertexExport hs
  have hother : ((b.ofStage naming.suffixes none).map (otherExport naming)).flatMap
      (Export.slots naming) = b.ofStage naming.suffixes none := by
    rw [List.flatMap_map, List.flatMap_congr fun s _ => slots_otherExport s,
      List.flatMap_singleton']
  have hfragment (l : List Snippet) : (l.map fun s => Export.value s.name s.contents).flatMap
      (Export.slots naming) = l := by
    rw [List.flatMap_map]
    exact List.flatMap_singleton' l
  simp only [expansion, exports, List.flatMap_append, hvertex, hfragment, hother]

/-! ## The stages of the expansion -/

/-- What is chosen of the expansion, unless partners are chosen, is chosen of its three parts in
their order. -/
theorem filter_expansion {p : Snippet → Bool}
    (hp : ∀ v ∈ b.ofStage naming.suffixes (some .vertex),
      ∀ f, b.partner? naming.suffixes (naming.suffixes.keyIn .vertex v.name) = some f →
        p f = false) :
    (b.expansion naming).entries.filter p =
      (b.ofStage naming.suffixes (some .vertex)).filter p ++
        ((b.ofStage naming.suffixes (some .fragment)).filter
          fun s => b.IsAlone naming.suffixes s).filter p ++
        (b.ofStage naming.suffixes none).filter p := by
  rw [expansion_entries, List.filter_append, List.filter_append, List.filter_flatMap]
  refine congrArg (· ++ _ ++ _) ?_
  calc (b.ofStage naming.suffixes (some .vertex)).flatMap (fun v => (v :: (b.partner?
        naming.suffixes (naming.suffixes.keyIn .vertex v.name)).toList).filter p)
      = (b.ofStage naming.suffixes (some .vertex)).flatMap fun v => [v].filter p := by
        refine List.flatMap_congr fun v hv => ?_
        cases hpartner : b.partner? naming.suffixes (naming.suffixes.keyIn .vertex v.name) with
        | none => rfl
        | some f => simp [List.filter_cons, hp v hv f hpartner]
    _ = (b.ofStage naming.suffixes (some .vertex)).filter p := by
        rw [← List.filter_flatMap, List.flatMap_singleton']

/-- Of the snippets of a stage, those of another one are none. -/
theorem filter_ofStage_of_ne {stage stage' : Option Stage} (h : stage ≠ stage') :
    (b.ofStage suffixes stage).filter (fun s => suffixes.stageOf s.name = stage') = [] := by
  refine List.filter_eq_nil_iff.2 fun s hs => ?_
  rwa [decide_eq_true_iff, (mem_ofStage.1 hs).2]

theorem filter_ofStage_self (stage : Option Stage) :
    (b.ofStage suffixes stage).filter (fun s => suffixes.stageOf s.name = stage) =
      b.ofStage suffixes stage :=
  List.filter_eq_self.2 fun _ hs => decide_eq_true (mem_ofStage.1 hs).2

/-- A partner is a fragment snippet. -/
theorem stageOf_partner {key : String} {f : Snippet} (h : b.partner? suffixes key = some f) :
    suffixes.stageOf f.name = some .fragment :=
  (mem_ofStage.1 (partner?_eq_some_iff.1 h).1).2

theorem ofStage_expansion_vertex : (b.expansion naming).ofStage naming.suffixes (some .vertex) =
    b.ofStage naming.suffixes (some .vertex) := by
  rw [ofStage, filter_expansion fun _ _ f hf => by rw [stageOf_partner hf]; rfl,
    filter_ofStage_self, List.filter_comm, filter_ofStage_of_ne (by decide),
    filter_ofStage_of_ne (by decide), List.filter_nil, List.append_nil, List.append_nil]

theorem ofStage_expansion_none : (b.expansion naming).ofStage naming.suffixes none =
    b.ofStage naming.suffixes none := by
  rw [ofStage, filter_expansion fun _ _ f hf => by rw [stageOf_partner hf]; rfl,
    filter_ofStage_self, List.filter_comm, filter_ofStage_of_ne (by decide),
    filter_ofStage_of_ne (by decide), List.filter_nil, List.append_nil, List.nil_append]

theorem isAlone_expansion (s : Snippet) :
    (b.expansion naming).IsAlone naming.suffixes s ↔ b.IsAlone naming.suffixes s := by
  rw [IsAlone, IsAlone, ofStage_expansion_vertex]

/-- The fragment snippets without a partner keep their order. -/
theorem alone_expansion :
    ((b.expansion naming).ofStage naming.suffixes (some .fragment)).filter
        (fun s => (b.expansion naming).IsAlone naming.suffixes s) =
      (b.ofStage naming.suffixes (some .fragment)).filter
        fun s => b.IsAlone naming.suffixes s := by
  have hpartner : ∀ v ∈ b.ofStage naming.suffixes (some .vertex), ∀ f,
      b.partner? naming.suffixes (naming.suffixes.keyIn .vertex v.name) = some f →
        (decide (b.IsAlone naming.suffixes f) &&
          decide (naming.suffixes.stageOf f.name = some .fragment)) = false := by
    intro v hv f hf
    have hnot : ¬ b.IsAlone naming.suffixes f := fun halone =>
      halone v hv (partner?_eq_some_iff.1 hf).2.symm
    simp [hnot]
  have hnone {stage : Option Stage} (h : stage ≠ some .fragment) :
      (b.ofStage naming.suffixes stage).filter (fun s => decide (b.IsAlone naming.suffixes s) &&
        decide (naming.suffixes.stageOf s.name = some .fragment)) = [] := by
    rw [← List.filter_filter, filter_ofStage_of_ne h, List.filter_nil]
  have hself : ((b.ofStage naming.suffixes (some .fragment)).filter
      fun s => b.IsAlone naming.suffixes s).filter (fun s =>
        decide (b.IsAlone naming.suffixes s) &&
          decide (naming.suffixes.stageOf s.name = some .fragment)) =
      (b.ofStage naming.suffixes (some .fragment)).filter
        fun s => b.IsAlone naming.suffixes s := by
    refine List.filter_eq_self.2 fun s hs => ?_
    obtain ⟨hs, halone⟩ := List.mem_filter.1 hs
    rw [halone, (mem_ofStage.1 hs).2]
    rfl
  simp only [isAlone_expansion]
  rw [ofStage, List.filter_filter, filter_expansion hpartner, hnone (by decide), hself,
    hnone (by decide), List.nil_append, List.append_nil]

/-- A partner is found by its key, wherever it stands. -/
theorem partner?_expansion (key : String) :
    (b.expansion naming).partner? naming.suffixes key = b.partner? naming.suffixes key := by
  refine Option.ext fun f => ?_
  rw [partner?_eq_some_iff, partner?_eq_some_iff, mem_ofStage, mem_ofStage, expansion,
    (b.slots_exports_perm naming).mem_iff]

/-- The expansion has the exports of the bundle. -/
theorem exports_expansion : (b.expansion naming).exports naming = b.exports naming := by
  have hvertex : (b.expansion naming).vertexExport naming = b.vertexExport naming := by
    funext s
    rw [vertexExport, vertexExport, partner?_expansion]
  rw [exports, exports, hvertex, ofStage_expansion_vertex, alone_expansion, ofStage_expansion_none]

/-- **Planning again changes nothing.** The snippets that the exports of a bundle are made of,
export by export under the names they had, are a bundle again. Sorting it succeeds, and the module
that is planned of it is the same, with the same exports in the same order. -/
theorem replan_eq (b : Bundle) (naming : Naming) :
    ∃ c, Classified.ofBundle b naming.suffixes = .ok c ∧
      ∃ b', Bundle.ofEntries ((c.plan naming).exports.flatMap (Export.slots naming)) = .ok b' ∧
        ∃ c', Classified.ofBundle b' naming.suffixes = .ok c' ∧
          c'.plan naming = c.plan naming := by
  refine ⟨_, Classified.ofBundle_eq b naming.suffixes, b.expansion naming, ?_,
    _, Classified.ofBundle_eq _ naming.suffixes, ?_⟩
  · rw [Classified.plan_sorted]
    exact ofEntries_eq_ok (b.expansion naming).names_nodup
  · rw [Classified.plan_sorted, Classified.plan_sorted, module, module, exports_expansion]

/-- A fragment snippet moves behind its vertex snippet, in front of the others. -/
example : ((⟨[⟨"main", "m"⟩, ⟨"drawFragment", "f"⟩, ⟨"drawVertex", "v"⟩], by decide⟩ :
    Bundle).expansion {}).entries.map Snippet.name = ["drawVertex", "drawFragment", "main"] := by
  decide

end ShaderModules.Bundle
