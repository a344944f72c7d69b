import ShaderModules.Proofs.PlannedExports

/-!
# Sorting splits a list by stage

Snippets are sorted one after the other, and sorting stops at the first name that repeats an earlier
one; the error has the stage and the key of this name (`Classified.foldlM_add_eq`). The suffixes do
not matter: two names never have the same key in one stage unless they are equal. No name of a
bundle repeats, so that a bundle is always sorted, and the three maps are its parts
(`ofBundle_partition`).

* `Classified.Partitions`: maps that split a list of snippets by the stages of their names.
* `Classified.partitions_sorted`: the maps that sorting makes do so.
-/

namespace ShaderModules

namespace Classified

variable {suffixes : Suffixes}

/-! ## Where sorting stops -/

/-- A snippet whose name is there already finds its key taken. -/
theorem add_taken {done : List Snippet} {s : Snippet} (h : s.name ∈ done.map Snippet.name) :
    add suffixes (sorted suffixes done) s =
      .error (collision (suffixes.stageOf s.name) (suffixes.keyOf s.name)) := by
  obtain ⟨earlier, hearlier, hname⟩ := List.mem_map.1 h
  have htaken : suffixes.keyOf s.name ∈
      (suffixes.select (suffixes.stageOf s.name) done).keys :=
    suffixes.mem_select_keys.2 ⟨earlier, hearlier, by rw [hname, suffixes.classify_eq]⟩
  simp only [add, suffixes.classify_eq, sorted_stage, StageMap.insert?]
  rw [if_pos (StageMap.contains_iff_mem_keys.2 htaken)]

/-- **Sorting stops at the first name that repeats.** After the snippets in `done`, whose names are
those in `seen`, the rest is sorted up to a name that is there already. -/
theorem foldlM_add_eq {seen : List String} {done : List Snippet}
    (hseen : ∀ n, n ∈ seen ↔ n ∈ done.map Snippet.name) (l : List Snippet) :
    l.foldlM (add suffixes) (sorted suffixes done) =
      match firstRepeat? seen (l.map Snippet.name) with
      | none => .ok (sorted suffixes (done ++ l))
      | some name => .error (collision (suffixes.stageOf name) (suffixes.keyOf name)) := by
  induction l generalizing seen done with
  | nil =>
    rw [List.append_nil]
    rfl
  | cons s rest ih =>
    rw [List.foldlM_cons, List.map_cons, firstRepeat?]
    by_cases hs : s.name ∈ seen
    · rw [if_pos hs, add_taken ((hseen _).1 hs)]
      rfl
    · rw [if_neg hs, add_sorted fun hm => hs ((hseen _).2 hm)]
      have hnext : ∀ n, n ∈ s.name :: seen ↔ n ∈ (done ++ [s]).map Snippet.name := by
        intro n
        simp [hseen, or_comm]
      have hrest := ih hnext
      rwa [List.append_assoc, List.singleton_append] at hrest

/-! ## The parts -/

/-- Maps that split a list of snippets by the stages of their names: each lists the snippets of its
stage in their order, under the names without the suffix or under the names as they are, and has no
key twice. Under the names with the suffixes put back, they hold the snippets of the list, each
once. -/
structure Partitions (suffixes : Suffixes) (l : List Snippet) (c : Classified) : Prop where
  ofStage : ∀ stage, (c.stage (some stage)).entries =
    (l.filter fun s => suffixes.stageOf s.name = some stage).map fun s =>
      (suffixes.keyIn stage s.name, s.contents)
  other : c.other.entries =
    (l.filter fun s => suffixes.stageOf s.name = none).map fun s => (s.name, s.contents)
  keys_nodup : ∀ stage, (c.stage stage).keys.Nodup
  perm : (c.vertex.named (suffixes.attach · .vertex) ++
    (c.fragment.named (suffixes.attach · .fragment) ++ c.other.named id)).Perm l

/-- The maps of a bundle's snippets are its parts. -/
theorem partitions_sorted (b : Bundle) (suffixes : Suffixes) :
    Partitions suffixes b.entries (sorted suffixes b.entries) where
  ofStage stage := (congrArg StageMap.entries (sorted_stage _ _)).trans
    (Bundle.select_entries_some stage)
  other := Bundle.select_entries_none
  keys_nodup stage := by
    rw [sorted_stage]
    exact suffixes.select_keys_nodup stage b.names_nodup
  perm := sorted_perm suffixes b.entries

end Classified

/-- **Sorting a bundle never fails**, whatever the suffixes are: there are three maps that split its
snippets by stage. -/
theorem ofBundle_partition (b : Bundle) (suffixes : Suffixes) :
    ∃ c, Classified.ofBundle b suffixes = .ok c ∧ c.Partitions suffixes b.entries := by
  refine ⟨_, ?_, Classified.partitions_sorted b suffixes⟩
  have hnone : firstRepeat? [] (b.entries.map Snippet.name) = none :=
    firstRepeat?_eq_none_iff.2 ⟨b.names_nodup, fun n _ => List.not_mem_nil⟩
  have hsorted : b.entries.foldlM (Classified.add suffixes) (Classified.sorted suffixes []) =
      match firstRepeat? [] (b.entries.map Snippet.name) with
      | none => .ok (Classified.sorted suffixes b.entries)
      | some name =>
        .error (Classified.collision (suffixes.stageOf name) (suffixes.keyOf name)) :=
    Classified.foldlM_add_eq (fun _ => .rfl) b.entries
  rw [hnone] at hsorted
  exact hsorted

end ShaderModules
