import ShaderModules.Proofs.Classification
import ShaderModules.Proofs.Planning

/-!
# No snippet is lost or made up

The exports of a planned module are made of the snippets of the bundle. Taken apart again, each
under the name it had (`Export.slots`), they are the entries of the bundle in another order, for
every pair of suffixes and every name of the default export (`plan_slots_perm`).

The vertex snippets and the snippets of no stage each make an export of their own
(`slots_vertexExport`, `slots_otherExport`). A fragment snippet is either taken by the vertex
snippet with its key or exported alone (`paired_append_alone_perm`): the first case is met once,
because no two vertex snippets share a key.
-/

namespace ShaderModules

/-- The snippets that an export is made of, under the names they had. -/
def Export.slots (naming : Naming) : Export → List Snippet
  | .program key vertex fragment =>
    [⟨naming.suffixes.attach key .vertex, vertex⟩, ⟨naming.suffixes.attach key .fragment, fragment⟩]
  | .value name source => [⟨name, source⟩]
  | .default source => [⟨naming.defaultExport, source⟩]

/-- The `j`-th snippet of the `i`-th export. -/
def Module.slot? (naming : Naming) (m : Module) (i j : ℕ) : Option Snippet :=
  m.exports[i]?.bind fun e => (e.slots naming)[j]?

namespace Classified

variable (naming : Naming) (c : Classified)

/-! ## The slots of each kind of snippet -/

/-- The snippets of a fragment that is taken by the vertex snippet with its key. -/
def partner (key : String) : List Snippet :=
  ((c.fragment.get? key).map fun s => ⟨naming.suffixes.attach key .fragment, s⟩).toList

theorem slots_vertexExport (key contents : String) :
    (vertexExport naming c key contents).slots naming =
      ⟨naming.suffixes.attach key .vertex, contents⟩ :: partner naming c key := by
  unfold vertexExport partner
  cases c.fragment.get? key <;> rfl

theorem slots_otherExport (name contents : String) :
    (otherExport naming name contents).slots naming = [⟨name, contents⟩] := by
  unfold otherExport
  split
  · rename_i h
    simp [Export.slots, h]
  · rfl

/-- The slots of the fragment snippets that are exported alone. -/
theorem flatMap_slots_fragmentExport? (l : List (String × String)) :
    (l.filterMap fun p => fragmentExport? naming c p.1 p.2).flatMap (Export.slots naming) =
      (l.filter fun p => !c.vertex.contains p.1).map fun p =>
        ⟨naming.suffixes.attach p.1 .fragment, p.2⟩ := by
  induction l with
  | nil => rfl
  | cons p rest ih =>
    unfold fragmentExport? at ih ⊢
    cases h : c.vertex.contains p.1 <;> simp [h, ih, Export.slots]

/-! ## Fragments with and without a partner -/

variable {c}

/-- The fragment snippets that the vertex snippets ask for by their keys are those whose key is a
vertex key, each of them once. -/
theorem requested_perm (hv : c.vertex.keys.Nodup) (hf : c.fragment.keys.Nodup) :
    (c.vertex.keys.filterMap fun key => (c.fragment.get? key).map fun s => (key, s)).Perm
      (c.fragment.entries.filter fun p => c.vertex.contains p.1) := by
  have hleft : (c.vertex.keys.filterMap fun key =>
      (c.fragment.get? key).map fun s => (key, s)).Nodup := by
    refine hv.filterMap fun k k' p hp hp' => ?_
    obtain ⟨_, _, rfl⟩ := Option.map_eq_some_iff.1 hp
    obtain ⟨_, _, heq⟩ := Option.map_eq_some_iff.1 hp'
    exact (congrArg Prod.fst heq).symm
  refine (List.perm_ext_iff_of_nodup hleft (hf.of_map.filter _)).2 fun p => ?_
  obtain ⟨key, s⟩ := p
  rw [List.mem_filterMap, List.mem_filter, StageMap.contains_iff_mem_keys,
    ← StageMap.get?_eq_some_iff hf]
  constructor
  · rintro ⟨k, hk, h⟩
    obtain ⟨t, ht, heq⟩ := Option.map_eq_some_iff.1 h
    cases heq
    exact ⟨ht, hk⟩
  · rintro ⟨h, hk⟩
    exact ⟨key, hk, by simp [h]⟩

/-- Taken or exported alone, every fragment snippet has one slot. -/
theorem paired_append_alone_perm (hv : c.vertex.keys.Nodup) (hf : c.fragment.keys.Nodup) :
    (c.vertex.entries.flatMap (fun p => partner naming c p.1) ++
      (c.fragment.entries.filterMap fun p => fragmentExport? naming c p.1 p.2).flatMap
        (Export.slots naming)).Perm
      (c.fragment.named (naming.suffixes.restore (some .fragment))) := by
  let named (p : String × String) : Snippet := ⟨naming.suffixes.attach p.1 .fragment, p.2⟩
  have htaken : c.vertex.entries.flatMap (fun p => partner naming c p.1) =
      (c.vertex.keys.filterMap fun key =>
        (c.fragment.get? key).map fun s => (key, s)).map named := by
    simp only [StageMap.keys, partner]
    induction c.vertex.entries with
    | nil => rfl
    | cons p rest ih => cases h : c.fragment.get? p.1 <;> simp [h, ih, named]
  rw [htaken, flatMap_slots_fragmentExport?, ← List.map_append]
  exact (((requested_perm hv hf).append_right _).trans
    (List.filter_append_perm (fun p => c.vertex.contains p.1) c.fragment.entries)).map named

/-- The slots of a plan are the contents of the three maps under the restored names. -/
theorem slots_plan_perm_named (hv : c.vertex.keys.Nodup) (hf : c.fragment.keys.Nodup) :
    ((c.plan naming).exports.flatMap (Export.slots naming)).Perm
      (c.vertex.named (naming.suffixes.restore (some .vertex)) ++
        (c.fragment.named (naming.suffixes.restore (some .fragment)) ++
          c.other.named (naming.suffixes.restore none))) := by
  have hother : (c.other.entries.map fun p => otherExport naming p.1 p.2).flatMap
      (Export.slots naming) = c.other.named (naming.suffixes.restore none) := by
    simp only [List.flatMap_map, slots_otherExport, StageMap.named, Suffixes.restore,
      ← List.map_eq_flatMap]
  have hvertex : ((c.vertex.entries.map fun p => vertexExport naming c p.1 p.2).flatMap
      (Export.slots naming)).Perm
      (c.vertex.named (naming.suffixes.restore (some .vertex)) ++
        c.vertex.entries.flatMap fun p => partner naming c p.1) := by
    simp only [List.flatMap_map, slots_vertexExport]
    exact (List.map_append_flatMap_perm _ _ _).symm
  simp only [plan_exports, List.flatMap_append, hother]
  rw [List.append_assoc]
  refine (hvertex.append_right _).trans ?_
  rw [List.append_assoc]
  refine List.Perm.append_left _ ?_
  rw [← List.append_assoc]
  exact (paired_append_alone_perm naming hv hf).append_right _

end Classified

/-! ## One slot for each snippet -/

/-- In a list of lists without repetition each member has one place. -/
theorem existsUnique_place {α β : Type} {l : List α} {f : α → List β} (h : (l.flatMap f).Nodup)
    {b : β} (hb : b ∈ l.flatMap f) :
    ∃! p : ℕ × ℕ, (l[p.1]?.bind fun a => (f a)[p.2]?) = some b := by
  obtain ⟨hnodup, hdisjoint⟩ := List.nodup_flatMap.1 h
  obtain ⟨a, ha, hba⟩ := List.mem_flatMap.1 hb
  obtain ⟨i, hi, rfl⟩ := List.getElem_of_mem ha
  obtain ⟨j, hj, rfl⟩ := List.getElem_of_mem hba
  refine ⟨(i, j), by simp [hi, hj], ?_⟩
  rintro ⟨i', j'⟩ heq
  obtain ⟨a', ha', hb'⟩ := Option.bind_eq_some_iff.1 heq
  obtain ⟨hi', rfl⟩ := List.getElem?_eq_some_iff.1 ha'
  obtain ⟨hj', hb'⟩ := List.getElem?_eq_some_iff.1 hb'
  have hmem : (f l[i])[j] ∈ f l[i'] := hb' ▸ List.getElem_mem hj'
  have hsame : i' = i := by
    rcases Nat.lt_trichotomy i' i with hlt | rfl | hlt
    · exact absurd hba (List.pairwise_iff_getElem.1 hdisjoint i' i hi' hi hlt hmem)
    · rfl
    · exact absurd hmem (List.pairwise_iff_getElem.1 hdisjoint i i' hi hi' hlt hba)
  subst hsame
  have hj'' : j' = j := (hnodup _ (List.getElem_mem hi)).getElem_inj_iff.1 hb'
  rw [hj'']

/-- **Conservation of snippets**: sorting a bundle succeeds, and the slots of the planned exports
are the entries of the bundle in some order. Every entry is in exactly one slot of exactly one
export, and nothing else is in a slot. -/
theorem plan_slots_perm (b : Bundle) (naming : Naming) :
    ∃ c, Classified.ofBundle b naming.suffixes = .ok c ∧
      ((c.plan naming).exports.flatMap (Export.slots naming)).Perm b.entries ∧
      ∀ s ∈ b.entries, ∃! p : ℕ × ℕ, (c.plan naming).slot? naming p.1 p.2 = some s := by
  have hperm := (Classified.slots_plan_perm_named naming (c := .sorted naming.suffixes b.entries)
    (naming.suffixes.select_keys_nodup _ b.names_nodup)
    (naming.suffixes.select_keys_nodup _ b.names_nodup)).trans
    (Classified.sorted_perm naming.suffixes b.entries)
  refine ⟨_, Classified.ofBundle_eq b naming.suffixes, hperm, fun s hs => ?_⟩
  exact existsUnique_place (hperm.nodup_iff.2 b.names_nodup.of_map) (hperm.mem_iff.2 hs)

end ShaderModules
