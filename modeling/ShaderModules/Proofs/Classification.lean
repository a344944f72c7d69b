import Mathlib.Data.List.Nodup
import Mathlib.Data.List.Perm.Basic
import ShaderModules.Synthesis

/-!
# Sorting a bundle by stage

`Classified.ofBundle` puts one snippet after the other into the map of its stage and stops at a
key that is taken. The maps have a direct description: the snippets of a stage under their keys,
in the order of the bundle (`Classified.sorted`). A stage and a key determine the name they come
from (`Suffixes.restore_classify`), whatever the two suffixes are, so no key of a bundle is taken
twice and sorting always succeeds with that description (`Classified.ofBundle_eq`).

* `Suffixes.restore`: the name of a key in a stage, or in none.
* `Suffixes.select`: the snippets of a stage under their keys (`select_keys_nodup`,
  `select_restore`).
* `Classified.sorted_perm`: the three maps hold every snippet exactly once.
-/

namespace ShaderModules

/-! ## Maps by key -/

namespace StageMap

/-- The contents of a map as snippets, where `name` gives the name of each key. -/
def named (m : StageMap) (name : String → String) : List Snippet :=
  m.entries.map fun p => ⟨name p.1, p.2⟩

theorem insert?_of_notMem {m : StageMap} {key : String} (h : key ∉ m.keys) (contents : String) :
    m.insert? key contents = some ⟨m.entries ++ [(key, contents)]⟩ := by
  unfold insert?
  rw [if_neg fun hc => h (contains_iff_mem_keys.1 hc)]

/-- With distinct keys, a key leads to the contents stored with it. -/
theorem get?_eq_some_iff {m : StageMap} (h : m.keys.Nodup) {key contents : String} :
    m.get? key = some contents ↔ (key, contents) ∈ m.entries := by
  obtain ⟨entries⟩ := m
  simp only [keys, get?] at *
  induction entries with
  | nil => simp
  | cons p rest ih =>
    obtain ⟨k, c⟩ := p
    rw [List.map_cons, List.nodup_cons] at h
    by_cases hk : k = key
    · subst hk
      have hrest : (k, contents) ∉ rest := fun hm => h.1 (List.mem_map.2 ⟨_, hm, rfl⟩)
      simp [hrest, eq_comm]
    · simp [hk, Ne.symm hk, ih h.2]

end StageMap

namespace Suffixes

variable (suffixes : Suffixes)

/-! ## Names from keys -/

/-- The name that a key has in a stage; outside the stages a name is its own key. -/
def restore : Option Stage → String → String
  | some stage, key => suffixes.attach key stage
  | none, key => key

theorem restore_classify (name : String) :
    suffixes.restore (suffixes.classify name).1 (suffixes.classify name).2 = name := by
  rcases h : suffixes.classify name with ⟨_ | stage, key⟩
  · exact classify_eq_none h
  · exact attach_of_classify h

/-- Classifying tells names apart, even where one suffix ends with the other. -/
theorem classify_injective : Function.Injective suffixes.classify := by
  intro a b h
  rw [← suffixes.restore_classify a, ← suffixes.restore_classify b, h]

/-! ## The snippets of one stage -/

/-- A snippet under its key, if it belongs to the stage, or to none. -/
def keyed? (stage : Option Stage) (s : Snippet) : Option (String × String) :=
  if (suffixes.classify s.name).1 = stage then
    some ((suffixes.classify s.name).2, s.contents)
  else none

/-- The snippets of a stage, or of none, under their keys and in their order. -/
def select (stage : Option Stage) (l : List Snippet) : StageMap :=
  ⟨l.filterMap (suffixes.keyed? stage)⟩

/-- Under its restored name, a selected snippet is the one it came from. -/
theorem select_restore (stage : Option Stage) (l : List Snippet) :
    (suffixes.select stage l).named (suffixes.restore stage) =
      l.filter fun s => (suffixes.classify s.name).1 = stage := by
  simp only [select, StageMap.named]
  induction l with
  | nil => rfl
  | cons s rest ih =>
    by_cases h : (suffixes.classify s.name).1 = stage
    · have hname := suffixes.restore_classify s.name
      rw [h] at hname
      simp [keyed?, h, ih, hname]
    · simp [keyed?, h, ih]

theorem mem_select_keys {stage : Option Stage} {key : String} {l : List Snippet} :
    key ∈ (suffixes.select stage l).keys ↔ ∃ s ∈ l, suffixes.classify s.name = (stage, key) := by
  simp only [StageMap.keys, select, List.mem_map, List.mem_filterMap, keyed?]
  constructor
  · rintro ⟨p, ⟨s, hs, h⟩, rfl⟩
    split at h
    · rename_i hstage
      cases h
      exact ⟨s, hs, Prod.ext hstage rfl⟩
    · cases h
  · rintro ⟨s, hs, h⟩
    exact ⟨(key, s.contents), ⟨s, hs, by simp [h]⟩, rfl⟩

theorem select_keys_nodup (stage : Option Stage) {l : List Snippet}
    (h : (l.map Snippet.name).Nodup) : (suffixes.select stage l).keys.Nodup := by
  refine List.Nodup.of_map (suffixes.restore stage) ?_
  have hnames : (suffixes.select stage l).keys.map (suffixes.restore stage) =
      (l.filter fun s => (suffixes.classify s.name).1 = stage).map Snippet.name := by
    rw [← select_restore]
    simp [StageMap.keys, StageMap.named, Function.comp_def]
  rw [hnames]
  exact h.sublist (List.filter_sublist.map _)

end Suffixes

namespace Classified

/-! ## The three maps -/

/-- Snippets by stage: each under its key in the map of its stage, in their order. -/
def sorted (suffixes : Suffixes) (l : List Snippet) : Classified where
  vertex := suffixes.select (some .vertex) l
  fragment := suffixes.select (some .fragment) l
  other := suffixes.select none l

variable {suffixes : Suffixes}

theorem sorted_stage (stage : Option Stage) (l : List Snippet) :
    (sorted suffixes l).stage stage = suffixes.select stage l := by
  rcases stage with _ | _ | _ <;> rfl

/-- A snippet with a new name finds its key free. -/
theorem add_sorted {done : List Snippet} {s : Snippet} (h : s.name ∉ done.map Snippet.name) :
    add suffixes (sorted suffixes done) s = .ok (sorted suffixes (done ++ [s])) := by
  rcases hc : suffixes.classify s.name with ⟨stage, key⟩
  have hfree : key ∉ (suffixes.select stage done).keys := by
    rw [suffixes.mem_select_keys]
    rintro ⟨t, ht, heq⟩
    have hname : t.name = s.name := suffixes.classify_injective (heq.trans hc.symm)
    exact h (hname ▸ List.mem_map_of_mem ht)
  simp only [add, hc, sorted_stage, StageMap.insert?_of_notMem hfree]
  rcases stage with _ | _ | _ <;>
    simp [setStage, sorted, Suffixes.select, Suffixes.keyed?, hc]

/-- The loop over the snippets: after those in `done`, the rest of a list without repeated names is
sorted as well. -/
theorem foldlM_add (l done : List Snippet) (h : ((done ++ l).map Snippet.name).Nodup) :
    l.foldlM (add suffixes) (sorted suffixes done) = .ok (sorted suffixes (done ++ l)) := by
  induction l generalizing done with
  | nil => rw [List.append_nil]; rfl
  | cons s rest ih =>
    have hnew : s.name ∉ done.map Snippet.name := by
      rw [List.map_append, List.map_cons] at h
      exact fun hm => (List.nodup_append.1 h).2.2 _ hm _ List.mem_cons_self rfl
    rw [List.foldlM_cons, add_sorted hnew]
    have hrest := ih (done ++ [s]) (by simpa using h)
    rwa [List.append_assoc, List.singleton_append] at hrest

/-- **Sorting a bundle succeeds**, and each map lists the snippets of its stage in the order of the
bundle. -/
theorem ofBundle_eq (b : Bundle) (suffixes : Suffixes) :
    ofBundle b suffixes = .ok (sorted suffixes b.entries) :=
  foldlM_add b.entries [] b.names_nodup

/-- **Every snippet is in exactly one of the maps**: under the restored names the maps hold the
snippets that they were made of. -/
theorem sorted_perm (suffixes : Suffixes) (l : List Snippet) :
    ((sorted suffixes l).vertex.named (suffixes.restore (some .vertex)) ++
      ((sorted suffixes l).fragment.named (suffixes.restore (some .fragment)) ++
        (sorted suffixes l).other.named (suffixes.restore none))).Perm l := by
  simp only [sorted, Suffixes.select_restore]
  -- what is no vertex snippet is a fragment snippet or of no stage
  let isVertex (s : Snippet) : Bool := (suffixes.classify s.name).1 = some .vertex
  let isFragment (s : Snippet) : Bool := (suffixes.classify s.name).1 = some .fragment
  have hf : (l.filter fun s => !isVertex s).filter isFragment = l.filter isFragment := by
    rw [List.filter_filter]
    refine List.filter_congr fun s _ => ?_
    rcases h : (suffixes.classify s.name).1 with _ | _ | _ <;> simp [isVertex, isFragment, h]
  have ho : ((l.filter fun s => !isVertex s).filter fun s => !isFragment s) =
      l.filter fun s => (suffixes.classify s.name).1 = none := by
    rw [List.filter_filter]
    refine List.filter_congr fun s _ => ?_
    rcases h : (suffixes.classify s.name).1 with _ | _ | _ <;> simp [isVertex, isFragment, h]
  have hrest := List.filter_append_perm isFragment (l.filter fun s => !isVertex s)
  rw [hf, ho] at hrest
  exact (hrest.append_left _).trans (List.filter_append_perm isVertex l)

end Classified

end ShaderModules
