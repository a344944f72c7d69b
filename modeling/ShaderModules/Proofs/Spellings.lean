import ShaderModules.Proofs.Host.Lookups
import ShaderModules.Proofs.Mirroring

/-!
# Different spellings of one file

Candidates have different paths, but a file has many: links lead to it, and so do paths that go up. A
path that does neither is all but its own canonical path (`FileTree.Direct.components_canonical`).
Candidates with the same canonical path are therefore spelled in different ways, one of them through
a link or a `..` (`collect_spellings`), and where there are no links and no input goes up, no file is
collected twice. An input that goes up is enough for two candidates of one file
(`collect_detour_twice`).

* `FileTree.SameCanonical`: paths with the same canonical path.
* `FileTree.Direct`: a path that neither goes up nor passes a link.
-/

namespace ShaderModules

open ShaderModules.Path FileTree

namespace FileTree

/-! ## Canonical paths -/

/-- Two paths have the same canonical path. -/
def SameCanonical (t : FileTree) (p q : String) : Prop :=
  ∃ c, t.canonical p = .ok c ∧ t.canonical q = .ok c

/-- A path that does not go up and has no link on its way. -/
structure Direct (t : FileTree) (p : String) : Prop where
  notUp : .up ∉ components p
  noLink : ∀ entry, entry <+: t.fullNames p → ∀ target, t.node? entry ≠ some (.link target)

variable {t : FileTree} {p q c : String}

theorem walk_of_locateAny {followLast : Bool} {loc : Location}
    (h : t.locateAny followLast p = .ok loc) :
    t.Walk followLast maxLinks (t.startOf p) (namesOf p) loc := by
  unfold locateAny at h
  split at h
  · cases h
  · split at h
    · cases h
    · exact walk_of_locateFrom h

/-- The canonical path is the path of the entry where a walk arrives. -/
theorem exists_of_canonical (h : t.canonical p = .ok c) : ∃ loc,
    t.Walk true maxLinks (t.startOf p) (namesOf p) loc ∧ c = pathOf loc.entry := by
  unfold canonical at h
  split at h
  · rename_i names node hlocate
    cases h
    exact ⟨_, walk_of_locateAny hlocate, rfl⟩
  · cases h
  · cases h

theorem canonical_of_locate {names : List String} {node : Node}
    (h : t.locate true p = .ok (.found names node)) : t.canonical p = .ok (pathOf names) := by
  have hany : t.locateAny true p = .ok (.found names node) := by
    unfold locate at h
    split at h
    · exact h
    · split at h <;> cases h
  rw [canonical, hany]

/-- What is looked up for a path that does not go up are names. -/
theorem isName_of_mem_namesOf (hup : .up ∉ steps p) {n : String}
    (hn : n ∈ (namesOf p).filter (· ≠ ".")) : IsName n := by
  obtain ⟨hmem, hhere⟩ := List.mem_filter.1 hn
  have hhere : n ≠ "." := by simpa using hhere
  have hnotUp : n ≠ ".." := fun h => (steps_eq_names hup).1 (h ▸ hmem)
  have hsegment : n ∈ ((segments p.toList).filter (!·.isEmpty)).map String.ofList := by
    unfold namesOf at hmem
    dsimp only at hmem
    split at hmem
    · exact (List.mem_append.1 hmem).resolve_right fun h => hhere (List.mem_singleton.1 h)
    · exact hmem
  obtain ⟨s, hs, rfl⟩ := List.mem_map.1 hsegment
  obtain ⟨hs, hnil⟩ := List.mem_filter.1 hs
  refine isName_iff.2 ⟨⟨?_, hhere, hnotUp⟩, ?_⟩
  · rintro hempty
    have hlist := congrArg String.toList hempty
    rw [String.toList_ofList] at hlist
    rw [hlist] at hnil
    cases hnil
  · rw [String.toList_ofList]
    exact notMem_of_mem_segments hs

/-- **The canonical path of a direct path** has the same components. -/
theorem Direct.components_canonical (h : t.Direct p) (habs : isAbsolute p = true)
    (hc : t.canonical p = .ok c) : components c = components p := by
  have hup : .up ∉ steps p := fun hmem =>
    h.notUp (components_eq_lead p ▸ List.mem_append_right _ hmem)
  obtain ⟨hnotUp, hsteps⟩ := steps_eq_names hup
  obtain ⟨loc, hwalk, rfl⟩ := exists_of_canonical hc
  have hstart : t.startOf p = [] := if_pos habs
  have hentry : loc.entry = (namesOf p).filter (· ≠ ".") := by
    rw [hwalk.entry_of_direct hnotUp h.noLink, hstart, List.nil_append]
  have hnamed : named ((namesOf p).filter (· ≠ ".")) = steps p := hsteps
  rw [hentry, components_of_isAbsolute habs, ← hnamed]
  exact components_slash_ofNames fun n hn => isName_of_mem_namesOf hup hn

/-- Direct paths with the same canonical path are equal. -/
theorem Direct.components_eq (hp : t.Direct p) (hq : t.Direct q) (habs : isAbsolute p = true)
    (habs' : isAbsolute q = true) (h : t.SameCanonical p q) : components p = components q := by
  obtain ⟨c, hc, hc'⟩ := h
  exact (hp.components_canonical habs hc).symm.trans (hq.components_canonical habs' hc')

end FileTree

namespace Collection

variable {t : FileTree} {s : Selector} {inputs : List String} {collected : Collected}
  {f : Candidate}

/-! ## Candidates -/

theorem notUp_absolute (hworkDir : ∀ n ∈ t.workDir, IsName n) {input : String}
    (h : .up ∉ components input) : .up ∉ components (absolute t input) := by
  unfold absolute
  split
  · exact h
  · rename_i hrelative
    have hne : FileTree.pathOf t.workDir ≠ "" := by simp [FileTree.pathOf]
    have hroot : components (FileTree.pathOf t.workDir) = .root :: named t.workDir :=
      components_slash_ofNames hworkDir
    rw [components_eq_lead, List.mem_append, not_or] at h
    rw [join_eq_under hne (by simpa using hrelative), components_under hne, hroot, List.mem_append,
      List.mem_cons]
    simp [notUp_named, h.2]

/-- Where no input goes up, candidates do not go up. -/
theorem notUp_of_collect (hnames : t.Named) (hworkDir : ∀ n ∈ t.workDir, IsName n)
    (h : (collect t s inputs).value = .ok collected) (hinputs : ∀ i ∈ inputs, .up ∉ components i)
    (hf : f ∈ collected.candidates) : .up ∉ components f.path := by
  obtain ⟨i, hi, l, hl, hfl⟩ := exists_input_of_mem h hf
  obtain ⟨names, hisName, hfound⟩ :=
    foundFor_of_mem_listingOf hnames (isAbsolute_absolute t i) hl hfl
  have hinput := notUp_absolute hworkDir (hinputs i hi)
  cases hfound with
  | file => exact hinput
  | below _ _ hne =>
    rw [components_join_ofNames hisName hne, List.mem_append, not_or]
    exact ⟨hinput, notUp_named _⟩

/-- **Spellings.** Of candidates with the same canonical path one at most is direct, and each selected
file that is found has one candidate with its path. No two candidates have the same canonical path
where there are no links and no input goes up. -/
theorem collect_spellings (h : (collect t s inputs).value = .ok collected) :
    (collected.candidates.Pairwise fun f g =>
      t.SameCanonical f.path g.path → ¬(t.Direct f.path ∧ t.Direct g.path)) ∧
    (∀ l, listings t inputs = .ok l → ∀ f ∈ l, s.selects f.path = true →
      ∃! g, g ∈ collected.candidates ∧ components g.path = components f.path) ∧
    (t.LinkFree → t.Named → (∀ n ∈ t.workDir, IsName n) → (∀ i ∈ inputs, .up ∉ components i) →
      collected.candidates.Pairwise fun f g => ¬t.SameCanonical f.path g.path) := by
  have hdirect : collected.candidates.Pairwise fun f g =>
      t.SameCanonical f.path g.path → ¬(t.Direct f.path ∧ t.Direct g.path) := by
    refine (pairwise_candidates h).imp_of_mem fun hf hg hapart hsame hboth => hapart ?_
    exact hboth.1.components_eq hboth.2 (isAbsolute_of_collect h hf) (isAbsolute_of_collect h hg)
      hsame
  refine ⟨hdirect, fun l hl f hf hselects => existsUnique_candidate h hl hf hselects, ?_⟩
  intro hlinks hnames hworkDir hinputs
  have direct : ∀ f ∈ collected.candidates, t.Direct f.path := fun f hf =>
    ⟨notUp_of_collect hnames hworkDir h hinputs hf, fun entry _ => hlinks entry⟩
  exact hdirect.imp_of_mem fun hf hg hnot hsame => hnot hsame ⟨direct _ hf, direct _ hg⟩

/-! ## One file in two spellings -/

theorem sameCanonical_detour :
    detour.SameCanonical "/src/../src/fx/wind.glsl" "/src/fx/wind.glsl" :=
  ⟨_, canonical_of_locate locate_wind_detour, canonical_of_locate locate_wind⟩

/-- **A file is collected twice** where one of the inputs goes up. -/
theorem collect_detour_twice :
    (collect detour everything ["src/../src", "src/fx/wind.glsl"]).value =
        .ok ⟨detourCandidates, 0⟩ ∧
      ¬detourCandidates.Pairwise fun f g => ¬detour.SameCanonical f.path g.path :=
  ⟨collect_detour, fun h => List.rel_of_pairwise_cons h List.mem_cons_self sameCanonical_detour⟩

/-- What is found for two files, each spelled in its own way. -/
def plainCandidates : List Candidate :=
  [⟨"/main.glsl", "main.glsl"⟩, ⟨"/./src/fx/wind.glsl", "wind.glsl"⟩]

theorem collect_plain : (collect detour everything ["main.glsl", "./src/fx/wind.glsl"]).value =
    .ok ⟨plainCandidates, 0⟩ := by
  have hmain : detour.locate true "/main.glsl" =
      .ok (.found ["main.glsl"] (.file "void main() \x7b\x7d\n".toUTF8 false)) :=
    locate_of_walk ⟨by decide, by decide, by decide⟩ rfl (.file (usable_of (by decide)) rfl)
  have hwind : detour.locate true "/./src/fx/wind.glsl" =
      .ok (.found ["src", "fx", "wind.glsl"] (.file "float wind;\n".toUTF8 false)) :=
    locate_of_walk ⟨by decide, by decide, by decide⟩ rfl (.stay (.enter (usable_of (by decide)) rfl
      (.enter (usable_of (by decide)) rfl (.file (usable_of (by decide)) rfl))))
  have hlistings : listings detour ["main.glsl", "./src/fx/wind.glsl"] = .ok plainCandidates :=
    listings_cons (listingOf_file hmain) (listings_cons (listingOf_file hwind) rfl)
  rw [collect_value, hlistings]
  decide

/-- Of the two candidates for one file one at most is direct. Two files without a detour have
different canonical paths. -/
theorem collect_spellings_detour :
    ¬(detour.Direct "/src/../src/fx/wind.glsl" ∧ detour.Direct "/src/fx/wind.glsl") ∧
      (∃! g, g ∈ detourCandidates ∧ components g.path = components "/src/fx/wind.glsl") ∧
      ¬detour.SameCanonical "/main.glsl" "/./src/fx/wind.glsl" := by
  obtain ⟨hdirect, hkept, -⟩ := collect_spellings collect_detour
  obtain ⟨-, -, hapart⟩ := collect_spellings collect_plain
  refine ⟨?_, ?_, ?_⟩
  · exact List.rel_of_pairwise_cons hdirect List.mem_cons_self sameCanonical_detour
  · exact hkept _ listings_detour ⟨"/src/fx/wind.glsl", "wind.glsl"⟩ (by decide) rfl
  · have hlinks : detour.LinkFree := linkFree_of_nodes (by simp [detour])
    exact List.rel_of_pairwise_cons (hapart hlinks named_detour (by decide) (by decide))
      List.mem_cons_self

end Collection

end ShaderModules
