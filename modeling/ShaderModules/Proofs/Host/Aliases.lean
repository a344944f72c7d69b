import ShaderModules.Proofs.Host.Acts

/-!
# Paths to the same file

Different paths lead to the same file through links, through a `..` or from different starts. In a
tree without links, where a path without `..` arrives is what it says (`LeadsTo.steps_eq`), so that
paths that start in the same way and lead to the same file are equal (`SameFile.components_eq`).

* `FileTree.LinkFree`: a tree without links. It stays so whatever is done to it (`Acts.linkFree`).
-/

namespace ShaderModules.FileTree

open ShaderModules.Path

/-! ## Trees without links -/

/-- A tree without links. -/
def LinkFree (t : FileTree) : Prop := ∀ names target, t.node? names ≠ some (.link target)

variable {t t' : FileTree} {p q : String} {names : List String} {places : String → Prop}

theorem linkFree_of_nodes (h : ∀ p ∈ t.nodes, ∀ target, p.2 ≠ .link target) : t.LinkFree := by
  intro names target hnode
  unfold node? at hnode
  split at hnode
  · cases hnode
  · obtain ⟨p, hp, hlink⟩ := Option.map_eq_some_iff.1 hnode
    exact h p (List.mem_of_find?_eq_some hp) target hlink

theorem LinkFree.setNode (h : t.LinkFree) (hne : names ≠ []) {n : Node}
    (hn : ∀ target, n ≠ .link target) : (t.setNode names n).LinkFree := by
  intro other target
  rw [node?_setNode t hne]
  split
  · exact fun heq => hn target (Option.some.inj heq)
  · exact h other target

theorem Act.linkFree (h : Act places t t') (hlinks : t.LinkFree) : t'.LinkFree := by
  cases h with
  | directory h =>
    obtain ⟨names, hne, -, rfl⟩ := exists_of_createDirectory h
    exact hlinks.setNode hne nofun
  | write _ h =>
    obtain ⟨names, executable, hne, rfl, -⟩ := exists_of_write h
    exact hlinks.setNode hne nofun

theorem Acts.linkFree (h : Acts places t t') (hlinks : t.LinkFree) : t'.LinkFree := by
  induction h with
  | done => exact hlinks
  | step hact _ ih => exact ih (hact.linkFree hlinks)

/-! ## Where walks arrive -/

/-- The names under which a location stands. -/
def Location.entry : Location → List String
  | .found names _ => names
  | .vacant dir name => dir ++ [name]

/-- Without `..`, and without links on the way, a walk arrives below its start. -/
theorem Walk.entry_of_direct {followLast : Bool} {links : Nat} {here : List String} {loc : Location}
    (h : t.Walk followLast links here names loc) (hup : ".." ∉ names)
    (hdirect : ∀ entry, entry <+: here ++ names.filter (· ≠ ".") →
      ∀ target, t.node? entry ≠ some (.link target)) :
    loc.entry = here ++ names.filter (· ≠ ".") := by
  have later : ∀ {first : String} {rest : List String}, ".." ∉ first :: rest → ".." ∉ rest :=
    fun h hrest => h (List.mem_cons_of_mem _ hrest)
  have onWay : ∀ {here rest : List String} {name : String}, Usable name →
      here ++ [name] <+: here ++ (name :: rest).filter (· ≠ ".") := by
    intro here rest name hname
    rw [List.filter_cons_of_pos (by simpa using hname.notHere)]
    exact (List.prefix_append_right_inj here).2 ⟨_, rfl⟩
  induction h with
  | arrived => simp [Location.entry]
  | stay _ ih =>
    rw [List.filter_cons_of_neg (by simp)] at hdirect ⊢
    exact ih (later hup) hdirect
  | up _ ih => exact absurd List.mem_cons_self hup
  | vacant hname _ => simp [Location.entry, hname.notHere]
  | enter hname _ _ ih =>
    rw [List.filter_cons_of_pos (by simpa using hname.notHere), List.append_cons] at hdirect ⊢
    exact ih (later hup) hdirect
  | file hname _ => simp [Location.entry, hname.notHere]
  | link hname hnode _ => exact absurd hnode (hdirect _ (onWay hname) _)
  | follow hname hnode _ _ => exact absurd hnode (hdirect _ (onWay hname) _)

/-- Without links and without `..` a walk arrives below its start. -/
theorem Walk.entry_eq {followLast : Bool} {links : Nat} {here : List String} {loc : Location}
    (h : t.Walk followLast links here names loc) (hlinks : t.LinkFree) (hup : ".." ∉ names) :
    loc.entry = here ++ names.filter (· ≠ ".") :=
  h.entry_of_direct hup fun entry _ => hlinks entry

/-- A name as a component. -/
def component (n : String) : Component := .name n.toList

/-- The segments of a path that are names, as components. -/
theorem component_segments {l : List (List Char)} (hup : .up ∉ l.filterMap ofSegment?) :
    (((l.filter (!·.isEmpty)).map String.ofList).filter (· ≠ ".")).map component =
      l.filterMap ofSegment? := by
  induction l with
  | nil => rfl
  | cons s l ih =>
    have hrest : .up ∉ l.filterMap ofSegment? := fun h =>
      hup (by rw [List.filterMap_cons]; split <;> simp [h])
    by_cases hnil : s = []
    · subst hnil
      exact ih hrest
    by_cases hhere : s = ['.']
    · subst hhere
      exact ih hrest
    have hup' : s ≠ ['.', '.'] := by
      rintro rfl
      exact hup List.mem_cons_self
    have hne : String.ofList s ≠ "." := by
      intro h
      exact hhere (by rw [← String.toList_ofList (l := s), h]; rfl)
    rw [List.filterMap_cons_some (ofSegment?_eq_name hnil hhere hup'), ← ih hrest]
    simp [hnil, hne, component]

/-- **A path without `..`** has the names that are looked up for it as its steps. -/
theorem steps_eq_names (hup : .up ∉ steps p) :
    ".." ∉ namesOf p ∧ ((namesOf p).filter (· ≠ ".")).map component = steps p := by
  have hnotUp : ".." ∉ ((segments p.toList).filter (!·.isEmpty)).map String.ofList := by
    intro hmem
    obtain ⟨s, hs, hname⟩ := List.mem_map.1 hmem
    have hs' : s = ['.', '.'] := by rw [← String.toList_ofList (l := s), hname]; rfl
    exact hup (List.mem_filterMap.2 ⟨s, (List.mem_filter.1 hs).1, by rw [hs']; rfl⟩)
  have hsteps := component_segments hup
  unfold namesOf
  dsimp only
  split
  · refine ⟨by simpa using hnotUp, ?_⟩
    rw [List.filter_append, List.map_append, hsteps]
    simp [steps]
  · exact ⟨hnotUp, hsteps⟩

/-! ## Paths to the same file -/

/-- Where a path leads is what it says. -/
theorem LeadsTo.steps_eq (h : t.LeadsTo p names) (hlinks : t.LinkFree) (hup : .up ∉ steps p) :
    names.map component = (t.startOf p).map component ++ steps p := by
  obtain ⟨contents, executable, hlocate⟩ := h
  obtain ⟨hnotUp, hsteps⟩ := steps_eq_names hup
  have hnames : names = t.startOf p ++ (namesOf p).filter (· ≠ ".") :=
    (locate_eq_ok_iff.1 hlocate).2.entry_eq hlinks hnotUp
  rw [hnames, List.map_append, hsteps]

/-- **Paths that start alike and lead to the same file are equal**, where nothing leads
elsewhere. -/
theorem SameFile.components_eq (h : t.SameFile p q) (hlinks : t.LinkFree) (hp : .up ∉ components p)
    (hq : .up ∉ components q) (hlead : lead p = lead q) : components p = components q := by
  obtain ⟨names, hleads, hleads'⟩ := h
  rw [components_eq_lead, List.mem_append, not_or] at hp hq
  have hstart : t.startOf p = t.startOf q := by
    have habs : isAbsolute p = isAbsolute q :=
      Bool.eq_iff_iff.2 (by rw [isAbsolute_iff_lead, isAbsolute_iff_lead, hlead])
    rw [startOf, startOf, habs]
  have hsteps := (hleads.steps_eq hlinks hp.2).symm.trans (hleads'.steps_eq hlinks hq.2)
  rw [hstart] at hsteps
  rw [components_eq_lead, components_eq_lead, hlead, List.append_cancel_left hsteps]

end ShaderModules.FileTree
