import ShaderModules.Proofs.Host.Walks
import ShaderModules.Proofs.Path.Endings

/-!
# Actions on a tree

Whoever works on a tree creates directories and writes files. A sequence of such actions, by one or
by several in any order, keeps every entry and the contents of every file that no written path
leads to (`Acts.grows`, `Acts.kept`).

* `FileTree.LeadsTo`, `FileTree.SameFile`: the file that a path leads to.
* `FileTree.Act`, `FileTree.Acts`: actions that write at given places only.
* `FileTree.createDirectories_acts`: creating directories one after the other.
-/

namespace ShaderModules.FileTree

/-! ## Where paths lead -/

/-- A path that the system takes. -/
structure Openable (p : String) : Prop where
  short : p.utf8ByteSize < maxPath
  nonempty : p ≠ ""
  clean : p.toList.contains '\x00' = false

/-- The directory from which a path is walked. -/
def startOf (t : FileTree) (p : String) : List String := if Path.isAbsolute p then [] else t.workDir

variable {t t' : FileTree} {followLast : Bool} {p q : String} {names : List String}
  {loc : Location}

theorem locate_eq_ok_iff : t.locate followLast p = .ok loc ↔
    Openable p ∧ t.Walk followLast maxLinks (t.startOf p) (namesOf p) loc := by
  unfold locate locateAny
  constructor
  · intro h
    split at h
    · rename_i hshort
      split at h
      · cases h
      · rename_i hne
        split at h
        · cases h
        · rename_i hclean
          exact ⟨⟨hshort, hne, by simpa using hclean⟩, walk_of_locateFrom h⟩
    · split at h <;> cases h
  · rintro ⟨hp, hwalk⟩
    rw [if_pos hp.short, if_neg hp.nonempty, if_neg (by simpa using hp.clean)]
    exact locateFrom_of_walk hwalk

theorem locate_of_walk (hp : Openable p) {l : List String} (hl : namesOf p = l)
    (h : t.Walk followLast maxLinks (t.startOf p) l loc) : t.locate followLast p = .ok loc :=
  locate_eq_ok_iff.2 ⟨hp, hl ▸ h⟩

/-- A path leads to the file under the names. -/
def LeadsTo (t : FileTree) (p : String) (names : List String) : Prop :=
  ∃ contents executable, t.locate true p = .ok (.found names (.file contents executable))

/-- Two paths lead to the same file. -/
def SameFile (t : FileTree) (p q : String) : Prop := ∃ names, t.LeadsTo p names ∧ t.LeadsTo q names

theorem node?_of_locate {contents : ByteArray} {executable : Bool}
    (h : t.locate followLast p = .ok (.found names (.file contents executable))) :
    t.node? names = some (.file contents executable) :=
  node?_of_locateFrom (locateFrom_of_walk (locate_eq_ok_iff.1 h).2)

theorem read_of_leadsTo (h : t.LeadsTo p names) {contents : ByteArray} {executable : Bool}
    (hnode : t.node? names = some (.file contents executable)) : t.read p = .ok contents := by
  obtain ⟨contents', executable', hlocate⟩ := h
  have hsame := (node?_of_locate hlocate).symm.trans hnode
  cases hsame
  unfold read
  rw [hlocate]

theorem leadsTo_of_read {contents : ByteArray} (h : t.read p = .ok contents) :
    ∃ names, t.LeadsTo p names := by
  unfold read at h
  split at h
  · rename_i hlocate
    exact ⟨_, _, _, hlocate⟩
  · cases h
  · cases h
  · cases h

theorem directory?_eq_some_iff {dir : List String} :
    t.directory? p = some dir ↔ t.locate true p = .ok (.found dir .directory) := by
  unfold directory?
  constructor
  · intro h
    split at h
    · rename_i hlocate
      cases h
      exact hlocate
    · cases h
  · intro h
    rw [h]

theorem directory?_of_locate {dir : List String}
    (h : t.locate true p = .ok (.found dir .directory)) : t.directory? p = some dir :=
  directory?_eq_some_iff.2 h

/-- A path is the path of a file exactly if it leads to one. -/
theorem isFile_iff : t.isFile p = true ↔ ∃ names, t.LeadsTo p names := by
  unfold isFile
  constructor
  · intro h
    cases hread : t.read p with
    | error e => rw [hread] at h; cases h
    | ok contents => exact leadsTo_of_read hread
  · rintro ⟨names, contents, executable, hlocate⟩
    rw [FileTree.read, hlocate]
    rfl

theorem readText_of_locate {text : String} {executable : Bool}
    (h : t.locate true p = .ok (.found names (.file text.toUTF8 executable))) :
    t.readText p = .ok text := by
  have htext : String.fromUTF8? text.toUTF8 = some text := by
    unfold String.fromUTF8?
    rw [dif_pos (by exact text.isValidUTF8)]
    rfl
  unfold readText FileTree.read
  rw [h]
  dsimp only
  rw [htext]

theorem isFile_of_readText {text : String} (h : t.readText p = .ok text) :
    t.isFile p = true := by
  unfold readText at h
  unfold isFile
  split at h
  · cases h
  · rename_i hread
    rw [hread]
    rfl

theorem leadsTo_of_walk (hp : Openable p) {contents : ByteArray} {executable : Bool}
    (h : t.Walk true maxLinks (t.startOf p) (namesOf p)
      (.found names (.file contents executable))) : t.LeadsTo p names :=
  ⟨contents, executable, locate_eq_ok_iff.2 ⟨hp, h⟩⟩

theorem Grows.startOf (h : t.Grows t') (p : String) : t'.startOf p = t.startOf p := by
  rw [FileTree.startOf, FileTree.startOf, h.workDir]

theorem LeadsTo.grows (h : t.LeadsTo p names) (hgrows : t.Grows t') : t'.LeadsTo p names := by
  obtain ⟨contents, executable, hlocate⟩ := h
  obtain ⟨hp, hwalk⟩ := locate_eq_ok_iff.1 hlocate
  obtain ⟨loc', hwalk', hbecomes⟩ := hwalk.grows hgrows (by rintro _ _ ⟨⟩)
  cases hbecomes with
  | found hkeeps =>
    cases hkeeps
    exact leadsTo_of_walk hp (hgrows.startOf p ▸ hwalk')

theorem SameFile.grows (h : t.SameFile p q) (hgrows : t.Grows t') : t'.SameFile p q := by
  obtain ⟨names, hp, hq⟩ := h
  exact ⟨names, hp.grows hgrows, hq.grows hgrows⟩

/-- The last name that is looked up for a path is its last segment. -/
theorem endsInName_of_namesOf {last : String} (h : (namesOf p).getLast? = some last)
    (hlast : Usable last) : ∃ name, Path.EndsInName p name := by
  unfold namesOf at h
  dsimp only at h
  cases hchar : p.toList.getLast? with
  | none =>
    rw [List.getLast?_eq_none_iff.1 hchar] at h
    cases h
  | some c =>
    obtain ⟨init, hinit⟩ := List.getLast?_eq_some_iff.1 hchar
    rw [hchar] at h
    split at h
    · rw [List.getLast?_concat] at h
      exact absurd (Option.some.inj h).symm hlast.notHere
    · rename_i hc
      obtain ⟨before, s, hs⟩ : ∃ before s, Path.segments init = before ++ [s] :=
        ⟨_, _, (List.dropLast_concat_getLast (Path.segments_ne_nil init)).symm⟩
      have hsingle : Path.segments [c] = [[c]] :=
        Path.segments_of_notMem (by simpa [eq_comm] using hc)
      have hsegments : Path.segments p.toList = before ++ [s ++ [c]] := by
        rw [hinit, Path.segments_append hs hsingle]
      rw [hsegments] at h
      have hname : last = String.ofList (s ++ [c]) := by simpa using h.symm
      subst hname
      refine ⟨s ++ [c], ⟨before, hsegments⟩, Path.ofSegment?_eq_name (by simp) ?_ ?_⟩
      · intro heq
        exact hlast.notHere (by rw [heq])
      · intro heq
        exact hlast.notUp (by rw [heq])

/-- A path that leads to a file ends in a name. -/
theorem LeadsTo.endsInName (h : t.LeadsTo p names) : ∃ name, Path.EndsInName p name := by
  obtain ⟨contents, executable, hlocate⟩ := h
  obtain ⟨-, hwalk⟩ := locate_eq_ok_iff.1 hlocate
  obtain ⟨last, hlast, husable⟩ := hwalk.getLast?_usable (by simp)
  exact endsInName_of_namesOf hlast husable

/-! ## One action -/

theorem grows_setNode (hne : names ≠ []) {n : Node}
    (hold : ∀ n₀, t.node? names = some n₀ → n₀.Keeps n) : t.Grows (t.setNode names n) where
  workDir := by
    unfold setNode
    split <;> rfl
  keeps other n₀ hn₀ := by
    rw [node?_setNode t hne]
    by_cases hother : other = names
    · subst hother
      exact ⟨n, if_pos rfl, hold n₀ hn₀⟩
    · exact ⟨n₀, (if_neg hother).trans hn₀, .refl n₀⟩

theorem ne_nil_of_node?_file {contents : ByteArray} {executable : Bool}
    (h : t.node? names = some (.file contents executable)) : names ≠ [] := by
  rintro rfl
  cases h

/-- A directory is created under a free name. -/
theorem exists_of_createDirectory (h : t.createDirectory p = .ok t') :
    ∃ names, names ≠ [] ∧ t.node? names = none ∧ t' = t.setNode names .directory := by
  unfold createDirectory at h
  dsimp only at h
  split at h
  · cases h
  · rename_i dir name hlocate
    cases h
    exact ⟨dir ++ [name], by simp, (locate_eq_ok_iff.1 hlocate).2.node?_of_vacant, rfl⟩
  · cases h

/-- A file is written where the path leads, under a free name or in place of a file. -/
theorem exists_of_write {contents : ByteArray} (h : t.write p contents = .ok t') :
    ∃ names executable, names ≠ [] ∧ t' = t.setNode names (.file contents executable) ∧
      (∀ n, t.node? names = some n → n.Keeps (.file contents executable)) ∧ t'.LeadsTo p names := by
  unfold write at h
  split at h
  · rename_i names contents₀ executable hlocate
    cases h
    have hnode := node?_of_locate hlocate
    have hne := ne_nil_of_node?_file hnode
    have hold : ∀ n, t.node? names = some n → n.Keeps (.file contents executable) := by
      intro n hn
      cases hn.symm.trans hnode
      exact .file ..
    exact ⟨names, executable, hne, rfl, hold,
      LeadsTo.grows ⟨contents₀, executable, hlocate⟩ (grows_setNode hne hold)⟩
  · cases h
  · rename_i dir name hlocate
    cases h
    obtain ⟨hp, hwalk⟩ := locate_eq_ok_iff.1 hlocate
    have hfree := hwalk.node?_of_vacant
    have hne : dir ++ [name] ≠ [] := by simp
    have hold : ∀ n, t.node? (dir ++ [name]) = some n → n.Keeps (.file contents false) := by
      intro n hn
      cases hn.symm.trans hfree
    have hgrows := grows_setNode hne hold
    -- the walk that arrived at the free name now arrives at the file
    obtain ⟨loc', hwalk', hbecomes⟩ := hwalk.grows hgrows (by
      rintro _ _ ⟨⟩
      exact ⟨contents, false, by rw [node?_setNode t hne, if_pos rfl]⟩)
    cases hbecomes with
    | taken =>
      exact ⟨dir ++ [name], false, hne, rfl, hold,
        leadsTo_of_walk hp (hgrows.startOf p ▸ hwalk')⟩
  · split at h
    · cases h
    · split at h <;> cases h

/-- An action on a tree: a directory is created, or a file is written at one of the places. -/
inductive Act (places : String → Prop) (t : FileTree) : FileTree → Prop where
  | directory {p : String} {t' : FileTree} : t.createDirectory p = .ok t' → Act places t t'
  | write {p : String} {contents : ByteArray} {t' : FileTree} : places p →
    t.write p contents = .ok t' → Act places t t'

variable {places : String → Prop}

theorem Act.grows (h : Act places t t') : t.Grows t' := by
  cases h with
  | directory h =>
    obtain ⟨names, hne, hfree, rfl⟩ := exists_of_createDirectory h
    exact grows_setNode hne fun n hn => by cases hn.symm.trans hfree
  | write _ h =>
    obtain ⟨names, executable, hne, rfl, hold, -⟩ := exists_of_write h
    exact grows_setNode hne hold

/-- A file keeps its contents unless an action writes at a path that leads to it. -/
theorem Act.kept (h : Act places t t') {contents : ByteArray} {executable : Bool}
    (hnode : t.node? names = some (.file contents executable)) :
    t'.node? names = some (.file contents executable) ∨ ∃ p, places p ∧ t'.LeadsTo p names := by
  cases h with
  | directory h =>
    obtain ⟨taken, hne, hfree, rfl⟩ := exists_of_createDirectory h
    refine .inl ?_
    rw [node?_setNode t hne, if_neg]
    · exact hnode
    · rintro rfl
      cases hnode.symm.trans hfree
  | @write p _ _ hp h =>
    obtain ⟨written, executable', hne, rfl, -, hleads⟩ := exists_of_write h
    by_cases hsame : names = written
    · subst hsame
      exact .inr ⟨p, hp, hleads⟩
    · exact .inl (by rw [node?_setNode t hne, if_neg hsame, hnode])

/-! ## Sequences of actions -/

/-- A sequence of actions that write at some places. -/
inductive Acts (places : String → Prop) : FileTree → FileTree → Prop where
  | done (t : FileTree) : Acts places t t
  | step {t t' t'' : FileTree} : Act places t t' → Acts places t' t'' → Acts places t t''

theorem Acts.trans {t'' : FileTree} (h : Acts places t t') (h' : Acts places t' t'') :
    Acts places t t'' := by
  induction h with
  | done => exact h'
  | step hact _ ih => exact .step hact (ih h')

theorem Acts.grows (h : Acts places t t') : t.Grows t' := by
  induction h with
  | done => exact .refl _
  | step hact _ ih => exact hact.grows.trans ih

/-- **A file keeps its contents** through any sequence of actions, unless one of the places they
write at leads to it in the end. -/
theorem Acts.kept (h : Acts places t t') {contents : ByteArray} {executable : Bool}
    (hnode : t.node? names = some (.file contents executable)) :
    t'.node? names = some (.file contents executable) ∨ ∃ p, places p ∧ t'.LeadsTo p names := by
  induction h with
  | done => exact .inl hnode
  | step hact hacts ih =>
    rcases hact.kept hnode with hkept | ⟨p, hp, hleads⟩
    · exact ih hkept
    · exact .inr ⟨p, hp, hleads.grows hacts.grows⟩

theorem ensureDirectory_acts (h : t.ensureDirectory p = .ok t') : Acts places t t' := by
  unfold ensureDirectory at h
  split at h
  · rename_i hcreate
    cases h
    exact .step (.directory hcreate) (.done _)
  · split at h
    · cases h
      exact .done _
    · cases h

theorem createAlong_acts (l : List String) : Acts places t (t.createAlong l).1 := by
  induction l with
  | nil => exact .done _
  | cons p before ih =>
    unfold createAlong
    split
    · exact .done _
    · split
      · rename_i hensure
        exact ensureDirectory_acts hensure
      · split
        · rename_i made e hbefore
          rwa [hbefore] at ih
        · rename_i made hbefore
          rw [hbefore] at ih
          cases hensure : made.ensureDirectory p with
          | error e => exact ih
          | ok t' => exact ih.trans (ensureDirectory_acts hensure)
      · exact .done _

theorem createDirectories_acts (p : String) : Acts places t (t.createDirectories p).1 :=
  createAlong_acts _

end ShaderModules.FileTree
