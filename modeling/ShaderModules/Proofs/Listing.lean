import ShaderModules.Proofs.Mirroring

/-!
# What is listed

What is below a path is reached through the directory that the path leads to: where names behind it
lead anywhere, the path leads to a directory, and the names lead on from there
(`exists_directory?_of_locate`). So all files below a path are listed for it
(`mem_listing_of_isFile`), and no directory is (`isDirectory_of_mem_listing`).

* `FileTree.Walk.split`: a walk comes past the directory that the first of its names lead to.
* `FileTree.mem_sortedNames_iff`: the names in a directory.
* `FileTree.listing_subset`: what is listed for an entry below a path is listed for the path.
-/

namespace ShaderModules

open ShaderModules.Path

/-- A path that ends in a name does not end in a slash. -/
theorem Path.EndsInName.getLast?_ne {p : String} {name : List Char} (h : EndsInName p name) :
    p.toList.getLast? ≠ some '/' := by
  intro hslash
  obtain ⟨init, hinit⟩ := List.getLast?_eq_some_iff.1 hslash
  obtain ⟨before, hlast⟩ := h.last
  have hends : segments p.toList = segments init ++ [[]] := by
    rw [hinit]
    exact segments_append_slash _ _
  obtain ⟨-, hname⟩ := List.append_inj' (hlast.symm.trans hends) rfl
  exact (ne_of_isName h.isName).1 (List.singleton_inj.1 hname)

/-- What is under a path begins with it. -/
theorem Path.exists_under_eq (base p : String) : ∃ more, under base p = base ++ more := by
  unfold under
  split
  · exact ⟨p, rfl⟩
  · exact ⟨"/" ++ p, String.append_assoc⟩

namespace FileTree

variable {t : FileTree} {followLast : Bool} {links : Nat} {here names rest : List String}
  {loc : Location} {q : String}

/-! ## On the way -/

/-- **A walk comes past** the directory that the first of its names lead to. -/
theorem Walk.split {first : List String} (h : t.Walk followLast links here (first ++ rest) loc)
    (hrest : rest ≠ []) : ∃ dir links', t.Walk true links here first (.found dir .directory) ∧
      t.Walk followLast links' dir rest loc := by
  have alone : ∀ {name : String} {first : List String}, first ++ rest = [name] →
      first = [] ∧ rest = [name] := fun h =>
    (List.append_eq_singleton_iff.1 h).resolve_right fun h => hrest h.2
  generalize hnames : first ++ rest = names at h
  induction h generalizing first with
  | arrived => exact absurd (List.append_eq_nil_iff.1 hnames).2 hrest
  | stay hwalk ih =>
    rcases List.append_eq_cons_iff.1 hnames with ⟨rfl, rfl⟩ | ⟨more, rfl, rfl⟩
    · exact ⟨_, _, .arrived _ _, .stay hwalk⟩
    · obtain ⟨dir, links', hfirst, hlater⟩ := ih rfl
      exact ⟨dir, links', .stay hfirst, hlater⟩
  | up hwalk ih =>
    rcases List.append_eq_cons_iff.1 hnames with ⟨rfl, rfl⟩ | ⟨more, rfl, rfl⟩
    · exact ⟨_, _, .arrived _ _, .up hwalk⟩
    · obtain ⟨dir, links', hfirst, hlater⟩ := ih rfl
      exact ⟨dir, links', .up hfirst, hlater⟩
  | vacant hname hnode =>
    obtain ⟨rfl, rfl⟩ := alone hnames
    exact ⟨_, 0, .arrived _ _, .vacant hname hnode⟩
  | enter hname hnode hwalk ih =>
    rcases List.append_eq_cons_iff.1 hnames with ⟨rfl, rfl⟩ | ⟨more, rfl, rfl⟩
    · exact ⟨_, _, .arrived _ _, .enter hname hnode hwalk⟩
    · obtain ⟨dir, links', hfirst, hlater⟩ := ih rfl
      exact ⟨dir, links', .enter hname hnode hfirst, hlater⟩
  | file hname hnode =>
    obtain ⟨rfl, rfl⟩ := alone hnames
    exact ⟨_, 0, .arrived _ _, .file hname hnode⟩
  | link hname hnode hlast =>
    obtain ⟨rfl, rfl⟩ := alone hnames
    exact ⟨_, 0, .arrived _ _, .link hname hnode hlast⟩
  | follow hname hnode hlast hwalk ih =>
    rcases List.append_eq_cons_iff.1 hnames with ⟨rfl, rfl⟩ | ⟨more, rfl, rfl⟩
    · exact ⟨_, _, .arrived _ _, .follow hname hnode hlast hwalk⟩
    · -- the names of the link come before the ones that are left
      obtain ⟨dir, links', hfirst, hlater⟩ := ih (List.append_assoc _ _ _)
      exact ⟨dir, links', .follow hname hnode (by simp) hfirst, hlater⟩

/-- A walk goes on from the directory where it arrives. -/
theorem Walk.append {dir : List String}
    (h : t.Walk followLast links here names (.found dir .directory))
    (hrest : ∀ links, t.Walk followLast links dir rest loc) :
    t.Walk followLast links here (names ++ rest) loc := by
  generalize hloc : Location.found dir .directory = arrival at h
  induction h with
  | arrived links here =>
    cases hloc
    exact hrest links
  | stay _ ih => exact .stay (ih hloc)
  | up _ ih => exact .up (ih hloc)
  | vacant => cases hloc
  | enter hname hnode _ ih => exact .enter hname hnode (ih hloc)
  | file => cases hloc
  | link => cases hloc
  | @follow links here more name target loc hname hnode hlast _ ih =>
    have hlast' : ((more ++ rest).isEmpty && !followLast) = false := by
      cases more with
      | nil => rw [Bool.and_eq_false_iff.1 hlast |>.resolve_left (by decide), Bool.and_false]
      | cons => rfl
    refine .follow hname hnode hlast' ?_
    rw [List.append_eq, ← List.append_assoc]
    exact ih hloc

/-- A directory leads to itself. -/
theorem Walk.append_here {dir : List String}
    (h : t.Walk followLast links here names (.found dir .directory)) :
    t.Walk followLast links here (names ++ ["."]) (.found dir .directory) :=
  h.append fun links => .stay (.arrived links dir)

theorem Openable.of_under {p : String} (h : Openable (under q p)) (hq : q ≠ "") : Openable q := by
  obtain ⟨more, hmore⟩ := exists_under_eq q p
  have hshort := h.short
  have hclean := h.clean
  rw [hmore, String.utf8ByteSize_append] at hshort
  rw [hmore, String.toList_append, List.contains_append, Bool.or_eq_false_iff] at hclean
  exact ⟨by omega, hq, hclean.1⟩

/-- Names behind a path are looked up after its own. -/
theorem namesOf_under (hnames : ∀ n ∈ names, IsName n) (hne : names ≠ []) (hq : q ≠ "") :
    ∃ front, namesOf (under q (ofNames names)) = front ++ names ∧
      (namesOf q = front ∨ namesOf q = front ++ ["."]) := by
  have hbelow := below_ofNames hnames hne
  have hends := hbelow.endsInName_join q
  rw [join_eq_under hq hbelow.relative] at hends
  have hplain : ((names.map String.toList).filter (!·.isEmpty)).map String.ofList = names := by
    rw [List.filter_eq_self.2, List.map_map]
    · exact (List.map_congr_left fun n _ => String.ofList_toList).trans (List.map_id names)
    · intro s hs
      obtain ⟨n, hn, rfl⟩ := List.mem_map.1 hs
      simpa using (ne_of_isName (hnames n hn).isSegment).1
  obtain ⟨first, more, hunder, hsegments⟩ := segments_under q (ofNames names)
  have hboth : namesOf (under q (ofNames names)) =
      ((first :: more).filter (!·.isEmpty)).map String.ofList ++ names := by
    unfold namesOf
    dsimp only
    rw [if_neg hends.getLast?_ne, hunder, segments_ofNames hnames hne, ← List.cons_append,
      List.filter_append, List.map_append, hplain]
  refine ⟨_, hboth, ?_⟩
  have hfront : (segments q.toList).filter (!·.isEmpty) = (first :: more).filter (!·.isEmpty) := by
    rcases hsegments with hsegments | hsegments
    · rw [hsegments]
    · rw [hsegments, ← List.cons_append, List.filter_append]
      exact List.append_nil _
  unfold namesOf
  dsimp only
  rw [hfront]
  split
  · exact .inr rfl
  · exact .inl rfl

/-- **What is below a path is reached through a directory**: the path leads there, and the names
lead on from there. -/
theorem exists_directory?_of_locate (hnames : ∀ n ∈ names, IsName n) (hne : names ≠ [])
    (hq : q ≠ "") (h : t.locate true (under q (ofNames names)) = .ok loc) :
    ∃ dir links, t.directory? q = some dir ∧ t.Walk true links dir names loc := by
  obtain ⟨hopenable, hwalk⟩ := locate_eq_ok_iff.1 h
  obtain ⟨front, hfront, hsame⟩ := namesOf_under hnames hne hq
  have hstart : t.startOf (under q (ofNames names)) = t.startOf q := by
    unfold startOf
    rw [isAbsolute_under hq]
  rw [hfront, hstart] at hwalk
  obtain ⟨dir, links, hfirst, hlater⟩ := hwalk.split hne
  refine ⟨dir, links, directory?_of_locate (locate_eq_ok_iff.2 ⟨hopenable.of_under hq, ?_⟩), hlater⟩
  rcases hsame with hsame | hsame
  · exact hsame ▸ hfirst
  · exact hsame ▸ hfirst.append_here

/-! ## Names in a directory -/

theorem nameBelow?_eq_some_iff {dir : List String} {n : Name} :
    nameBelow? dir names = some n ↔ names = dir ++ [n.1] := by
  constructor
  · intro h
    unfold nameBelow? at h
    split at h
    · rename_i last hlast
      split at h
      · rename_i hdir
        cases h
        exact (List.dropLast_append_getLast? last hlast).symm.trans (congrArg (· ++ [last]) hdir.2)
      · cases h
    · cases h
  · rintro rfl
    unfold nameBelow?
    simp [n.2]

/-- **The names in a directory** are those under which there is something. -/
theorem mem_sortedNames_iff {dir : List String} {n : Name} :
    n ∈ t.sortedNames dir ↔ (t.node? (dir ++ [n.1])).isSome = true := by
  rw [sortedNames, List.mem_mergeSort, namesBelow, List.mem_filterMap,
    node?_of_ne_nil (List.append_ne_nil_of_right_ne_nil _ (List.cons_ne_nil _ _)),
    Option.isSome_map, List.find?_isSome]
  simp only [nameBelow?_eq_some_iff, beq_iff_eq]

/-! ## Files -/

/-- A walk along a name that does not end at a free name comes past an entry. -/
theorem Walk.node?_isSome {name : String} (h : t.Walk followLast links here (name :: rest) loc)
    (hname : IsName name) (hloc : ∀ dir free, loc ≠ .vacant dir free) :
    (t.node? (here ++ [name])).isSome = true := by
  obtain ⟨⟨-, hhere, hup⟩, -⟩ := isName_iff.1 hname
  cases h with
  | stay => exact absurd rfl hhere
  | up => exact absurd rfl hup
  | vacant => exact absurd rfl (hloc _ _)
  | enter _ hnode => rw [hnode]; rfl
  | file _ hnode => rw [hnode]; rfl
  | link _ hnode => rw [hnode]; rfl
  | follow _ hnode => rw [hnode]; rfl

/-- What is listed for an entry below a path is listed for the path. -/
theorem listing_subset (hnames : ∀ n ∈ names, IsName n) (hq : q ≠ "")
    (h : t.locate true (names.foldl under q) = .ok loc) (hloc : ∀ dir free, loc ≠ .vacant dir free) :
    t.listing (names.foldl under q) ⊆ t.listing q := by
  induction names generalizing q with
  | nil => exact List.Subset.refl _
  | cons n rest ih =>
    obtain ⟨hn, hrest⟩ := List.forall_mem_cons.1 hnames
    have hlocate := h
    rw [foldl_under_eq (List.cons_ne_nil n rest) hnames] at hlocate
    obtain ⟨dir, links, hdir, hwalk⟩ :=
      exists_directory?_of_locate hnames (List.cons_ne_nil n rest) hq hlocate
    have hentry : (⟨n, (isName_iff.1 hn).1.1⟩ : Name) ∈ t.sortedNames dir :=
      mem_sortedNames_iff.2 (hwalk.node?_isSome hn hloc)
    intro p hp
    rw [listing_of_directory? hdir, List.mem_flatMap]
    refine ⟨_, hentry, ?_⟩
    rw [entryPath_eq_under hq]
    exact ih hrest (under_ne_empty hq n) h hp

/-- **No directory is listed.** -/
theorem isDirectory_of_mem_listing {p : String} (h : p ∈ t.listing q) :
    t.isDirectory p = false := by
  fun_induction listing t q with
  | case1 q hnone =>
    rw [List.mem_singleton.1 h, isDirectory, hnone]
    rfl
  | case2 q dir hdir ih =>
    obtain ⟨n, hn, hp⟩ := List.mem_flatMap.1 h
    exact ih n hp

end FileTree

end ShaderModules
