import Mathlib.Data.List.TakeWhile
import ShaderModules.Proofs.Host.Aliases
import ShaderModules.Proofs.Output.Modules

/-!
# What is looked at for a path

Where there are no links, resolving a path looks at one entry after the other, as long as they are
directories (`FileTree.looked`). Where the path leads, and what is read or written there, depends on
these entries and on nothing else (`locate_congr`, `readText_congr`, `write_congr`).

Writing files changes neither what is looked at for a path nor which directories there are, nor the
name under which a file is written (`SameDirectories.lookedFor`, `SameDirectories.writesAt`).

* `FileTree.lookedFor`: the entries that are looked at for a path.
* `FileTree.WritesAt`: the entry that is created or replaced by writing at a path.
* `FileTree.SameDirectories`: trees that differ in their files only.
-/

namespace ShaderModules.FileTree

open ShaderModules.Path

/-! ## Entries on the way -/

/-- The entries that are looked at on the way along names from a directory, where there are no
links. -/
def looked (t : FileTree) (here : List String) : List String → List (List String)
  | [] => []
  | name :: rest =>
    if name = "." then t.looked here rest
    else if name = ".." then t.looked here.dropLast rest
    else (here ++ [name]) ::
      match t.node? (here ++ [name]) with
      | some .directory => t.looked (here ++ [name]) rest
      | _ => []

/-- The entries that are looked at for a path. -/
def lookedFor (t : FileTree) (p : String) : List (List String) :=
  t.looked (t.startOf p) (namesOf p)

variable {t t' : FileTree} {followLast : Bool} {links : Nat} {here names rest : List String}
  {p : String} {loc : Location}

theorem looked_append (t : FileTree) (here names rest : List String) :
    t.looked here names ⊆ t.looked here (names ++ rest) := by
  induction names generalizing here with
  | nil => exact List.nil_subset _
  | cons name names ih =>
    rw [List.cons_append, looked, looked]
    split
    · exact ih here
    · split
      · exact ih here.dropLast
      · refine List.cons_subset_cons _ ?_
        split
        · exact ih _
        · exact List.nil_subset _

/-- Where names lead depends on the entries that are looked at. -/
theorem locateFrom_congr (hlinks : t.LinkFree)
    (h : ∀ e ∈ t.looked here names, t'.node? e = t.node? e) :
    t'.locateFrom followLast links here names = t.locateFrom followLast links here names := by
  induction names generalizing here with
  | nil => rw [locateFrom, locateFrom]
  | cons name rest ih =>
    rw [looked] at h
    rw [locateFrom.eq_def t', locateFrom.eq_def t]
    dsimp only
    by_cases hhere : name = "."
    · rw [if_pos hhere] at h
      rw [if_pos hhere, if_pos hhere, ih h]
    by_cases hup : name = ".."
    · rw [if_neg hhere, if_pos hup] at h
      rw [if_neg hhere, if_neg hhere, if_pos hup, if_pos hup, ih h]
    rw [if_neg hhere, if_neg hup] at h
    rw [if_neg hhere, if_neg hhere, if_neg hup, if_neg hup, h _ List.mem_cons_self]
    cases hnode : t.node? (here ++ [name]) with
    | none => rfl
    | some n =>
      cases n with
      | file contents executable => rfl
      | directory =>
        rw [hnode] at h
        dsimp only
        rw [ih fun e he => h e (List.mem_cons_of_mem _ he)]
      | link target => exact absurd hnode (hlinks _ _)

section Congruence

variable (hlinks : t.LinkFree) (hworkDir : t'.workDir = t.workDir)
  (h : ∀ e ∈ t.lookedFor p, t'.node? e = t.node? e)
include hlinks hworkDir h

theorem locateAny_congr : t'.locateAny followLast p = t.locateAny followLast p := by
  have hfrom : t'.locateFrom followLast maxLinks (t.startOf p) (namesOf p) =
      t.locateFrom followLast maxLinks (t.startOf p) (namesOf p) := locateFrom_congr hlinks h
  unfold locateAny
  rw [hworkDir]
  unfold startOf at hfrom
  rw [hfrom]

/-- **Where a path leads** depends on the entries that are looked at. -/
theorem locate_congr : t'.locate followLast p = t.locate followLast p := by
  unfold locate
  rw [locateAny_congr hlinks hworkDir h]

theorem readText_congr : t'.readText p = t.readText p := by
  unfold readText read
  rw [locate_congr hlinks hworkDir h]

end Congruence

/-! ## Slashes at the end -/

theorem filter_segments_slashes {l : List Char} (h : ∀ c ∈ l, c = '/') :
    (segments l).filter (!·.isEmpty) = [] := by
  induction l with
  | nil => rfl
  | cons c l ih =>
    rw [h c List.mem_cons_self, segments_slash]
    exact ih fun c hc => h c (List.mem_cons_of_mem _ hc)

theorem toList_trimSlashes (p : String) :
    ∃ slashes, (∀ c ∈ slashes, c = '/') ∧ p.toList = (trimSlashes p).toList ++ slashes := by
  refine ⟨(p.toList.reverse.takeWhile (· == '/')).reverse, fun c hc => ?_, ?_⟩
  · simpa using List.mem_takeWhile_imp (List.mem_reverse.1 hc)
  · rw [trimSlashes, String.toList_ofList, ← List.reverse_append, List.takeWhile_append_dropWhile,
      List.reverse_reverse]

/-- The names looked up for a path that ends in slashes are those of the path without them, and the
directory itself. -/
theorem namesOf_trimSlashes (p : String) :
    namesOf p = namesOf (trimSlashes p) ∨ namesOf p = namesOf (trimSlashes p) ++ ["."] := by
  obtain ⟨slashes, hslashes, hp⟩ := toList_trimSlashes p
  cases slashes with
  | nil =>
    have hsame : trimSlashes p = p := String.toList_injective (by simpa using hp.symm)
    exact .inl (by rw [hsame])
  | cons c slashes =>
    have hc := hslashes c List.mem_cons_self
    subst hc
    have hlast : p.toList.getLast? = some '/' := by
      rw [hp, List.getLast?_append, List.getLast?_eq_some_getLast (List.cons_ne_nil _ _),
        hslashes _ (List.getLast_mem _)]
      rfl
    have htrim : (trimSlashes p).toList.getLast? ≠ some '/' := by
      rw [trimSlashes, String.toList_ofList, List.getLast?_reverse]
      intro hhead
      have hnot := List.head?_dropWhile_not (· == '/') p.toList.reverse
      rw [hhead] at hnot
      simp at hnot
    have hsegments : (segments p.toList).filter (!·.isEmpty) =
        (segments (trimSlashes p).toList).filter (!·.isEmpty) := by
      rw [hp, segments_append_slash, List.filter_append,
        filter_segments_slashes fun c hc => hslashes c (List.mem_cons_of_mem _ hc),
        List.append_nil]
    refine .inr ?_
    unfold namesOf
    dsimp only
    rw [if_pos hlast, if_neg htrim, hsegments]

theorem startOf_trimSlashes (t : FileTree) (h : trimSlashes p ≠ "") :
    t.startOf (trimSlashes p) = t.startOf p := by
  obtain ⟨slashes, -, hp⟩ := toList_trimSlashes p
  have hpath : p = trimSlashes p ++ String.ofList slashes :=
    String.toList_injective (by simpa using hp)
  have habs : isAbsolute (trimSlashes p ++ String.ofList slashes) = isAbsolute (trimSlashes p) :=
    isAbsolute_append h _
  rw [startOf, startOf, ← habs, ← hpath]

theorem lookedFor_trimSlashes (t : FileTree) (p : String) :
    t.lookedFor (trimSlashes p) ⊆ t.lookedFor p := by
  by_cases h : trimSlashes p = ""
  · rw [h]
    exact List.nil_subset _
  unfold lookedFor
  rw [startOf_trimSlashes t h]
  rcases namesOf_trimSlashes p with hnames | hnames
  · rw [hnames]
    exact List.Subset.refl _
  · rw [hnames]
    exact looked_append t _ _ _

/-! ## Writing -/

/-- A location at which a file is created or replaced: a free name or a file. -/
inductive Location.Writable : Location → List String → Prop where
  | file {names : List String} {contents : ByteArray} {executable : Bool} :
    Writable (.found names (.file contents executable)) names
  | vacant {dir : List String} {name : String} : Writable (.vacant dir name) (dir ++ [name])

/-- Writing at a path creates or replaces the file under the names. -/
def WritesAt (t : FileTree) (p : String) (names : List String) : Prop :=
  ∃ loc, t.locate true p = .ok loc ∧ loc.Writable names

theorem WritesAt.node?_ne (h : t.WritesAt p names) : t.node? names ≠ some .directory := by
  obtain ⟨loc, hloc, hwritable⟩ := h
  cases hwritable with
  | file => rw [node?_of_locate hloc]; nofun
  | vacant => rw [(locate_eq_ok_iff.1 hloc).2.node?_of_vacant]; nofun

theorem WritesAt.ne_nil (h : t.WritesAt p names) : names ≠ [] := by
  rintro rfl
  exact h.node?_ne rfl

theorem Walk.mem_looked (h : t.Walk followLast links here names loc) (hlinks : t.LinkFree)
    {entry : List String} (hwritable : loc.Writable entry) : entry ∈ t.looked here names := by
  induction h with
  | arrived => cases hwritable
  | stay _ ih =>
    rw [looked, if_pos rfl]
    exact ih hwritable
  | up _ ih =>
    rw [looked, if_neg (by decide), if_pos rfl]
    exact ih hwritable
  | vacant hname =>
    cases hwritable
    rw [looked, if_neg hname.notHere, if_neg hname.notUp]
    exact List.mem_cons_self
  | enter hname hnode _ ih =>
    rw [looked, if_neg hname.notHere, if_neg hname.notUp, hnode]
    exact List.mem_cons_of_mem _ (ih hwritable)
  | file hname =>
    cases hwritable
    rw [looked, if_neg hname.notHere, if_neg hname.notUp]
    exact List.mem_cons_self
  | link _ hnode => exact absurd hnode (hlinks _ _)
  | follow _ hnode => exact absurd hnode (hlinks _ _)

/-- The entry that is written is looked at. -/
theorem WritesAt.mem_lookedFor (h : t.WritesAt p names) (hlinks : t.LinkFree) :
    names ∈ t.lookedFor p := by
  obtain ⟨loc, hloc, hwritable⟩ := h
  exact (locate_eq_ok_iff.1 hloc).2.mem_looked hlinks hwritable

/-! ## Paths that do not go up -/

/-- The names of a path from the root, where it does not go up. -/
def fullNames (t : FileTree) (p : String) : List String :=
  t.startOf p ++ (namesOf p).filter (· ≠ ".")

theorem isPrefix_of_looked (hup : ".." ∉ names) {entry : List String}
    (h : entry ∈ t.looked here names) : entry <+: here ++ names.filter (· ≠ ".") := by
  induction names generalizing here with
  | nil => cases h
  | cons name rest ih =>
    rw [List.mem_cons, not_or] at hup
    rw [looked] at h
    by_cases hhere : name = "."
    · rw [if_pos hhere] at h
      simpa [hhere] using ih hup.2 h
    rw [if_neg hhere, if_neg (Ne.symm hup.1)] at h
    have hfilter : (name :: rest).filter (· ≠ ".") = name :: rest.filter (· ≠ ".") := by
      simp [hhere]
    rw [hfilter, List.append_cons]
    rcases List.mem_cons.1 h with rfl | h
    · exact List.prefix_append _ _
    · split at h
      · exact ih hup.2 h
      · cases h

/-- Only what is on the way of a path is looked at. -/
theorem isPrefix_of_lookedFor (hup : ".." ∉ namesOf p) {entry : List String}
    (h : entry ∈ t.lookedFor p) : entry <+: t.fullNames p := isPrefix_of_looked hup h

theorem WritesAt.eq_fullNames (h : t.WritesAt p names) (hlinks : t.LinkFree)
    (hup : ".." ∉ namesOf p) : names = t.fullNames p := by
  obtain ⟨loc, hloc, hwritable⟩ := h
  have hentry := (locate_eq_ok_iff.1 hloc).2.entry_eq hlinks hup
  cases hwritable <;> exact hentry

/-! ## The tree after writing -/

/-- **What is written** depends on the entries that are looked at: two trees in which they are the
same are changed under the same name or not at all. -/
theorem write_congr (hlinks : t.LinkFree) (hworkDir : t'.workDir = t.workDir)
    (h : ∀ e ∈ t.lookedFor p, t'.node? e = t.node? e) (contents : ByteArray) :
    (∃ e, t.write p contents = .error e ∧ t'.write p contents = .error e) ∨
      ∃ names executable, t.WritesAt p names ∧
        t.write p contents = .ok (t.setNode names (.file contents executable)) ∧
        t'.write p contents = .ok (t'.setNode names (.file contents executable)) := by
  have htrim : t'.locate false (trimSlashes p) = t.locate false (trimSlashes p) :=
    locate_congr hlinks hworkDir fun e he => h e (lookedFor_trimSlashes t p he)
  unfold write
  rw [locate_congr hlinks hworkDir h, htrim]
  cases hloc : t.locate true p with
  | error e =>
    refine .inl ?_
    dsimp only
    split
    · exact ⟨e, rfl, rfl⟩
    · cases t.locate false (trimSlashes p) with
      | ok loc => exact ⟨_, rfl, rfl⟩
      | error e' => exact ⟨e', rfl, rfl⟩
  | ok loc =>
    cases loc with
    | vacant dir name =>
      exact .inr ⟨dir ++ [name], false, ⟨_, hloc, .vacant⟩, rfl, rfl⟩
    | found names n =>
      cases n with
      | file old executable => exact .inr ⟨names, executable, ⟨_, hloc, .file⟩, rfl, rfl⟩
      | directory => exact .inl ⟨_, rfl, rfl⟩
      | link target => exact .inl ⟨_, rfl, rfl⟩

/-! ## Directories that are there -/

theorem isDirectory_iff :
    t.isDirectory p = true ↔ ∃ dir, t.locate true p = .ok (.found dir .directory) := by
  rw [isDirectory, Option.isSome_iff_exists]
  exact exists_congr fun _ => directory?_eq_some_iff

theorem Walk.followLast_irrel (h : t.Walk followLast links here names loc) (hlinks : t.LinkFree)
    (followLast' : Bool) : t.Walk followLast' links here names loc := by
  induction h with
  | arrived links here => exact .arrived links here
  | stay _ ih => exact .stay ih
  | up _ ih => exact .up ih
  | vacant hname hnode => exact .vacant hname hnode
  | enter hname hnode _ ih => exact .enter hname hnode ih
  | file hname hnode => exact .file hname hnode
  | link _ hnode => exact absurd hnode (hlinks _ _)
  | follow _ hnode => exact absurd hnode (hlinks _ _)

/-- The directory itself is where the names before it lead. -/
theorem Walk.of_concat_here {dir l : List String} (h : t.Walk followLast links here l loc)
    (hlinks : t.LinkFree) (hl : l = names ++ ["."]) (hloc : loc = .found dir .directory) :
    t.Walk followLast links here names loc := by
  induction h generalizing names with
  | arrived => simp at hl
  | stay h ih =>
    rcases List.cons_eq_append_iff.1 hl with ⟨rfl, hlast⟩ | ⟨names, rfl, hrest⟩
    · rwa [← (List.cons.inj hlast).2] at h
    · exact .stay (ih hrest hloc)
  | up _ ih =>
    rcases List.cons_eq_append_iff.1 hl with ⟨-, hlast⟩ | ⟨names, rfl, hrest⟩
    · exact absurd (List.cons.inj hlast).1 (by decide)
    · exact .up (ih hrest hloc)
  | enter hname hnode _ ih =>
    rcases List.cons_eq_append_iff.1 hl with ⟨-, hlast⟩ | ⟨names, rfl, hrest⟩
    · exact absurd (List.cons.inj hlast).1.symm hname.notHere
    · exact .enter hname hnode (ih hrest hloc)
  | vacant => cases hloc
  | file => cases hloc
  | link => cases hloc
  | follow _ hnode => exact absurd hnode (hlinks _ _)

theorem Openable.trimSlashes (hp : Openable p) (h : trimSlashes p ≠ "") :
    Openable (trimSlashes p) := by
  obtain ⟨slashes, -, hpath⟩ := toList_trimSlashes p
  have hp' : p = FileTree.trimSlashes p ++ String.ofList slashes :=
    String.toList_injective (by simpa using hpath)
  refine ⟨?_, h, ?_⟩
  · have hshort := hp.short
    rw [hp', String.utf8ByteSize_append] at hshort
    omega
  · have hclean := hp.clean
    rw [hpath] at hclean
    simp only [List.contains_append, Bool.or_eq_false_iff] at hclean
    exact hclean.1

/-- A directory that is there is not created. -/
theorem ensureDirectory_of_isDirectory (hlinks : t.LinkFree) (h : t.isDirectory p = true) :
    t.ensureDirectory p = .ok t := by
  obtain ⟨dir, hloc⟩ := isDirectory_iff.1 h
  obtain ⟨hp, hwalk⟩ := locate_eq_ok_iff.1 hloc
  have hfound : t.locate false (if trimSlashes p = "" then p else trimSlashes p) =
      .ok (.found dir .directory) := by
    split
    · exact locate_eq_ok_iff.2 ⟨hp, hwalk.followLast_irrel hlinks false⟩
    · rename_i hne
      have htrimmed : t.Walk true maxLinks (t.startOf p) (namesOf (trimSlashes p))
          (.found dir .directory) := by
        rcases namesOf_trimSlashes p with hnames | hnames
        · exact hnames ▸ hwalk
        · exact hwalk.of_concat_here hlinks hnames rfl
      rw [← startOf_trimSlashes t hne] at htrimmed
      exact locate_eq_ok_iff.2 ⟨hp.trimSlashes hne, htrimmed.followLast_irrel hlinks false⟩
  have hexists : t.createDirectory p = .error .exists := by
    unfold createDirectory
    dsimp only
    rw [hfound]
  unfold ensureDirectory
  simp [hexists, h]

/-- The directory in which a path lies is there. -/
def HasDirectory (t : FileTree) (path : String) : Prop :=
  ∀ parent, parent? path = some parent → parent ≠ "" → t.isDirectory parent = true

theorem prepare_of_hasDirectory (hlinks : t.LinkFree) (h : t.HasDirectory p) :
    t.prepare p = (t, .ok ()) := by
  unfold prepare
  split
  · rfl
  · rename_i parent hparent
    split
    · rfl
    · rename_i hne
      rw [createDirectories, lineage, createAlong, if_neg hne,
        ensureDirectory_of_isDirectory hlinks (h parent hparent hne)]
      rfl

/-! ## Trees with the same directories -/

/-- Two trees without links that differ in their files only. -/
structure SameDirectories (t t' : FileTree) : Prop where
  linkFree : t.LinkFree
  linkFree' : t'.LinkFree
  workDir : t'.workDir = t.workDir
  directory_iff : ∀ names, t'.node? names = some .directory ↔ t.node? names = some .directory

theorem SameDirectories.refl (h : t.LinkFree) : t.SameDirectories t := ⟨h, h, rfl, fun _ => .rfl⟩

theorem SameDirectories.symm (h : t.SameDirectories t') : t'.SameDirectories t :=
  ⟨h.linkFree', h.linkFree, h.workDir.symm, fun names => (h.directory_iff names).symm⟩

theorem SameDirectories.startOf (h : t.SameDirectories t') (p : String) :
    t'.startOf p = t.startOf p := by
  rw [FileTree.startOf, FileTree.startOf, h.workDir]

theorem SameDirectories.looked (h : t.SameDirectories t') (here names : List String) :
    t'.looked here names = t.looked here names := by
  induction names generalizing here with
  | nil => rfl
  | cons name rest ih =>
    rw [FileTree.looked, FileTree.looked, ih, ih, ih]
    by_cases hdir : t.node? (here ++ [name]) = some .directory
    · rw [hdir, (h.directory_iff _).2 hdir]
    · have hdir' := mt (h.directory_iff _).1 hdir
      have hnone : ∀ {n : Option Node}, n ≠ some .directory →
          (match n with
            | some .directory => t.looked (here ++ [name]) rest
            | _ => []) = [] := by
        intro n hn
        split
        · exact absurd rfl hn
        · rfl
      rw [hnone hdir, hnone hdir']

theorem SameDirectories.lookedFor (h : t.SameDirectories t') (p : String) :
    t'.lookedFor p = t.lookedFor p := by
  rw [FileTree.lookedFor, FileTree.lookedFor, h.startOf, h.looked]

/-- A walk arrives at the same directory in both trees, or both arrive where the same file is
created or replaced. -/
theorem Walk.sameDirectories (h : t.Walk followLast links here names loc)
    (hsame : t.SameDirectories t') :
    (∃ dir, loc = .found dir .directory ∧ t'.Walk followLast links here names loc) ∨
      ∃ loc' entry, t'.Walk followLast links here names loc' ∧ loc.Writable entry ∧
        loc'.Writable entry := by
  -- what is no directory is a free name or a file in the other tree
  have arrives : ∀ {links : Nat} {here : List String} {name : String}, Usable name →
      t.node? (here ++ [name]) ≠ some .directory →
      ∃ loc', t'.Walk followLast links here [name] loc' ∧ loc'.Writable (here ++ [name]) := by
    intro links here name hname hnode
    cases hnode' : t'.node? (here ++ [name]) with
    | none => exact ⟨_, .vacant hname hnode', .vacant⟩
    | some n =>
      cases n with
      | file contents executable => exact ⟨_, .file hname hnode', .file⟩
      | directory => exact absurd ((hsame.directory_iff _).1 hnode') hnode
      | link target => exact absurd hnode' (hsame.linkFree' _ _)
  induction h with
  | arrived links here => exact .inl ⟨here, rfl, .arrived links here⟩
  | stay _ ih =>
    rcases ih with ⟨dir, hloc, hwalk⟩ | ⟨loc', entry, hwalk, hboth⟩
    · exact .inl ⟨dir, hloc, .stay hwalk⟩
    · exact .inr ⟨loc', entry, .stay hwalk, hboth⟩
  | up _ ih =>
    rcases ih with ⟨dir, hloc, hwalk⟩ | ⟨loc', entry, hwalk, hboth⟩
    · exact .inl ⟨dir, hloc, .up hwalk⟩
    · exact .inr ⟨loc', entry, .up hwalk, hboth⟩
  | vacant hname hnode =>
    obtain ⟨loc', hwalk, hwritable⟩ := arrives hname (by rw [hnode]; nofun)
    exact .inr ⟨loc', _, hwalk, .vacant, hwritable⟩
  | enter hname hnode _ ih =>
    have hnode' := (hsame.directory_iff _).2 hnode
    rcases ih with ⟨dir, hloc, hwalk⟩ | ⟨loc', entry, hwalk, hboth⟩
    · exact .inl ⟨dir, hloc, .enter hname hnode' hwalk⟩
    · exact .inr ⟨loc', entry, .enter hname hnode' hwalk, hboth⟩
  | file hname hnode =>
    obtain ⟨loc', hwalk, hwritable⟩ := arrives hname (by rw [hnode]; nofun)
    exact .inr ⟨loc', _, hwalk, .file, hwritable⟩
  | link _ hnode => exact absurd hnode (hsame.linkFree _ _)
  | follow _ hnode => exact absurd hnode (hsame.linkFree _ _)

theorem Location.Writable.unique {entry entry' : List String} (h : loc.Writable entry)
    (h' : loc.Writable entry') : entry = entry' := by
  cases h <;> cases h' <;> rfl

/-- Files are written under the same names. -/
theorem SameDirectories.writesAt (h : t.SameDirectories t') (hwrites : t.WritesAt p names) :
    t'.WritesAt p names := by
  obtain ⟨loc, hloc, hwritable⟩ := hwrites
  obtain ⟨hp, hwalk⟩ := locate_eq_ok_iff.1 hloc
  rcases hwalk.sameDirectories h with ⟨dir, rfl, -⟩ | ⟨loc', entry, hwalk', hentry, hentry'⟩
  · cases hwritable
  · rw [← h.startOf] at hwalk'
    exact ⟨loc', locate_eq_ok_iff.2 ⟨hp, hwalk'⟩, hwritable.unique hentry ▸ hentry'⟩

theorem SameDirectories.isDirectory (h : t.SameDirectories t') (p : String) :
    t'.isDirectory p = t.isDirectory p := by
  have carry : ∀ {t t' : FileTree}, t.SameDirectories t' → t.isDirectory p = true →
      t'.isDirectory p = true := by
    intro t t' h hdir
    obtain ⟨dir, hloc⟩ := isDirectory_iff.1 hdir
    obtain ⟨hp, hwalk⟩ := locate_eq_ok_iff.1 hloc
    rcases hwalk.sameDirectories h with ⟨_, _, hwalk'⟩ | ⟨_, _, _, hwritable, _⟩
    · rw [← h.startOf] at hwalk'
      exact isDirectory_iff.2 ⟨dir, locate_eq_ok_iff.2 ⟨hp, hwalk'⟩⟩
    · cases hwritable
  exact Bool.eq_iff_iff.2 ⟨carry h.symm, carry h⟩

theorem SameDirectories.hasDirectory (h : t.SameDirectories t') (hdir : t.HasDirectory p) :
    t'.HasDirectory p := fun parent hparent hne =>
  (h.isDirectory parent).trans (hdir parent hparent hne)

/-- Writing a file keeps the directories. -/
theorem SameDirectories.setNode (h : t.SameDirectories t') (hwrites : t.WritesAt p names)
    (contents : ByteArray) (executable : Bool) :
    t.SameDirectories (t'.setNode names (.file contents executable)) := by
  have hne := hwrites.ne_nil
  refine ⟨h.linkFree, h.linkFree'.setNode hne nofun, ?_, fun other => ?_⟩
  · rw [← h.workDir]
    unfold FileTree.setNode
    split <;> rfl
  · rw [node?_setNode _ hne]
    split
    · rename_i hother
      subst hother
      exact ⟨nofun, fun hdir => absurd hdir hwrites.node?_ne⟩
    · exact h.directory_iff other

end ShaderModules.FileTree
