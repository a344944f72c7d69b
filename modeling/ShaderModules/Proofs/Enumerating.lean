import ShaderModules.Proofs.Host.WellFormed
import ShaderModules.Proofs.Path.Order

/-!
# Directories are listed in order

In a tree without links, the listing of a directory has every file below it, each once, in the order
of the paths, as long as the paths of the directories can be opened (`listing_enumerates`). The
names in one directory are sorted before their subdirectories are listed. That is enough: what is
below a directory begins with its name, so it stands between what comes from the names around it
(`pairwise_listing`).

What is a directory is asked by path, and a path that is too long leads nowhere. So a directory with
such a path is listed itself, in place of what is in it (`listing_misses_deep`): the walk down ends
there (`EndsAt`).

* `FileTree.mem_listing_iff`: exactly the entries are listed where the walk down ends.
* `FileTree.mem_listing_iff_file`: exactly the files are, if no path of a directory is too long.
* `FileTree.listing_perm`: the order of the entries in the tree does not matter.
-/

namespace ShaderModules

open ShaderModules.Path

namespace FileTree

variable {t t' : FileTree} {p q n : String} {dir names : List String}

/-! ## Names in a directory -/

/-- The names in a directory are sorted, and none is there twice. -/
theorem pairwise_sortedNames (h : (t.nodes.map (·.1)).Nodup) (dir : List String) :
    (t.sortedNames dir).Pairwise fun a b => a.1 < b.1 := by
  have hsorted : (t.sortedNames dir).Pairwise fun a b => decide (a.1 ≤ b.1) = true := by
    refine List.pairwise_mergeSort (fun a b c hab hbc => ?_) (fun a b => ?_) _
    · rw [decide_eq_true_eq] at hab hbc ⊢
      exact le_trans hab hbc
    · rw [Bool.or_eq_true, decide_eq_true_eq, decide_eq_true_eq]
      exact le_total a.1 b.1
  have hbelow : t.namesBelow dir = (t.nodes.map (·.1)).filterMap (nameBelow? dir) := by
    rw [List.filterMap_map]
    rfl
  have hnodup : (t.sortedNames dir).Nodup := by
    rw [sortedNames, (List.mergeSort_perm _ _).nodup_iff, hbelow]
    refine h.filterMap fun names names' n hn hn' => ?_
    exact (nameBelow?_eq_some_iff.1 hn).trans (nameBelow?_eq_some_iff.1 hn').symm
  refine (hsorted.and hnodup).imp fun h => ?_
  exact lt_of_le_of_ne (of_decide_eq_true h.1) fun heq => h.2 (Subtype.ext heq)

/-- The order in which a tree has its entries does not matter for the names in a directory. -/
theorem sortedNames_perm (h : (t.nodes.map (·.1)).Nodup) (hperm : t'.nodes.Perm t.nodes)
    (dir : List String) : t'.sortedNames dir = t.sortedNames dir := by
  have h' : (t'.nodes.map (·.1)).Nodup := (hperm.map _).nodup_iff.2 h
  refine List.Perm.eq_of_pairwise (fun a b _ _ hab hba => absurd hab hba.asymm)
    (pairwise_sortedNames h' dir) (pairwise_sortedNames h dir) ?_
  exact (List.mergeSort_perm _ _).trans
    ((hperm.filterMap _).trans (List.mergeSort_perm _ _).symm)

/-! ## The order of what is listed -/

/-- What is listed for an entry of a directory has its name behind the components of the
directory. -/
theorem exists_components_of_mem_listing (ht : t.Named) (hp : p ≠ "") (hn : t.HasName n)
    (hq : q ∈ t.listing (under p n)) :
    ∃ more, components q = components p ++ .name n.toList :: more := by
  obtain ⟨names, rfl, -, -, hnames⟩ := exists_of_mem_listing (under_ne_empty hp n) hq
  have hall : ∀ m ∈ n :: names, IsName m :=
    List.forall_mem_cons.2 ⟨ht n hn, fun m hm => ht m (hnames m hm)⟩
  have hcomponents := components_foldl_under hp hall
  exact ⟨named names, hcomponents⟩

/-- **What is listed is in order.** -/
theorem pairwise_listing (ht : t.Named) (hdistinct : (t.nodes.map (·.1)).Nodup) (hp : p ≠ "") :
    (t.listing p).Pairwise fun a b => orderKey a < orderKey b := by
  fun_induction listing t p with
  | case1 p hnone => exact List.pairwise_singleton _ _
  | case2 p dir hdir ih =>
    simp only [entryPath_eq_under hp] at ih ⊢
    refine List.pairwise_flatMap.2 ⟨fun n _ => ih n (under_ne_empty hp n.1), ?_⟩
    -- what comes from two names differs first in the names
    refine (pairwise_sortedNames hdistinct dir).imp_of_mem fun {n m} hn hm hlt a ha b hb => ?_
    obtain ⟨x, hx⟩ := exists_components_of_mem_listing ht hp (hasName_of_mem_sortedNames hn) ha
    obtain ⟨y, hy⟩ := exists_components_of_mem_listing ht hp (hasName_of_mem_sortedNames hm) hb
    exact orderKey_lt_of_names hx hy (String.lt_iff_toList_lt.1 hlt)

/-- Each path is listed once. -/
theorem nodup_components_listing (ht : t.Named) (hdistinct : (t.nodes.map (·.1)).Nodup)
    (hp : p ≠ "") : ((t.listing p).map components).Nodup := by
  refine List.pairwise_map.2 ((pairwise_listing ht hdistinct hp).imp fun hlt heq => ?_)
  rw [orderKey_eq_iff.2 heq] at hlt
  exact lt_irrefl _ hlt

/-! ## What is listed -/

/-- The walk down from a directory ends at an entry. Names lead to the directory that has the
entry, by a path that can be opened; the entry is a file, or a directory whose own path is too
long. -/
structure EndsAt (t : FileTree) (p : String) (dir names : List String) (n : String) : Prop where
  opened : (names.foldl under p).utf8ByteSize < maxPath
  ends : (∃ contents executable, t.node? (dir ++ names ++ [n]) = some (.file contents executable)) ∨
    (t.node? (dir ++ names ++ [n]) = some .directory ∧
      maxPath ≤ (under (names.foldl under p) n).utf8ByteSize)

/-- Below a name the walk goes on from the directory with this name. -/
theorem endsAt_under_iff {m : String} :
    t.EndsAt (under p m) (dir ++ [m]) names n ↔ t.EndsAt p dir (m :: names) n := by
  have hnames : dir ++ [m] ++ names = dir ++ m :: names := List.append_assoc _ _ _
  constructor
  · rintro ⟨hopened, hends⟩
    rw [hnames] at hends
    exact ⟨hopened, hends⟩
  · rintro ⟨hopened, hends⟩
    refine ⟨hopened, ?_⟩
    rw [hnames]
    exact hends

theorem EndsAt.isSome (h : t.EndsAt p dir names n) :
    (t.node? (dir ++ (names ++ [n]))).isSome = true := by
  rw [← List.append_assoc]
  rcases h.ends with ⟨contents, executable, hfile⟩ | ⟨hdirectory, -⟩
  · rw [hfile]
    rfl
  · rw [hdirectory]
    rfl

/-- The walk ends at what is in a directory and leads to no directory. -/
theorem endsAt_nil (ht : t.WellFormed) (hlinks : t.LinkFree) (hdir : t.directory? p = some dir)
    (hentry : (t.node? (dir ++ [n])).isSome = true) (hnone : t.directory? (under p n) = none) :
    t.EndsAt p dir [] n := by
  refine ⟨(openable_of_directory? hdir).short, ?_⟩
  rw [List.append_nil]
  obtain ⟨node, hnode⟩ := Option.isSome_iff_exists.1 hentry
  cases node with
  | file contents executable => exact .inl ⟨contents, executable, hnode⟩
  | directory =>
    have hn := List.forall_mem_singleton.1 (ht.named.isName_of_entry hentry)
    refine .inr ⟨hnode, Nat.le_of_not_lt fun hshort => ?_⟩
    cases hnone.symm.trans ((directory?_under_iff ht hlinks hdir hn).2 ⟨rfl, hnode, hshort⟩)
  | link target => exact absurd hnode (hlinks _ _)

theorem exists_endsAt_of_mem_listing (ht : t.WellFormed) (hlinks : t.LinkFree)
    (hdir : t.directory? p = some dir) (h : q ∈ t.listing p) :
    ∃ names n, t.EndsAt p dir names n ∧ q = under (names.foldl under p) n := by
  fun_induction listing t p generalizing dir with
  | case1 p hnone => cases hnone.symm.trans hdir
  | case2 p dir' hdir' ih =>
    cases hdir'.symm.trans hdir
    simp only [entryPath_eq_under (openable_of_directory? hdir).nonempty] at ih h
    obtain ⟨n, hn, hq⟩ := List.mem_flatMap.1 h
    cases hbelow : t.directory? (under p n.1) with
    | none =>
      rw [listing_of_none hbelow, List.mem_singleton] at hq
      exact ⟨[], n.1, endsAt_nil ht hlinks hdir (mem_sortedNames_iff.1 hn) hbelow, hq⟩
    | some d =>
      have hname := ht.named n.1 (hasName_of_mem_sortedNames hn)
      obtain ⟨rfl, -⟩ := (directory?_under_iff ht hlinks hdir hname).1 hbelow
      obtain ⟨names, m, hends, rfl⟩ := ih n hbelow hq
      exact ⟨n.1 :: names, m, endsAt_under_iff.1 hends, rfl⟩

namespace EndsAt

variable (h : t.EndsAt p dir names n) (ht : t.WellFormed) (hlinks : t.LinkFree)
  (hdir : t.directory? p = some dir)
include h ht hlinks hdir

/-- The path of the directory that has the entry leads there. -/
theorem directory?_eq : t.directory? (names.foldl under p) = some (dir ++ names) := by
  obtain ⟨hnames, -⟩ := List.forall_mem_append.1 (ht.named.isName_of_entry h.isSome)
  have hentry := h.isSome
  rw [← List.append_assoc] at hentry
  exact (directory?_foldl_under_iff ht hlinks hdir hnames).2
    ⟨rfl, fun _ => ht.parents _ n hentry, h.opened⟩

/-- The path of the entry leads to no directory. -/
theorem directory?_under : t.directory? (under (names.foldl under p) n) = none := by
  obtain ⟨-, hn⟩ := List.forall_mem_append.1 (ht.named.isName_of_entry h.isSome)
  refine Option.eq_none_iff_forall_ne_some.2 fun d hd => ?_
  obtain ⟨rfl, hnode, hshort⟩ := (directory?_under_iff ht hlinks (h.directory?_eq ht hlinks hdir)
    (List.forall_mem_singleton.1 hn)).1 hd
  rcases h.ends with ⟨contents, executable, hfile⟩ | ⟨-, hlong⟩
  · cases hnode.symm.trans hfile
  · exact Nat.not_lt.2 hlong hshort

theorem mem_listing : under (names.foldl under p) n ∈ t.listing p := by
  obtain ⟨hnames, hn⟩ := List.forall_mem_append.1 (ht.named.isName_of_entry h.isSome)
  have hn := (isName_iff.1 (List.forall_mem_singleton.1 hn)).1.1
  have hentry := h.isSome
  rw [← List.append_assoc] at hentry
  have hbelow := h.directory?_eq ht hlinks hdir
  refine listing_subset hnames (openable_of_directory? hdir).nonempty
    (directory?_eq_some_iff.1 hbelow) nofun ?_
  rw [listing_of_directory? hbelow, List.mem_flatMap]
  refine ⟨⟨n, hn⟩, mem_sortedNames_iff.2 hentry, ?_⟩
  rw [entryPath_eq_under (openable_of_directory? hbelow).nonempty,
    listing_of_none (h.directory?_under ht hlinks hdir)]
  exact List.mem_singleton_self _

end EndsAt

/-- **Exactly the entries are listed where the walk down ends.** -/
theorem mem_listing_iff (ht : t.WellFormed) (hlinks : t.LinkFree)
    (hdir : t.directory? p = some dir) :
    q ∈ t.listing p ↔ ∃ names n, t.EndsAt p dir names n ∧ q = under (names.foldl under p) n := by
  constructor
  · exact exists_endsAt_of_mem_listing ht hlinks hdir
  · rintro ⟨names, n, hends, rfl⟩
    exact hends.mem_listing ht hlinks hdir

/-- **Where the paths of all directories can be opened, exactly the files are listed.** -/
theorem mem_listing_iff_file (ht : t.WellFormed) (hlinks : t.LinkFree)
    (hdir : t.directory? p = some dir)
    (hshort : ∀ names, t.node? (dir ++ names) = some .directory →
      (names.foldl under p).utf8ByteSize < maxPath) :
    q ∈ t.listing p ↔ ∃ names contents executable, names ≠ [] ∧
      t.node? (dir ++ names) = some (.file contents executable) ∧ q = names.foldl under p := by
  rw [mem_listing_iff ht hlinks hdir]
  constructor
  · rintro ⟨names, n, hends, rfl⟩
    have hends := hends.ends
    rw [List.append_assoc, ← foldl_under_concat] at hends
    rcases hends with ⟨contents, executable, hfile⟩ | ⟨hdirectory, hlong⟩
    · exact ⟨names ++ [n], contents, executable, by simp, hfile,
        (foldl_under_concat names n p).symm⟩
    · exact absurd (hshort _ hdirectory) (Nat.not_lt.2 hlong)
  · rintro ⟨names, contents, executable, hne, hnode, rfl⟩
    obtain rfl | ⟨init, n, rfl⟩ := names.eq_nil_or_concat
    · exact absurd rfl hne
    rw [List.concat_eq_append] at hnode ⊢
    rw [← List.append_assoc] at hnode
    have hparent := ht.parents _ n (by rw [hnode]; rfl)
    exact ⟨init, n, ⟨hshort init hparent, .inl ⟨contents, executable, hnode⟩⟩,
      foldl_under_concat init n p⟩

/-! ## Trees with the same entries -/

/-- The order in which a tree has its entries does not matter for what is listed. -/
theorem listing_perm (h : (t.nodes.map (·.1)).Nodup) (hlinks : t.LinkFree)
    (hperm : t'.nodes.Perm t.nodes) (hworkDir : t'.workDir = t.workDir) (p : String) :
    t'.listing p = t.listing p := by
  have hdirectory : ∀ p, t'.directory? p = t.directory? p := fun p => by
    unfold directory?
    rw [locate_congr hlinks hworkDir fun names _ => node?_perm h hperm names]
  fun_induction listing t p with
  | case1 p hnone => exact listing_of_none ((hdirectory p).trans hnone)
  | case2 p dir hdir ih =>
    rw [listing_of_directory? ((hdirectory p).trans hdir), sortedNames_perm h hperm]
    exact List.flatMap_congr fun n _ => ih n

/-! ## The listing of a directory -/

/-- **A directory is listed completely and in order.** In a tree without links, exactly the entries
are listed for a path of a directory where the walk down from it ends. Where the paths of all
directories below can be opened, these are the files below it, by the names that lead down to them.
Each is listed once, in the order of the paths, and it does not matter in which order the tree has
its entries. -/
theorem listing_enumerates (ht : t.WellFormed) (hlinks : t.LinkFree)
    (hdir : t.directory? p = some dir) :
    (∀ q, q ∈ t.listing p ↔
      ∃ names n, t.EndsAt p dir names n ∧ q = under (names.foldl under p) n) ∧
      ((∀ names, t.node? (dir ++ names) = some .directory →
          (names.foldl under p).utf8ByteSize < maxPath) →
        ∀ q, q ∈ t.listing p ↔ ∃ names contents executable, names ≠ [] ∧
          t.node? (dir ++ names) = some (.file contents executable) ∧ q = names.foldl under p) ∧
      ((t.listing p).map components).Nodup ∧
      ((t.listing p).Pairwise fun a b => orderKey a < orderKey b) ∧
      ∀ t' : FileTree, t'.nodes.Perm t.nodes → t'.workDir = t.workDir →
        t'.listing p = t.listing p := by
  have hp := (openable_of_directory? hdir).nonempty
  exact ⟨fun q => mem_listing_iff ht hlinks hdir,
    fun hshort q => mem_listing_iff_file ht hlinks hdir hshort,
    nodup_components_listing ht.named ht.distinct hp,
    pairwise_listing ht.named ht.distinct hp,
    fun t' hperm hworkDir => listing_perm ht.distinct hlinks hperm hworkDir p⟩

/-- A file and two directories with names that begin alike. -/
def neighbours : FileTree where
  nodes := [(["lib.glsl"], .file "float a;\n".toUTF8 false), (["lib"], .directory),
    (["lib", "b.glsl"], .file "float b;\n".toUTF8 false), (["lib-x"], .directory),
    (["lib-x", "c.glsl"], .file "float c;\n".toUTF8 false)]

theorem listing_enumerates_neighbours :
    neighbours.WellFormed ∧ neighbours.LinkFree ∧ neighbours.directory? "/" = some [] ∧
      (∀ names, neighbours.node? ([] ++ names) = some .directory →
        (names.foldl under "/").utf8ByteSize < maxPath) ∧
      "/lib/b.glsl" ∈ neighbours.listing "/" ∧ "/lib" ∉ neighbours.listing "/" ∧
      ((neighbours.listing "/").map components).Nodup ∧
      ((neighbours.listing "/").Pairwise fun a b => orderKey a < orderKey b) ∧
      listing ⟨neighbours.nodes.reverse, []⟩ "/" = neighbours.listing "/" := by
  have ht : neighbours.WellFormed := wellFormed_of_nodes (by decide) (by decide)
    (by simp [neighbours, node?])
  have hlinks : neighbours.LinkFree := linkFree_of_nodes (by simp [neighbours])
  have hroot := directory?_root neighbours
  have hlib : neighbours.directory? "/lib" = some ["lib"] := directory?_of_locate
    (locate_of_walk ⟨by decide, by decide, by decide⟩ rfl
      (.enter (usable_of (by decide)) rfl (.arrived _ _)))
  have hshort : ∀ names, neighbours.node? ([] ++ names) = some .directory →
      (names.foldl under "/").utf8ByteSize < maxPath := by
    intro names hnode
    by_cases hne : names = []
    · rw [hne]
      decide
    · have hmem := (node?_eq_some_iff ht.distinct hne).1 hnode
      obtain rfl | rfl : names = ["lib"] ∨ names = ["lib-x"] := by simpa [neighbours] using hmem
      · decide
      · decide
  obtain ⟨-, hfiles, hnodup, hsorted, hperm⟩ := listing_enumerates ht hlinks hroot
  refine ⟨ht, hlinks, hroot, hshort, ?_, fun h => ?_, hnodup, hsorted,
    hperm _ (List.reverse_perm _) rfl⟩
  · exact (hfiles hshort _).2 ⟨["lib", "b.glsl"], _, _, by decide, rfl, by decide⟩
  · have hnot := isDirectory_of_mem_listing h
    rw [isDirectory, hlib] at hnot
    cases hnot

/-! ## A path that is too long -/

/-- One name many times, for directories each of which is in the one before. -/
def nest (n : String) (k : Nat) : List String := List.replicate k n

/-- Sixteen directories with one name, each in the one before, and a file in the last. -/
def deep (n : String) : FileTree where
  nodes := ((List.range 16).map fun k => (nest n (k + 1), .directory)) ++
    [(nest n 16 ++ ["a.glsl"], .file "float a;\n".toUTF8 false)]

section

-- all this is for any name, so that nothing is computed with a long one
variable {n m : String}

theorem nest_succ (n : String) (k : Nat) : nest n (k + 1) = nest n k ++ [n] := List.replicate_succ'

theorem mem_nodes_deep {node : Node} : (names, node) ∈ (deep n).nodes ↔
    (∃ k < 16, names = nest n (k + 1) ∧ node = .directory) ∨
      (names = nest n 16 ++ ["a.glsl"] ∧ node = .file "float a;\n".toUTF8 false) := by
  simp [deep, eq_comm]

theorem distinct_deep (n : String) : ((deep n).nodes.map (·.1)).Nodup := by
  refine List.Nodup.of_map List.length ?_
  have hlengths : ((deep n).nodes.map (·.1)).map List.length = List.range' 1 17 := by
    simp [deep, nest, List.range_succ]
    decide
  rw [hlengths]
  exact List.nodup_range'

theorem node?_nest {k : Nat} (hk : k ≤ 16) : (deep n).node? (nest n k) = some .directory := by
  cases k with
  | zero => rfl
  | succ k =>
    exact (node?_eq_some_iff (distinct_deep n) (List.cons_ne_nil _ _)).2
      (mem_nodes_deep.2 (.inl ⟨k, hk, rfl, rfl⟩))

theorem node?_file_deep (n : String) :
    (deep n).node? (nest n 16 ++ ["a.glsl"]) = some (.file "float a;\n".toUTF8 false) :=
  (node?_eq_some_iff (distinct_deep n) (List.cons_ne_nil _ _)).2
    (mem_nodes_deep.2 (.inr ⟨rfl, rfl⟩))

theorem linkFree_deep (n : String) : (deep n).LinkFree := by
  refine linkFree_of_nodes ?_
  rintro ⟨names, node⟩ he target
  rcases mem_nodes_deep.1 he with ⟨k, -, -, rfl⟩ | ⟨-, rfl⟩
  · exact Node.noConfusion
  · exact Node.noConfusion

theorem wellFormed_deep (hn : IsName n) (hsize : n.utf8ByteSize ≤ maxName)
    (hclean : '\x00' ∉ n.toList) : (deep n).WellFormed := by
  have hnest : ∀ k, ∀ m ∈ nest n k, IsName m ∧ m.utf8ByteSize ≤ maxName ∧ '\x00' ∉ m.toList :=
    fun k m hm => List.eq_of_mem_replicate hm ▸ ⟨hn, hsize, hclean⟩
  refine wellFormed_of_nodes ?_ (distinct_deep n) ?_
  · rintro ⟨names, node⟩ he
    rcases mem_nodes_deep.1 he with ⟨k, -, rfl, -⟩ | ⟨rfl, -⟩
    · exact hnest (k + 1)
    · exact List.forall_mem_append.2 ⟨hnest 16, List.forall_mem_singleton.2 (by decide)⟩
  · rintro ⟨names, node⟩ he
    rcases mem_nodes_deep.1 he with ⟨k, hk, rfl, -⟩ | ⟨rfl, -⟩
    · rw [nest_succ, List.dropLast_concat]
      exact node?_nest hk.le
    · rw [List.dropLast_concat]
      exact node?_nest le_rfl

theorem size_nest (hn : IsName n) (k : Nat) :
    ((nest n (k + 1)).foldl under "/").utf8ByteSize = (k + 1) * (n.utf8ByteSize + 1) := by
  induction k with
  | zero =>
    have hslash : "/".utf8ByteSize = 1 := rfl
    rw [nest, List.replicate_one, List.foldl_cons, List.foldl_nil, under, if_pos (by decide),
      String.utf8ByteSize_append, hslash, Nat.zero_add, Nat.one_mul, Nat.add_comm]
  | succ k ih =>
    have hslash : ((nest n (k + 1)).foldl under "/").toList.getLast? ≠ some '/' := by
      rw [nest_succ, foldl_under_concat]
      exact getLast?_under_ne _ hn
    rw [nest_succ, foldl_under_concat, size_under hslash, ih, Nat.succ_mul (k + 1)]

/-- With a long name the walk down ends at the last directory. -/
theorem endsAt_deep_iff (hn : IsName n) (hsize : n.utf8ByteSize = maxName) :
    (deep n).EndsAt "/" [] names m ↔ names ++ [m] = nest n 16 := by
  have hne : [] ++ names ++ [m] ≠ [] := List.append_ne_nil_of_right_ne_nil _ (List.cons_ne_nil _ _)
  have hnest : ∀ k, ((nest n (k + 1)).foldl under "/").utf8ByteSize = (k + 1) * 256 := fun k => by
    rw [size_nest hn, hsize, maxName]
  constructor
  · rintro ⟨hopened, ⟨contents, executable, hfile⟩ | ⟨hdirectory, hlong⟩⟩
    · rcases mem_nodes_deep.1 ((node?_eq_some_iff (distinct_deep n) hne).1 hfile) with
        ⟨k, -, -, hnode⟩ | ⟨hnames, -⟩
      · cases hnode
      · -- the directory of the file cannot be opened
        obtain ⟨rfl, -⟩ := List.append_inj' hnames rfl
        rw [hnest] at hopened
        exact absurd hopened (by decide)
    · rcases mem_nodes_deep.1 ((node?_eq_some_iff (distinct_deep n) hne).1 hdirectory) with
        ⟨k, hk, hnames, -⟩ | ⟨-, hnode⟩
      · rw [List.nil_append] at hnames
        rw [← foldl_under_concat, hnames, hnest, maxPath] at hlong
        have hlast : k = 15 := by omega
        rw [hnames, hlast]
      · cases hnode
  · intro h
    obtain ⟨rfl, hm⟩ := List.append_inj' (h.trans (nest_succ n 15)) rfl
    obtain rfl := List.singleton_inj.1 hm
    refine ⟨?_, .inr ⟨?_, ?_⟩⟩
    · rw [hnest]
      decide
    · rw [List.nil_append, ← nest_succ]
      exact node?_nest le_rfl
    · rw [← foldl_under_concat, ← nest_succ, hnest]
      decide

/-- The only thing that is listed is a directory. -/
theorem listing_deep (hn : IsName n) (hsize : n.utf8ByteSize = maxName)
    (hclean : '\x00' ∉ n.toList) :
    (deep n).listing "/" = [(nest n 16).foldl under "/"] := by
  have ht := wellFormed_deep hn hsize.le hclean
  have hnodup : ((deep n).listing "/").Nodup :=
    .of_map _ (nodup_components_listing ht.named ht.distinct (by decide))
  refine List.perm_singleton.1
    ((List.perm_ext_iff_of_nodup hnodup (List.nodup_singleton _)).2 fun q => ?_)
  rw [mem_listing_iff ht (linkFree_deep n) (directory?_root _), List.mem_singleton]
  constructor
  · rintro ⟨names, m, hends, rfl⟩
    rw [← foldl_under_concat, (endsAt_deep_iff hn hsize).1 hends]
  · intro hq
    refine ⟨nest n 15, n, (endsAt_deep_iff hn hsize).2 (nest_succ n 15).symm, ?_⟩
    rw [hq, ← foldl_under_concat, ← nest_succ]

theorem notMem_listing_deep (hn : IsName n) (hsize : n.utf8ByteSize = maxName)
    (hclean : '\x00' ∉ n.toList) :
    (nest n 16 ++ ["a.glsl"]).foldl under "/" ∉ (deep n).listing "/" := by
  have hpath := foldl_under_ne_empty (p := "/") (by decide) (nest n 16)
  rw [listing_deep hn hsize hclean, List.mem_singleton, foldl_under_concat,
    ← entryPath_eq_under hpath]
  intro h
  have hlt := size_lt_entryPath ((nest n 16).foldl under "/") (n := "a.glsl") (by decide)
  rw [h] at hlt
  exact lt_irrefl _ hlt

end

/-- A name as long as a name can be. -/
def longName : String := String.ofList (List.replicate maxName 'd')

theorem size_ofList_replicate (k : Nat) :
    (String.ofList (List.replicate k 'd')).utf8ByteSize = k := by
  induction k with
  | zero => rfl
  | succ k ih =>
    rw [List.replicate_succ, String.ofList_cons, String.utf8ByteSize_append, ih,
      String.utf8ByteSize_singleton, Nat.add_comm]
    rfl

theorem notMem_longName {c : Char} (hc : c ≠ 'd') : c ∉ longName.toList := by
  rw [longName, String.toList_ofList]
  exact fun h => hc (List.eq_of_mem_replicate h)

theorem isName_longName : IsName longName := by
  have hne : ∀ s : String, s.utf8ByteSize < 3 → longName ≠ s := by
    rintro s hs rfl
    rw [longName, size_ofList_replicate] at hs
    exact absurd hs (by decide)
  exact isName_iff.2 ⟨⟨hne "" (by decide), hne "." (by decide), hne ".." (by decide)⟩,
    notMem_longName (by decide)⟩

/-- **A directory can be listed, and the only file below it not**, where paths are too long. -/
theorem listing_misses_deep :
    (deep longName).WellFormed ∧ (deep longName).LinkFree ∧
      (deep longName).directory? "/" = some [] ∧
      (deep longName).node? (nest longName 16) = some .directory ∧
      (deep longName).node? (nest longName 16 ++ ["a.glsl"]) =
        some (.file "float a;\n".toUTF8 false) ∧
      (deep longName).listing "/" = [(nest longName 16).foldl under "/"] ∧
      (nest longName 16 ++ ["a.glsl"]).foldl under "/" ∉ (deep longName).listing "/" := by
  have hsize : longName.utf8ByteSize = maxName := size_ofList_replicate maxName
  have hclean : '\x00' ∉ longName.toList := notMem_longName (by decide)
  exact ⟨wellFormed_deep isName_longName hsize.le hclean, linkFree_deep _, directory?_root _,
    node?_nest le_rfl, node?_file_deep _, listing_deep isName_longName hsize hclean,
    notMem_listing_deep isName_longName hsize hclean⟩

end FileTree

end ShaderModules
