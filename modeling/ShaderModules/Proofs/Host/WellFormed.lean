import Mathlib.Data.List.Induction
import Mathlib.Data.List.Nodup
import ShaderModules.Proofs.Host.Lookups
import ShaderModules.Proofs.Listing

/-!
# Trees as file systems have them

A file system has one entry at most under all names, the names can be looked up, and every entry
stands in a directory (`FileTree.WellFormed`). If there are no links besides, a path of a directory
leads on by names to exactly the directories that the names lead to in the tree, as long as it can
be opened (`directory?_foldl_under_iff`).

* `FileTree.wellFormed_of_nodes`: what is to be checked of a given tree.
* `FileTree.node?_eq_some_iff`: the entry under all names.
* `FileTree.directory?_under_iff`: the directories in a directory.
* `Path.size_under`: the length of a path with a name behind it.
-/

namespace ShaderModules

open ShaderModules.Path

/-! ## Names behind a path -/

theorem Path.foldl_under_concat (names : List String) (n p : String) :
    (names ++ [n]).foldl under p = under (names.foldl under p) n := by
  rw [List.foldl_append]
  rfl

theorem Path.foldl_under_ne_empty {p : String} (hp : p ≠ "") (names : List String) :
    names.foldl under p ≠ "" := by
  induction names generalizing p with
  | nil => exact hp
  | cons n names ih => exact ih (under_ne_empty hp n)

/-- Names behind a path are its last components. -/
theorem Path.components_foldl_under {p : String} {names : List String} (hp : p ≠ "")
    (hnames : ∀ n ∈ names, IsName n) :
    components (names.foldl under p) = components p ++ named names := by
  by_cases hne : names = []
  · rw [hne]
    exact (List.append_nil _).symm
  · rw [foldl_under_eq hne hnames, components_under hp, steps_ofNames hnames]

/-- A path that ends in a name does not end in a slash. -/
theorem Path.getLast?_under_ne (p : String) (hn : IsName n) :
    (under p n).toList.getLast? ≠ some '/' := by
  have hlast : (under p n).toList.getLast? = n.toList.getLast? := by
    unfold under
    split
    all_goals
      rw [String.toList_append, List.getLast?_append_of_ne_nil]
      exact (ne_of_isName hn.isSegment).1
  rw [hlast]
  exact fun h => hn.noSlash (List.mem_of_getLast? h)

/-- A name behind a path takes one byte more than it has, for the slash. -/
theorem Path.size_under {p : String} (hp : p.toList.getLast? ≠ some '/') (n : String) :
    (under p n).utf8ByteSize = p.utf8ByteSize + (n.utf8ByteSize + 1) := by
  have hslash : "/".utf8ByteSize = 1 := rfl
  rw [under, if_neg hp, String.utf8ByteSize_append, String.utf8ByteSize_append, hslash]
  omega

theorem Path.size_le_under (p n : String) : p.utf8ByteSize ≤ (under p n).utf8ByteSize := by
  obtain ⟨more, hmore⟩ := exists_under_eq p n
  rw [hmore, String.utf8ByteSize_append]
  exact Nat.le_add_right _ _

namespace FileTree

variable {t t' : FileTree} {p n : String} {dir d names : List String}

/-! ## Entries -/

/-- A tree such as a file system has it: under all names there is one entry at most, it has a name
that can be looked up, and it stands in a directory. -/
structure WellFormed (t : FileTree) : Prop where
  named : t.Named
  usable : ∀ n, t.HasName n → n.utf8ByteSize ≤ maxName ∧ '\x00' ∉ n.toList
  distinct : (t.nodes.map (·.1)).Nodup
  parents : ∀ names n, (t.node? (names ++ [n])).isSome = true → t.node? names = some .directory

theorem wellFormed_of_nodes
    (hnames : ∀ e ∈ t.nodes, ∀ n ∈ e.1, IsName n ∧ n.utf8ByteSize ≤ maxName ∧ '\x00' ∉ n.toList)
    (hdistinct : (t.nodes.map (·.1)).Nodup)
    (hparents : ∀ e ∈ t.nodes, t.node? e.1.dropLast = some .directory) : t.WellFormed where
  named := named_of_nodes fun e he n hn => (hnames e he n hn).1
  usable := fun n ⟨e, he, hn⟩ => (hnames e he n hn).2
  distinct := hdistinct
  parents := by
    intro names n h
    rw [node?_of_ne_nil (by simp), Option.isSome_map, List.find?_isSome] at h
    obtain ⟨e, he, hentry⟩ := h
    have hparent := hparents e he
    rwa [beq_iff_eq.1 hentry, List.dropLast_concat] at hparent

/-- The entry under all names. -/
theorem node?_eq_some_iff (h : (t.nodes.map (·.1)).Nodup) (hne : names ≠ []) {node : Node} :
    t.node? names = some node ↔ (names, node) ∈ t.nodes := by
  rw [node?_of_ne_nil hne]
  constructor
  · intro hnode
    obtain ⟨e, he, rfl⟩ := Option.map_eq_some_iff.1 hnode
    have hnames : e.1 = names := by simpa using List.find?_some he
    exact hnames ▸ List.mem_of_find?_eq_some he
  · intro hmem
    obtain ⟨e, he⟩ : ∃ e, t.nodes.find? (·.1 == names) = some e :=
      Option.isSome_iff_exists.1 (List.find?_isSome.2 ⟨_, hmem, beq_self_eq_true names⟩)
    have hnames : e.1 = names := by simpa using List.find?_some he
    have heq : e = (names, node) :=
      List.inj_on_of_nodup_map h (List.mem_of_find?_eq_some he) hmem hnames
    rw [he, heq]
    rfl

theorem node?_perm (h : (t.nodes.map (·.1)).Nodup) (hperm : t'.nodes.Perm t.nodes)
    (names : List String) : t'.node? names = t.node? names := by
  by_cases hne : names = []
  · rw [hne]
    rfl
  · have h' : (t'.nodes.map (·.1)).Nodup := (hperm.map _).nodup_iff.2 h
    refine Option.ext fun node => ?_
    rw [node?_eq_some_iff h' hne, node?_eq_some_iff h hne, hperm.mem_iff]

/-! ## Where paths lead in a tree without links -/

/-- A path that leads to a directory can be opened. -/
theorem openable_of_directory? (h : t.directory? p = some dir) : Openable p :=
  (locate_eq_ok_iff.1 (directory?_eq_some_iff.1 h)).1

theorem directory?_root (t : FileTree) : t.directory? "/" = some [] :=
  directory?_of_locate
    (locate_of_walk ⟨by decide, by decide, by decide⟩ rfl (.stay (.arrived _ _)))

/-- A name on the way to an entry. -/
theorem hasName_of_node? (h : (t.node? names).isSome = true) (hn : n ∈ names) : t.HasName n := by
  rw [node?_of_ne_nil (List.ne_nil_of_mem hn), Option.isSome_map, List.find?_isSome] at h
  obtain ⟨e, he, hnames⟩ := h
  exact ⟨e, he, (beq_iff_eq.1 hnames).symm ▸ hn⟩

/-- The names that lead down to an entry are such as can be looked up. -/
theorem Named.isName_of_entry (ht : t.Named) (h : (t.node? (dir ++ names)).isSome = true) :
    ∀ n ∈ names, IsName n :=
  fun n hn => ht n (hasName_of_node? h (List.mem_append_right _ hn))

theorem Openable.under (h : Openable p) (hn : '\x00' ∉ n.toList)
    (hshort : (Path.under p n).utf8ByteSize < maxPath) : Openable (Path.under p n) := by
  refine ⟨hshort, under_ne_empty h.nonempty n, ?_⟩
  have hp := h.clean
  rw [List.contains_eq_mem, decide_eq_false_iff_not] at hp ⊢
  unfold Path.under
  split <;> simp [hp, hn]

/-- **The directories in a directory.** -/
theorem directory?_under_iff (ht : t.WellFormed) (hlinks : t.LinkFree)
    (hdir : t.directory? p = some dir) (hn : IsName n) :
    t.directory? (under p n) = some d ↔
      d = dir ++ [n] ∧ t.node? d = some .directory ∧ (under p n).utf8ByteSize < maxPath := by
  have hname : ∀ m ∈ [n], IsName m := List.forall_mem_singleton.2 hn
  obtain ⟨⟨-, hhere, hup⟩, -⟩ := isName_iff.1 hn
  obtain ⟨hopenable, hwalk⟩ := locate_eq_ok_iff.1 (directory?_eq_some_iff.1 hdir)
  have hp := hopenable.nonempty
  constructor
  · intro h
    obtain ⟨dir', links, hdir', hlater⟩ := exists_directory?_of_locate hname
      (List.cons_ne_nil _ _) hp (directory?_eq_some_iff.1 h)
    cases hdir.symm.trans hdir'
    cases hlater with
    | stay => exact absurd rfl hhere
    | up => exact absurd rfl hup
    | follow _ hnode => exact absurd hnode (hlinks _ _)
    | enter _ hnode harrived =>
      cases harrived
      exact ⟨rfl, hnode, (openable_of_directory? h).short⟩
  · rintro ⟨rfl, hnode, hshort⟩
    obtain ⟨hlength, hclean⟩ := ht.usable n (hasName_of_node? (by rw [hnode]; rfl) (by simp))
    obtain ⟨front, hfront, hsame⟩ := namesOf_under hname (List.cons_ne_nil _ _) hp
    have hfirst : t.Walk true maxLinks (t.startOf p) front (.found dir .directory) := by
      rcases hsame with hsame | hsame
      · exact hsame ▸ hwalk
      · -- a slash at the end of a path stays where it is
        exact hwalk.of_concat_here hlinks hsame rfl
    have hstart : t.startOf (under p n) = t.startOf p := by
      unfold startOf
      rw [isAbsolute_under hp]
    refine directory?_eq_some_iff.2 (locate_of_walk (hopenable.under hclean hshort) hfront ?_)
    rw [hstart]
    exact hfirst.append fun links => .enter ⟨hhere, hup, hlength⟩ hnode (.arrived links _)

/-- **The directories below a directory.** -/
theorem directory?_foldl_under_iff (ht : t.WellFormed) (hlinks : t.LinkFree)
    (hdir : t.directory? p = some dir) (hnames : ∀ n ∈ names, IsName n) :
    t.directory? (names.foldl under p) = some d ↔
      d = dir ++ names ∧ (names ≠ [] → t.node? d = some .directory) ∧
        (names.foldl under p).utf8ByteSize < maxPath := by
  induction names using List.reverseRecOn generalizing d with
  | nil =>
    rw [List.append_nil, List.foldl_nil, hdir, Option.some_inj, eq_comm]
    exact ⟨fun h => ⟨h, fun hne => absurd rfl hne, (openable_of_directory? hdir).short⟩, And.left⟩
  | append_singleton init n ih =>
    obtain ⟨hinit, hn⟩ := List.forall_mem_append.1 hnames
    have hn := hn n (List.mem_singleton_self n)
    rw [foldl_under_concat]
    constructor
    · intro h
      have hpath := foldl_under_ne_empty (openable_of_directory? hdir).nonempty init
      obtain ⟨dir', -, hdir', -⟩ := exists_directory?_of_locate (List.forall_mem_singleton.2 hn)
        (List.cons_ne_nil _ _) hpath (directory?_eq_some_iff.1 h)
      obtain ⟨rfl, -⟩ := (ih hinit).1 hdir'
      obtain ⟨rfl, hnode, hshort⟩ := (directory?_under_iff ht hlinks hdir' hn).1 h
      exact ⟨List.append_assoc _ _ _, fun _ => hnode, hshort⟩
    · rintro ⟨rfl, hnode, hshort⟩
      have hnode := hnode (List.append_ne_nil_of_right_ne_nil _ (List.cons_ne_nil _ _))
      rw [← List.append_assoc] at hnode ⊢
      have hparent : t.directory? (init.foldl under p) = some (dir ++ init) :=
        (ih hinit).2 ⟨rfl, fun _ => ht.parents _ n (by rw [hnode]; rfl),
          Nat.lt_of_le_of_lt (size_le_under _ n) hshort⟩
      exact (directory?_under_iff ht hlinks hparent hn).2 ⟨rfl, hnode, hshort⟩

end FileTree

end ShaderModules
