import ShaderModules.Host.FileTree

/-!
# Walks through a tree

Where a path leads is found by walking along its names. `FileTree.Walk` is the relation of the walks
that arrive somewhere. These are the paths that `FileTree.locateFrom` can follow
(`walk_of_locateFrom`, `locateFrom_of_walk`), and what holds of all walks is proved by induction on
the relation.

* `FileTree.Grows`: a tree with more entries, in which files may have other contents. Walks that
  arrive still arrive at the same place (`Walk.grows`).
* `FileTree.node?_setNode`: the entries after one of them is set.
-/

namespace ShaderModules

/-- An entry that is kept: a file may have other contents. -/
inductive Node.Keeps : Node → Node → Prop where
  | file (contents contents' : ByteArray) (executable executable' : Bool) :
    Keeps (.file contents executable) (.file contents' executable')
  | directory : Keeps .directory .directory
  | link (target : String) : Keeps (.link target) (.link target)

theorem Node.Keeps.refl (n : Node) : n.Keeps n := by
  cases n with
  | file contents executable => exact .file ..
  | directory => exact .directory
  | link target => exact .link target

theorem Node.Keeps.trans {n n' n'' : Node} (h : n.Keeps n') (h' : n'.Keeps n'') : n.Keeps n'' := by
  cases h <;> cases h'
  · exact .file ..
  · exact .directory
  · exact .link _

namespace FileTree

/-! ## Entries -/

theorem node?_of_ne_nil {names : List String} (h : names ≠ []) (t : FileTree) :
    t.node? names = (t.nodes.find? (·.1 == names)).map (·.2) := by
  rw [node?, if_neg (by simpa using h)]

theorem find?_replace (l : List (List String × Node)) (names other : List String) (n : Node) :
    (l.map fun p => if p.1 == names then (names, n) else p).find? (·.1 == other) =
      (l.find? (·.1 == other)).map fun p => if p.1 == names then (names, n) else p := by
  rw [List.find?_map]
  refine congrArg (fun q => (List.find? q l).map _) (funext fun p => ?_)
  by_cases hp : p.1 = names
  · simp [hp]
  · simp [hp]

theorem node?_setNode (t : FileTree) {names : List String} (h : names ≠ []) (n : Node)
    (other : List String) :
    (t.setNode names n).node? other = if other = names then some n else t.node? other := by
  by_cases hother : other = []
  · rw [if_neg (hother ▸ h.symm), hother]
    rfl
  rw [node?_of_ne_nil hother, node?_of_ne_nil hother, setNode]
  split
  · rename_i hany
    rw [find?_replace]
    by_cases hsame : other = names
    · subst hsame
      cases hfind : t.nodes.find? (·.1 == other) with
      | none =>
        rw [List.find?_eq_none] at hfind
        obtain ⟨p, hp, heq⟩ := List.any_eq_true.1 hany
        exact absurd heq (hfind p hp)
      | some p =>
        have hp : p.1 = other := by simpa using List.find?_some hfind
        simp [hp]
    · rw [if_neg hsame]
      cases hfind : t.nodes.find? (·.1 == other) with
      | none => rfl
      | some p =>
        have hp : p.1 = other := by simpa using List.find?_some hfind
        simp [hp, hsame]
  · rename_i hany
    by_cases hsame : other = names
    · subst hsame
      have hnone : t.nodes.find? (·.1 == other) = none :=
        List.find?_eq_none.2 fun p hp heq => hany (List.any_eq_true.2 ⟨p, hp, heq⟩)
      rw [List.find?_append, hnone]
      simp
    · rw [List.find?_append, if_neg hsame]
      simp [Ne.symm hsame]

/-! ## Walks -/

/-- A name that is looked up in a directory. -/
structure Usable (name : String) : Prop where
  notHere : name ≠ "."
  notUp : name ≠ ".."
  short : name.utf8ByteSize ≤ maxName

theorem usable_of {name : String} (h : name ≠ "." ∧ name ≠ ".." ∧ name.utf8ByteSize ≤ maxName) :
    Usable name := ⟨h.1, h.2.1, h.2.2⟩

/-- A walk from a directory along names, following at most some number of links, arrives. -/
inductive Walk (t : FileTree) (followLast : Bool) :
    Nat → List String → List String → Location → Prop where
  | arrived (links : Nat) (here : List String) :
    Walk t followLast links here [] (.found here .directory)
  | stay {links : Nat} {here rest : List String} {loc : Location} :
    Walk t followLast links here rest loc → Walk t followLast links here ("." :: rest) loc
  | up {links : Nat} {here rest : List String} {loc : Location} :
    Walk t followLast links here.dropLast rest loc → Walk t followLast links here (".." :: rest) loc
  | vacant {links : Nat} {here : List String} {name : String} : Usable name →
    t.node? (here ++ [name]) = none → Walk t followLast links here [name] (.vacant here name)
  | enter {links : Nat} {here rest : List String} {name : String} {loc : Location} : Usable name →
    t.node? (here ++ [name]) = some .directory →
    Walk t followLast links (here ++ [name]) rest loc →
    Walk t followLast links here (name :: rest) loc
  | file {links : Nat} {here : List String} {name : String} {contents : ByteArray}
    {executable : Bool} : Usable name →
    t.node? (here ++ [name]) = some (.file contents executable) →
    Walk t followLast links here [name] (.found (here ++ [name]) (.file contents executable))
  | link {links : Nat} {here : List String} {name target : String} : Usable name →
    t.node? (here ++ [name]) = some (.link target) → followLast = false →
    Walk t followLast links here [name] (.found (here ++ [name]) (.link target))
  | follow {links : Nat} {here rest : List String} {name target : String} {loc : Location} :
    Usable name → t.node? (here ++ [name]) = some (.link target) →
    (rest.isEmpty && !followLast) = false →
    Walk t followLast links (if Path.isAbsolute target then [] else here) (namesOf target ++ rest)
      loc →
    Walk t followLast (links + 1) here (name :: rest) loc

variable {t : FileTree} {followLast : Bool} {links : Nat} {here names : List String}
  {loc : Location}

theorem walk_of_locateFrom (h : t.locateFrom followLast links here names = .ok loc) :
    t.Walk followLast links here names loc := by
  have usable : ∀ {name : String}, ¬name = "." → ¬name = ".." → ¬maxName < name.utf8ByteSize →
      Usable name := fun hhere hup hlong => ⟨hhere, hup, Nat.le_of_not_lt hlong⟩
  fun_induction locateFrom t followLast links here names with
  | case1 links here =>
    cases h
    exact .arrived links here
  | case2 _ _ _ ih => exact .stay (ih h)
  | case3 _ _ _ _ ih => exact .up (ih h)
  | case4 => cases h
  | case5 links here name rest hhere hup hlong hnode hrest =>
    cases h
    rw [List.isEmpty_iff.1 hrest]
    exact .vacant (usable hhere hup hlong) hnode
  | case6 => cases h
  | case7 links here name rest hhere hup hlong hnode ih =>
    exact .enter (usable hhere hup hlong) hnode (ih h)
  | case8 links here name rest hhere hup hlong contents executable hnode hrest =>
    cases h
    rw [List.isEmpty_iff.1 hrest]
    exact .file (usable hhere hup hlong) hnode
  | case9 => cases h
  | case10 links here name rest hhere hup hlong target hnode hlast =>
    cases h
    rw [Bool.and_eq_true, List.isEmpty_iff, Bool.not_eq_true'] at hlast
    rw [hlast.1]
    exact .link (usable hhere hup hlong) hnode hlast.2
  | case11 => cases h
  | case12 here name rest hhere hup hlong target hnode hlast links ih =>
    exact .follow (usable hhere hup hlong) hnode (by simpa using hlast) (ih h)

theorem locateFrom_of_walk (h : t.Walk followLast links here names loc) :
    t.locateFrom followLast links here names = .ok loc := by
  induction h with
  | arrived links here => rw [locateFrom]
  | stay _ ih => rw [locateFrom, if_pos rfl, ih]
  | up _ ih => rw [locateFrom, if_neg (by decide), if_pos rfl, ih]
  | vacant hname hnode =>
    rw [locateFrom, if_neg hname.notHere, if_neg hname.notUp, if_neg (Nat.not_lt.2 hname.short)]
    simp [hnode]
  | enter hname hnode _ ih =>
    rw [locateFrom, if_neg hname.notHere, if_neg hname.notUp, if_neg (Nat.not_lt.2 hname.short)]
    simp [hnode, ih]
  | file hname hnode =>
    rw [locateFrom, if_neg hname.notHere, if_neg hname.notUp, if_neg (Nat.not_lt.2 hname.short)]
    simp [hnode]
  | link hname hnode hlast =>
    rw [locateFrom, if_neg hname.notHere, if_neg hname.notUp, if_neg (Nat.not_lt.2 hname.short)]
    simp [hnode, hlast]
  | follow hname hnode hlast _ ih =>
    rw [locateFrom, if_neg hname.notHere, if_neg hname.notUp, if_neg (Nat.not_lt.2 hname.short)]
    simp only [hnode, hlast, ih]
    rfl

/-- A free name is free. -/
theorem Walk.node?_of_vacant {dir : List String} {name : String}
    (h : t.Walk followLast links here names (.vacant dir name)) :
    t.node? (dir ++ [name]) = none := by
  generalize hloc : Location.vacant dir name = loc at h
  induction h with
  | arrived => cases hloc
  | stay _ ih => exact ih hloc
  | up _ ih => exact ih hloc
  | vacant _ hnode =>
    cases hloc
    exact hnode
  | enter _ _ _ ih => exact ih hloc
  | file => cases hloc
  | link => cases hloc
  | follow _ _ _ _ ih => exact ih hloc

/-- A walk that does not arrive at a directory arrives by its last name. -/
theorem Walk.getLast?_usable (h : t.Walk followLast links here names loc)
    (hloc : ∀ dir, loc ≠ .found dir .directory) :
    ∃ name, names.getLast? = some name ∧ Usable name := by
  have later : ∀ {first : String} {rest : List String},
      (∃ name, rest.getLast? = some name ∧ Usable name) →
        ∃ name, (first :: rest).getLast? = some name ∧ Usable name := by
    rintro first rest ⟨name, hlast, hname⟩
    exact ⟨name, by rw [List.getLast?_cons, hlast]; rfl, hname⟩
  induction h with
  | arrived links here => exact absurd rfl (hloc here)
  | stay _ ih => exact later (ih hloc)
  | up _ ih => exact later (ih hloc)
  | vacant hname _ => exact ⟨_, rfl, hname⟩
  | enter _ _ _ ih => exact later (ih hloc)
  | file hname _ => exact ⟨_, rfl, hname⟩
  | link hname _ _ => exact ⟨_, rfl, hname⟩
  | @follow links here rest name target loc hname _ _ _ ih =>
    cases rest with
    | nil => exact ⟨name, rfl, hname⟩
    | cons next rest =>
      refine later ?_
      obtain ⟨last, hlast, hlastName⟩ := ih hloc
      rw [List.getLast?_append, List.getLast?_cons, Option.some_or] at hlast
      exact ⟨last, by rw [List.getLast?_cons, hlast], hlastName⟩

/-! ## Growing trees -/

/-- A tree with more entries, in which files may have other contents. -/
structure Grows (t t' : FileTree) : Prop where
  workDir : t'.workDir = t.workDir
  keeps : ∀ names n, t.node? names = some n → ∃ n', t'.node? names = some n' ∧ n.Keeps n'

theorem Grows.refl (t : FileTree) : t.Grows t := ⟨rfl, fun _ n h => ⟨n, h, .refl n⟩⟩

theorem Grows.trans {t t' t'' : FileTree} (h : t.Grows t') (h' : t'.Grows t'') : t.Grows t'' where
  workDir := h'.workDir.trans h.workDir
  keeps names n hn := by
    obtain ⟨n', hn', hkeeps⟩ := h.keeps names n hn
    obtain ⟨n'', hn'', hkeeps'⟩ := h'.keeps names n' hn'
    exact ⟨n'', hn'', hkeeps.trans hkeeps'⟩

/-- Where a walk arrives when entries are kept and a free name has become a file. -/
inductive Location.Becomes : Location → Location → Prop where
  | found {names : List String} {n n' : Node} : n.Keeps n' →
    Becomes (.found names n) (.found names n')
  | taken {dir : List String} {name : String} {contents : ByteArray} {executable : Bool} :
    Becomes (.vacant dir name) (.found (dir ++ [name]) (.file contents executable))

/-- **Walks still arrive in a tree that has grown**, if a free name where they arrived has become
a file. -/
theorem Walk.grows {t' : FileTree} (hgrows : t.Grows t')
    (h : t.Walk followLast links here names loc)
    (htaken : ∀ dir name, loc = .vacant dir name →
      ∃ contents executable, t'.node? (dir ++ [name]) = some (.file contents executable)) :
    ∃ loc', t'.Walk followLast links here names loc' ∧ loc.Becomes loc' := by
  induction h with
  | arrived links here => exact ⟨_, .arrived links here, .found .directory⟩
  | stay _ ih =>
    obtain ⟨loc', hwalk, hbecomes⟩ := ih htaken
    exact ⟨loc', .stay hwalk, hbecomes⟩
  | up _ ih =>
    obtain ⟨loc', hwalk, hbecomes⟩ := ih htaken
    exact ⟨loc', .up hwalk, hbecomes⟩
  | vacant hname _ =>
    obtain ⟨contents, executable, hnode⟩ := htaken _ _ rfl
    exact ⟨_, .file hname hnode, .taken⟩
  | enter hname hnode _ ih =>
    obtain ⟨n', hnode', hkeeps⟩ := hgrows.keeps _ _ hnode
    cases hkeeps
    obtain ⟨loc', hwalk, hbecomes⟩ := ih htaken
    exact ⟨loc', .enter hname hnode' hwalk, hbecomes⟩
  | file hname hnode =>
    obtain ⟨n', hnode', hkeeps⟩ := hgrows.keeps _ _ hnode
    cases hkeeps
    exact ⟨_, .file hname hnode', .found (.file ..)⟩
  | link hname hnode hlast =>
    obtain ⟨n', hnode', hkeeps⟩ := hgrows.keeps _ _ hnode
    cases hkeeps
    exact ⟨_, .link hname hnode' hlast, .found (.link _)⟩
  | follow hname hnode hlast _ ih =>
    obtain ⟨n', hnode', hkeeps⟩ := hgrows.keeps _ _ hnode
    cases hkeeps
    obtain ⟨loc', hwalk, hbecomes⟩ := ih htaken
    exact ⟨loc', .follow hname hnode' hlast hwalk, hbecomes⟩

end FileTree

end ShaderModules
