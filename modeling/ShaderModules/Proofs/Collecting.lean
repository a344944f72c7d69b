import Mathlib.Data.List.Nodup
import ShaderModules.Collection
import ShaderModules.Proofs.Fallible
import ShaderModules.Proofs.Path.Placed

/-!
# Candidates

The candidates of a run have different paths (`pairwise_candidates`). A candidate whose path ends in
a name has been found at a place below an input that ends in the same name (`below_of_collect`): it
is the bare name of an input file, or what follows the path of an input directory.

* `FileTree.exists_of_mem_listing`: what is listed for a path is found by going down from it.
* `Collection.foldl_take`, `Collection.gather_value`: what the loops over files and inputs come to.
* `Collection.collect_value`: collecting by the files that all inputs stand for.
-/

namespace ShaderModules

open ShaderModules.Path

/-! ## Listing directories -/

theorem FileTree.entryPath_eq_under {p : String} (hp : p ≠ "") (n : String) :
    entryPath p n = under p n := by
  unfold entryPath under
  simp [hp]

theorem Path.under_ne_empty {base : String} (h : base ≠ "") (p : String) : under base p ≠ "" := by
  unfold under
  split <;> simp [h]

theorem Path.under_under {n : String} (hn : n ≠ "") (base p : String) :
    under (under base n) p = under base (under n p) := by
  have hlast : ∀ a : String, (a ++ n).toList.getLast? = n.toList.getLast? := by
    intro a
    rw [String.toList_append, List.getLast?_append]
    cases h : n.toList.getLast? with
    | none => exact absurd (String.toList_eq_nil_iff.1 (List.getLast?_eq_none_iff.1 h)) hn
    | some c => rfl
  by_cases hbase : base.toList.getLast? = some '/'
  · simp only [under, hbase, if_true, hlast]
    split <;> simp [String.append_assoc]
  · simp only [under, hbase, if_false, hlast]
    split <;> simp [String.append_assoc]

/-- Whatever is put behind a path name by name is below it. -/
theorem Path.exists_foldl_under {names : List String} (hne : names ≠ []) (hnames : "" ∉ names)
    (base : String) : ∃ p, names.foldl under base = under base p := by
  induction names generalizing base with
  | nil => exact absurd rfl hne
  | cons n rest ih =>
    rw [List.mem_cons, not_or] at hnames
    cases rest with
    | nil => exact ⟨n, rfl⟩
    | cons m rest =>
      obtain ⟨p, hp⟩ := ih (List.cons_ne_nil m rest) hnames.2 (under base n)
      exact ⟨under n p, by rw [List.foldl_cons, hp, under_under (Ne.symm hnames.1)]⟩

namespace FileTree

/-- A name on the way to some entry of a tree. -/
def HasName (t : FileTree) (n : String) : Prop := ∃ e ∈ t.nodes, n ∈ e.1

variable {t : FileTree}

theorem hasName_of_mem_sortedNames {dir : List String} {n : Name} (h : n ∈ t.sortedNames dir) :
    t.HasName n.1 := by
  rw [sortedNames, List.mem_mergeSort, namesBelow] at h
  obtain ⟨e, he, hn⟩ := List.mem_filterMap.1 h
  unfold nameBelow? at hn
  split at hn
  · rename_i last hlast
    split at hn
    · cases hn
      exact ⟨e, he, List.mem_of_getLast? hlast⟩
    · cases hn
  · cases hn

theorem listing_of_none {p : String} (h : t.directory? p = none) : t.listing p = [p] := by
  rw [listing]
  split
  · rfl
  · rename_i hdir
    cases h.symm.trans hdir

theorem listing_of_directory? {p : String} {dir : List String} (h : t.directory? p = some dir) :
    t.listing p = (t.sortedNames dir).flatMap fun n => t.listing (entryPath p n.1) := by
  rw [listing]
  split
  · rename_i hnone
    cases h.symm.trans hnone
  · rename_i hdir
    cases h.symm.trans hdir
    rfl

/-- **What is listed for a path** is found by going down from it, name by name: no step for what is
no directory, and one at least for a directory. -/
theorem exists_of_mem_listing {q : String} (hq : q ≠ "") {p : String} (hp : p ∈ t.listing q) :
    ∃ names : List String, p = names.foldl under q ∧ (names = [] ↔ t.isDirectory q = false) ∧
      "" ∉ names ∧ ∀ n ∈ names, t.HasName n := by
  fun_induction listing t q with
  | case1 q hnone =>
    refine ⟨[], List.mem_singleton.1 hp, iff_of_true rfl ?_, List.not_mem_nil, nofun⟩
    rw [isDirectory, hnone]
    rfl
  | case2 q dir hdir ih =>
    obtain ⟨n, hn, hpn⟩ := List.mem_flatMap.1 hp
    have hentry := entryPath_eq_under hq n.1
    obtain ⟨names, rfl, -, hne, hnames⟩ := ih n (hentry ▸ under_ne_empty hq n.1) hpn
    refine ⟨n.1 :: names, by rw [hentry, List.foldl_cons], iff_of_false (List.cons_ne_nil _ _) ?_, ?_,
      List.forall_mem_cons.2 ⟨hasName_of_mem_sortedNames hn, hnames⟩⟩
    · rw [isDirectory, hdir]
      nofun
    · rw [List.mem_cons, not_or]
      exact ⟨Ne.symm n.2, hne⟩

/-- What is listed for a directory is below it. -/
theorem listing_of_isDirectory {q : String} (hq : q ≠ "") (hdir : t.isDirectory q = true)
    {p : String} (hp : p ∈ t.listing q) : ∃ s, p = under q s := by
  obtain ⟨names, rfl, hnil, hne, -⟩ := exists_of_mem_listing hq hp
  exact exists_foldl_under (fun h => by rw [hnil.1 h] at hdir; cases hdir) hne q

end FileTree

namespace Collection

/-! ## Where candidates are found -/

theorem isAbsolute_absolute (t : FileTree) (input : String) :
    isAbsolute (absolute t input) = true := by
  unfold absolute
  split
  · assumption
  · rename_i hrelative
    have hworkDir : isAbsolute (FileTree.pathOf t.workDir) = true := by
      simp [FileTree.pathOf, isAbsolute]
    have hne : FileTree.pathOf t.workDir ≠ "" := by simp [FileTree.pathOf]
    rw [isAbsolute_join hne (by simpa using hrelative), hworkDir]

variable {t : FileTree} {name : List Char} {input : String} {l : List Candidate} {f : Candidate}

/-- A file that an input stands for is the input itself, by its bare name, or is below it. -/
theorem mem_listingOf (habs : isAbsolute input = true) (h : listingOf t input = .ok l)
    (hf : f ∈ l) : f = ⟨input, (fileName? input).getD ""⟩ ∨
      ∃ q, f = ⟨under input q, (below? input (under input q)).getD (under input q)⟩ := by
  unfold listingOf at h
  split at h
  · rename_i hdir
    cases h
    obtain ⟨p, hp, rfl⟩ := List.mem_map.1 hf
    obtain ⟨q, rfl⟩ := FileTree.listing_of_isDirectory (ne_empty_of_isAbsolute habs) hdir hp
    exact .inr ⟨q, rfl⟩
  · split at h
    · cases h
      exact .inl (List.mem_singleton.1 hf)
    · cases h

theorem isAbsolute_of_listingOf (habs : isAbsolute input = true) (h : listingOf t input = .ok l)
    (hf : f ∈ l) : isAbsolute f.path = true := by
  rcases mem_listingOf habs h hf with rfl | ⟨q, rfl⟩
  · exact habs
  · exact (isAbsolute_under (ne_empty_of_isAbsolute habs) q).trans habs

/-- A file that an input stands for is placed by its bare name or below the input. -/
theorem below_of_listingOf (habs : isAbsolute input = true) (h : listingOf t input = .ok l)
    (hf : f ∈ l) (hname : EndsInName f.path name) : Below f.relative name := by
  have habs' := isAbsolute_of_listingOf habs h hf
  rcases mem_listingOf habs h hf with rfl | ⟨q, rfl⟩
  · obtain ⟨r, hr, hbelow⟩ := below_of_fileName hname habs
    simpa only [hr, Option.getD_some] using hbelow
  · obtain ⟨r, hr, hbelow, -⟩ := below_of_components hname habs' habs
      (components_under (ne_empty_of_isAbsolute habs) q) hname.steps_ne_nil
    simpa only [hr, Option.getD_some] using hbelow

theorem listingOf_file {input : String} {names : List String} {contents : ByteArray}
    {executable : Bool} (h : t.locate true input = .ok (.found names (.file contents executable))) :
    listingOf t input = .ok [⟨input, (fileName? input).getD ""⟩] := by
  have hdir : t.isDirectory input = false := by
    unfold FileTree.isDirectory FileTree.directory?
    rw [h]
    rfl
  have hfile : t.isFile input = true := by
    unfold FileTree.isFile FileTree.read
    rw [h]
    rfl
  unfold listingOf
  rw [hdir, hfile]
  rfl

/-- The files that the inputs stand for, in order. -/
def listings (t : FileTree) (inputs : List String) :
    Except ApplicationError (List Candidate) :=
  (inputs.mapM fun i => listingOf t (absolute t i)).map List.flatten

theorem listings_cons {inputs : List String} {rest : List Candidate}
    (h : listingOf t (absolute t input) = .ok l) (hrest : listings t inputs = .ok rest) :
    listings t (input :: inputs) = .ok (l ++ rest) := by
  obtain ⟨lists, hlists, rfl⟩ := Fallible.map_eq_ok_iff.1 hrest
  rw [listings, List.mapM_cons, h, hlists]
  rfl

/-! ## Different candidates -/

/-- The candidates without those whose path, by its components, is one of `seen` or comes
earlier. -/
def distinctFrom (seen : List (List Component)) : List Candidate → List Candidate
  | [] => []
  | c :: rest =>
    let key := components c.path
    if key ∈ seen then distinctFrom seen rest else c :: distinctFrom (key :: seen) rest

/-- The first candidate for each path. -/
def distinct (l : List Candidate) : List Candidate := distinctFrom [] l

/-- The selected files, each once, and the number of the others. -/
def select (s : Selector) (l : List Candidate) : Collected where
  candidates := distinct (l.filter fun c => s.selects c.path)
  skipped := l.countP fun c => !s.selects c.path

/-- Candidates with different paths. -/
def Apart (f g : Candidate) : Prop := components f.path ≠ components g.path

section

variable {seen : List (List Component)} {l : List Candidate} {f : Candidate}

theorem distinctFrom_cons_of_mem (h : components f.path ∈ seen) :
    distinctFrom seen (f :: l) = distinctFrom seen l := if_pos h

theorem distinctFrom_cons_of_notMem (h : components f.path ∉ seen) :
    distinctFrom seen (f :: l) = f :: distinctFrom (components f.path :: seen) l := if_neg h

theorem mem_of_mem_distinctFrom (hf : f ∈ distinctFrom seen l) :
    f ∈ l ∧ components f.path ∉ seen := by
  induction l generalizing seen with
  | nil => cases hf
  | cons c rest ih =>
    by_cases hc : components c.path ∈ seen
    · rw [distinctFrom_cons_of_mem hc] at hf
      exact ⟨List.mem_cons_of_mem c (ih hf).1, (ih hf).2⟩
    · rw [distinctFrom_cons_of_notMem hc] at hf
      rcases List.mem_cons.1 hf with rfl | hf
      · exact ⟨List.mem_cons_self, hc⟩
      · exact ⟨List.mem_cons_of_mem c (ih hf).1, fun h => (ih hf).2 (List.mem_cons_of_mem _ h)⟩

theorem pairwise_distinctFrom (seen : List (List Component)) (l : List Candidate) :
    (distinctFrom seen l).Pairwise Apart := by
  induction l generalizing seen with
  | nil => exact .nil
  | cons c rest ih =>
    by_cases hc : components c.path ∈ seen
    · rw [distinctFrom_cons_of_mem hc]
      exact ih seen
    · rw [distinctFrom_cons_of_notMem hc]
      refine .cons (fun f hf heq => ?_) (ih _)
      exact (mem_of_mem_distinctFrom hf).2 (heq ▸ List.mem_cons_self)

/-- Each path that is not one of `seen` is kept. -/
theorem exists_mem_distinctFrom (hf : f ∈ l) (hseen : components f.path ∉ seen) :
    ∃ g ∈ distinctFrom seen l, components g.path = components f.path := by
  induction l generalizing seen with
  | nil => cases hf
  | cons c rest ih =>
    by_cases hsame : components f.path = components c.path
    · rw [distinctFrom_cons_of_notMem (hsame ▸ hseen)]
      exact ⟨c, List.mem_cons_self, hsame.symm⟩
    · have hrest : f ∈ rest := by
        rcases List.mem_cons.1 hf with rfl | hrest
        · exact absurd rfl hsame
        · exact hrest
      by_cases hc : components c.path ∈ seen
      · rw [distinctFrom_cons_of_mem hc]
        exact ih hrest hseen
      · rw [distinctFrom_cons_of_notMem hc]
        obtain ⟨g, hg, heq⟩ := ih hrest (by rw [List.mem_cons, not_or]; exact ⟨hsame, hseen⟩)
        exact ⟨g, List.mem_cons_of_mem c hg, heq⟩

end

/-! ## Gathering -/

variable {s : Selector} {inputs : List String} {collected : Collected}

theorem take_of_not_selects (h : ¬s.selects f.path = true) (g : Gathered) :
    g.take s f = { g with skipped := g.skipped + 1 } := if_neg h

theorem take_of_seen {g : Gathered} (h : s.selects f.path = true)
    (hseen : components f.path ∈ g.seen) : g.take s f = g :=
  (if_pos h).trans (if_pos hseen)

theorem take_of_new {g : Gathered} (h : s.selects f.path = true)
    (hnew : components f.path ∉ g.seen) :
    g.take s f = ⟨g.candidates ++ [f], components f.path :: g.seen, g.skipped⟩ :=
  (if_pos h).trans (if_neg hnew)

/-- **Taking files** one after the other keeps the selected ones that are new, and counts the files
that are not selected. -/
theorem foldl_take (s : Selector) (l : List Candidate) (g : Gathered) :
    (l.foldl (Gathered.take s) g).candidates =
        g.candidates ++ distinctFrom g.seen (l.filter fun c => s.selects c.path) ∧
      (l.foldl (Gathered.take s) g).skipped =
        g.skipped + l.countP fun c => !s.selects c.path := by
  induction l generalizing g with
  | nil => exact ⟨(List.append_nil _).symm, rfl⟩
  | cons f l ih =>
    rw [List.foldl_cons, (ih _).1, (ih _).2]
    by_cases hselects : s.selects f.path = true
    · by_cases hseen : components f.path ∈ g.seen
      · simp [take_of_seen hselects hseen, hselects, distinctFrom_cons_of_mem hseen]
      · simp [take_of_new hselects hseen, hselects, distinctFrom_cons_of_notMem hseen]
    · rw [take_of_not_selects hselects]
      simp [hselects, Nat.add_assoc, Nat.add_comm 1]

/-- The next input gives its files, and is an error if it is missing. -/
theorem gather_cons (t : FileTree) (s : Selector) (g : Gathered) (i : String)
    (rest : List String) : (gather t s g (i :: rest)).value =
      (listingOf t (absolute t i)).bind fun files =>
        (gather t s (files.foldl (Gathered.take s) g) rest).value := by
  rw [gather.eq_def]
  dsimp only
  cases listingOf t (absolute t i) with
  | error e => rfl
  | ok files =>
    dsimp only
    split <;> rfl

/-- **Gathering goes through all files** of the inputs if no input is missing. -/
theorem gather_value (t : FileTree) (s : Selector) (inputs : List String) (g : Gathered) :
    (gather t s g inputs).value =
      (listings t inputs).map fun l => l.foldl (Gathered.take s) g := by
  induction inputs generalizing g with
  | nil => rfl
  | cons i rest ih =>
    rw [gather_cons, listings, List.mapM_cons]
    cases listingOf t (absolute t i) with
    | error e => rfl
    | ok files =>
      dsimp only [Except.bind]
      rw [ih, listings]
      cases rest.mapM fun i => listingOf t (absolute t i) with
      | error e => rfl
      | ok lists => exact congrArg Except.ok List.foldl_append.symm

theorem collect_value (t : FileTree) (s : Selector) (inputs : List String) :
    (collect t s inputs).value = (listings t inputs).map (select s) := by
  rw [collect, Logged.value_bind, gather_value]
  cases listings t inputs with
  | error e => rfl
  | ok l =>
    obtain ⟨hcandidates, hskipped⟩ := foldl_take s l {}
    exact congrArg Except.ok (congrArg₂ Collected.mk hcandidates (hskipped.trans (Nat.zero_add _)))

theorem exists_of_collect (h : (collect t s inputs).value = .ok collected) :
    ∃ l, listings t inputs = .ok l ∧
      collected.candidates = distinct (l.filter fun c => s.selects c.path) := by
  rw [collect_value] at h
  cases hl : listings t inputs with
  | error e => rw [hl] at h; cases h
  | ok l =>
    rw [hl] at h
    cases h
    exact ⟨l, rfl, rfl⟩

/-- **No two candidates have the same path.** -/
theorem pairwise_candidates (h : (collect t s inputs).value = .ok collected) :
    collected.candidates.Pairwise Apart := by
  obtain ⟨l, -, hcandidates⟩ := exists_of_collect h
  rw [hcandidates]
  exact pairwise_distinctFrom [] _

/-- **Each selected file has one candidate with its path.** -/
theorem existsUnique_candidate (h : (collect t s inputs).value = .ok collected)
    (hl : listings t inputs = .ok l) (hf : f ∈ l) (hselects : s.selects f.path = true) :
    ∃! g, g ∈ collected.candidates ∧ components g.path = components f.path := by
  obtain ⟨l', hl', hcandidates⟩ := exists_of_collect h
  cases hl.symm.trans hl'
  have hmem : f ∈ l.filter fun c => s.selects c.path := List.mem_filter.2 ⟨hf, hselects⟩
  obtain ⟨g, hg, hsame⟩ : ∃ g ∈ distinct (l.filter fun c => s.selects c.path),
      components g.path = components f.path := exists_mem_distinctFrom hmem List.not_mem_nil
  rw [← hcandidates] at hg
  refine ⟨g, ⟨hg, hsame⟩, ?_⟩
  rintro g' ⟨hg', hsame'⟩
  have hnodup : (collected.candidates.map fun c => components c.path).Nodup :=
    List.pairwise_map.2 (pairwise_candidates h)
  exact List.inj_on_of_nodup_map hnodup hg' hg (hsame'.trans hsame.symm)

/-- **Candidates are selected.** -/
theorem selects_of_collect (h : (collect t s inputs).value = .ok collected) {f : Candidate}
    (hf : f ∈ collected.candidates) : s.selects f.path = true := by
  obtain ⟨l, -, hcandidates⟩ := exists_of_collect h
  rw [hcandidates] at hf
  exact (List.mem_filter.1 (mem_of_mem_distinctFrom hf).1).2

/-- A candidate has been found for an input. -/
theorem exists_input_of_mem (h : (collect t s inputs).value = .ok collected) {f : Candidate}
    (hf : f ∈ collected.candidates) :
    ∃ input ∈ inputs, ∃ l, listingOf t (absolute t input) = .ok l ∧ f ∈ l := by
  obtain ⟨l, hl, hcandidates⟩ := exists_of_collect h
  rw [hcandidates] at hf
  have hmem : f ∈ l := (List.mem_filter.1 (mem_of_mem_distinctFrom hf).1).1
  unfold listings at hl
  cases hlists : inputs.mapM fun i => listingOf t (absolute t i) with
  | error e => rw [hlists] at hl; cases hl
  | ok lists =>
    rw [hlists] at hl
    cases hl
    obtain ⟨found, hfound, hf⟩ := List.mem_flatten.1 hmem
    obtain ⟨input, hmem, hinput⟩ := Fallible.exists_of_mem_mapM hlists hfound
    exact ⟨input, hmem, found, hinput, hf⟩

/-- Candidates have absolute paths. -/
theorem isAbsolute_of_collect (h : (collect t s inputs).value = .ok collected) {f : Candidate}
    (hf : f ∈ collected.candidates) : isAbsolute f.path = true := by
  obtain ⟨input, -, l, hinput, hmem⟩ := exists_input_of_mem h hf
  exact isAbsolute_of_listingOf (isAbsolute_absolute t input) hinput hmem

/-- **A candidate is placed** below an input or by its bare name. -/
theorem below_of_collect (h : (collect t s inputs).value = .ok collected) {f : Candidate}
    (hf : f ∈ collected.candidates) (hname : EndsInName f.path name) : Below f.relative name := by
  obtain ⟨input, -, l, hinput, hmem⟩ := exists_input_of_mem h hf
  exact below_of_listingOf (isAbsolute_absolute t input) hinput hmem hname

end Collection

end ShaderModules
