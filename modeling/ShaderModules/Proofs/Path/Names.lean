import ShaderModules.Proofs.Path.Placed

/-!
# Paths made of names

Names put together with slashes make a relative path (`Path.ofNames`). Its segments are the names
again (`segments_ofNames`), and behind a directory it is what is cut out as the path below that
directory, letter by letter (`below?_under`).

* `Path.IsName`: what may be the name of an entry.
* `Path.named`: names as components (`components_join_ofNames`, `components_slash_ofNames`).
* `IsName.append`: text without a slash behind a name makes a name.
-/

namespace ShaderModules.Path

/-! ## Names -/

/-- A text that can be the name of an entry: it is not empty, it is neither `.` nor `..`, and it has
no slash. -/
structure IsName (n : String) : Prop where
  isSegment : ofSegment? n.toList = some (.name n.toList)
  noSlash : '/' ∉ n.toList

theorem isName_iff {n : String} :
    IsName n ↔ (n ≠ "" ∧ n ≠ "." ∧ n ≠ "..") ∧ '/' ∉ n.toList := by
  have htext : ∀ {s : String}, n.toList = s.toList ↔ n = s := String.toList_inj
  constructor
  · rintro ⟨hsegment, hslash⟩
    obtain ⟨hnil, hhere, hup⟩ := ne_of_isName hsegment
    exact ⟨⟨fun h => hnil (htext.2 h), fun h => hhere (htext.2 h), fun h => hup (htext.2 h)⟩, hslash⟩
  · rintro ⟨⟨hnil, hhere, hup⟩, hslash⟩
    exact ⟨ofSegment?_eq_name (fun h => hnil (htext.1 h)) (fun h => hhere (htext.1 h))
      fun h => hup (htext.1 h), hslash⟩

instance (n : String) : Decidable (IsName n) := decidable_of_iff _ isName_iff.symm

/-- Text without a slash behind a name makes a name. -/
theorem IsName.append {n : String} (h : IsName n) {e : String} (he : '/' ∉ e.toList) :
    IsName (n ++ e) := by
  refine ⟨?_, ?_⟩
  · rw [String.toList_append]
    exact isName_append h.isSegment e.toList
  · rw [String.toList_append, List.mem_append, not_or]
    exact ⟨h.noSlash, he⟩

theorem EndsInName.isName_ofList {p : String} {name : List Char} (h : EndsInName p name) :
    IsName (String.ofList name) := by
  refine ⟨?_, ?_⟩
  · rw [String.toList_ofList]
    exact h.isName
  · rw [String.toList_ofList]
    exact h.notMem

/-! ## Paths of names -/

/-- Names as components. -/
def named (names : List String) : List Component := names.map fun n => .name n.toList

theorem notUp_named (names : List String) : .up ∉ named names := by
  simp [named]

/-- The relative path of names, each below the one before. -/
def ofNames (names : List String) : String := "/".intercalate names

theorem ofNames_cons {n : String} {names : List String} (hne : names ≠ []) :
    ofNames (n :: names) = n ++ "/" ++ ofNames names := by
  obtain ⟨m, rest, rfl⟩ := List.exists_cons_of_ne_nil hne
  exact String.intercalate_cons_cons

/-- Text behind a path of names is text behind the last of them. -/
theorem ofNames_append (init : List String) (last e : String) :
    ofNames (init ++ [last]) ++ e = ofNames (init ++ [last ++ e]) := by
  induction init with
  | nil => rfl
  | cons n init ih =>
    rw [List.cons_append, List.cons_append, ofNames_cons (by simp), ofNames_cons (by simp), ← ih]
    simp only [String.append_assoc]

/-- Text behind a joined path is text behind its second part. -/
theorem join_append {p : String} (hp : p ≠ "") (base e : String) :
    join base p ++ e = join base (p ++ e) := by
  unfold join
  rw [isAbsolute_append hp]
  split
  · rfl
  · split <;> simp only [String.append_assoc]

theorem eq_of_segments_eq {p q : String}
    (h : segments p.toList = segments q.toList) : p = q := by
  rw [segments_eq_splitOn, segments_eq_splitOn] at h
  have hjoined := congrArg ['/'].intercalate h
  rw [List.intercalate_splitOn, List.intercalate_splitOn] at hjoined
  exact String.toList_inj.1 hjoined

/-- Of two lists of which one ends the other, with the same components, the longer one has nothing
more if it starts with a component. -/
theorem eq_of_components_eq {more l : List (List Char)} {s : List Char} {back : List (List Char)}
    {c : Component} (h : s :: back = more ++ l) (hs : ofSegment? s = some c)
    (hsame : (s :: back).filterMap ofSegment? = l.filterMap ofSegment?) : s :: back = l := by
  cases more with
  | nil => exact h
  | cons first more =>
    obtain ⟨rfl, -⟩ := List.cons.inj h
    rw [h, List.filterMap_append, List.filterMap_cons_some hs] at hsame
    exact absurd (List.append_left_eq_self.1 hsame) (List.cons_ne_nil _ _)

section

variable {names : List String} (hnames : ∀ n ∈ names, IsName n)
include hnames

theorem segments_ofNames (hne : names ≠ []) :
    segments (ofNames names).toList = names.map String.toList := by
  rw [segments_eq_splitOn, ofNames, String.toList_intercalate]
  refine List.splitOn_intercalate '/' (fun s hs => ?_) (by simpa using hne)
  obtain ⟨n, hn, rfl⟩ := List.mem_map.1 hs
  exact (hnames n hn).noSlash

theorem ofNames_ne_empty (hne : names ≠ []) : ofNames names ≠ "" := by
  intro h
  obtain ⟨n, rest, rfl⟩ := List.exists_cons_of_ne_nil hne
  have hsegments := segments_ofNames hnames hne
  rw [h, List.map_cons] at hsegments
  have hn := (ne_of_isName (hnames n List.mem_cons_self).isSegment).1
  exact hn (List.cons.inj hsegments).1.symm

/-- Names are components as they are. -/
theorem filterMap_names : (names.map String.toList).filterMap ofSegment? = named names := by
  induction names with
  | nil => rfl
  | cons n names ih =>
    obtain ⟨hn, hrest⟩ := List.forall_mem_cons.1 hnames
    rw [List.map_cons, List.filterMap_cons_some hn.isSegment, ih hrest]
    rfl

theorem steps_ofNames : steps (ofNames names) = named names := by
  by_cases hne : names = []
  · subst hne
    rfl
  · rw [steps, segments_ofNames hnames hne, filterMap_names hnames]

/-- Behind a slash, the path of names leads down from the root. -/
theorem components_slash_ofNames : components ("/" ++ ofNames names) = .root :: named names := by
  have habs : isAbsolute ("/" ++ ofNames names) = true := by simp [isAbsolute]
  have hlist : ("/" ++ ofNames names).toList = '/' :: (ofNames names).toList := by
    rw [String.toList_append]
    rfl
  rw [components_of_isAbsolute habs, steps, hlist, segments_slash, List.filterMap_cons_none rfl]
  exact congrArg (Component.root :: ·) (steps_ofNames hnames)

/-- The path of names ends in the last of them. -/
theorem below_ofNames (hne : names ≠ []) : Below (ofNames names) (names.getLast hne).toList := by
  obtain ⟨n, rest, rfl⟩ := List.exists_cons_of_ne_nil hne
  have hsegments := segments_ofNames hnames hne
  have hends : (n.toList :: rest.map String.toList).getLast? =
      some ((n :: rest).getLast hne).toList := by
    rw [← List.map_cons, List.getLast?_map, List.getLast?_eq_some_getLast hne]
    rfl
  exact (below_of_segments hsegments (hnames n List.mem_cons_self).isSegment hends
    (hnames _ (List.getLast_mem hne)).isSegment).1

/-- **Below a directory**, the components of a path of names are the names. -/
theorem components_join_ofNames (hne : names ≠ []) (dir : String) :
    components (join dir (ofNames names)) = components dir ++ named names := by
  have hbelow := below_ofNames hnames hne
  by_cases hdir : dir = ""
  · have hempty : components "" = [] := by decide
    have hjoin : join "" (ofNames names) = ofNames names := by simp [join]
    rw [hdir, hjoin, hempty, List.nil_append, hbelow.bare, steps_ofNames hnames]
  · rw [join_eq_under hdir hbelow.relative, components_under hdir, steps_ofNames hnames]

/-- **The path below a directory** is what was put behind it. -/
theorem below?_under {base : String} (hbase : isAbsolute base = true) (hne : names ≠ []) :
    below? base (under base (ofNames names)) = some (ofNames names) := by
  have hbelow := below_ofNames hnames hne
  have hbaseNe := ne_empty_of_isAbsolute hbase
  have hends : EndsInName (under base (ofNames names)) (names.getLast hne).toList :=
    join_eq_under hbaseNe hbelow.relative ▸ hbelow.endsInName_join base
  have habs : isAbsolute (under base (ofNames names)) = true :=
    (isAbsolute_under hbaseNe _).trans hbase
  have htail : components (under base (ofNames names)) = components base ++ named names := by
    rw [components_under hbaseNe, steps_ofNames hnames]
  obtain ⟨q, front, s, back, c, hcut, hsegments, hq, hs, hnamed⟩ :=
    exists_of_below hends habs hbase htail (by simpa [named] using hne)
  obtain ⟨first, more, hunder, -⟩ := segments_under base (ofNames names)
  have hlist := segments_ofNames hnames hne
  rw [hunder, ← List.cons_append, hlist] at hsegments
  have hsame : (s :: back).filterMap ofSegment? = (names.map String.toList).filterMap ofSegment? := by
    rw [List.filterMap_cons_some hs, ← hnamed, filterMap_names hnames]
  -- the names and what is cut out both end the segments of the path, and both start with a component
  have hcutNames : s :: back = names.map String.toList := by
    obtain ⟨n, rest, rfl⟩ := List.exists_cons_of_ne_nil hne
    rcases List.append_eq_append_iff.1 hsegments with ⟨between, -, h⟩ | ⟨between, -, h⟩
    · exact (eq_of_components_eq h (hnames n List.mem_cons_self).isSegment hsame.symm).symm
    · exact eq_of_components_eq h hs hsame
  rw [hcut, eq_of_segments_eq (hq.trans (hcutNames.trans hlist.symm))]

end

/-- Text behind a path of names below a directory extends the last of the names. -/
theorem components_join_append {init : List String} {last e : String}
    (hnames : ∀ n ∈ init ++ [last], IsName n) (he : '/' ∉ e.toList) (dir : String) :
    components (join dir (ofNames (init ++ [last])) ++ e) =
      components dir ++ named (init ++ [last ++ e]) := by
  obtain ⟨hinit, hlast⟩ := List.forall_mem_append.1 hnames
  have hextended : ∀ n ∈ init ++ [last ++ e], IsName n := List.forall_mem_append.2
    ⟨hinit, List.forall_mem_singleton.2 ((hlast last List.mem_cons_self).append he)⟩
  rw [join_append (ofNames_ne_empty hnames (by simp)), ofNames_append,
    components_join_ofNames hextended (by simp)]

end ShaderModules.Path
