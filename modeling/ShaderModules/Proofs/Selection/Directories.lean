import ShaderModules.Proofs.Glob.Wildcards
import ShaderModules.Proofs.Selection.Respelling

/-!
# Patterns for a directory

A pattern of a directory with a star and an ending behind it matches what lies directly in the
directory and has a name with this ending. With two stars behind it, it matches whatever lies below
the directory, but neither the directory nor what is beside it (`selects_directory`). The pattern
and the paths have the same normal form of the directory in front of them, in which nothing means
anything in a pattern.

* `segments_absoluteText`: the names of a normal form are its segments.
* `Selector.LiesBelow`: a path below a directory, by the names that lead down to it.
-/

namespace ShaderModules.Selector

open Glob ShaderModules.Path

/-! ## Texts of names -/

theorem segments_slashed {names : List (List Char)} (h : ∀ n ∈ names, '/' ∉ n) :
    segments (slashed names) = [] :: names := by
  induction names with
  | nil => rfl
  | cons n names ih =>
    obtain ⟨hn, hnames⟩ := List.forall_mem_cons.1 h
    rw [slashed_cons, segments_slash]
    refine congrArg ([] :: ·) ?_
    cases names with
    | nil => rw [slashed_nil, List.append_nil, segments_of_notMem hn]
    | cons m names =>
      have hrest := ih hnames
      rw [slashed_cons, segments_slash] at hrest
      rw [slashed_cons, segments_append_slash, segments_of_notMem hn, (List.cons.inj hrest).2]
      rfl

/-- The names of a normal form are its segments; without any there is an empty one. -/
theorem segments_absoluteText {names : List (List Char)} (h : ∀ n ∈ names, '/' ∉ n) :
    segments (absoluteText names) = [] :: if names = [] then [[]] else names := by
  by_cases hnames : names = []
  · subst hnames
    rfl
  · rw [absoluteText_of_ne_nil hnames, segments_slashed h, if_neg hnames]

/-- A normal form that starts with the text of names and goes on behind a slash goes on with the
segments of what is there. -/
theorem eq_append_of_absoluteText {names m : List (List Char)} (hnames : ∀ n ∈ names, '/' ∉ n)
    (hm : ∀ n ∈ m, '/' ∉ n) (hne : names ≠ []) {r : List Char}
    (h : absoluteText m = slashed names ++ '/' :: r) : m = names ++ segments r := by
  have hsegments := congrArg segments h
  rw [segments_absoluteText hm, segments_append_slash, segments_slashed hnames, List.cons_append]
    at hsegments
  have hrest := (List.cons.inj hsegments).2
  split at hrest
  · -- the slash alone has one segment behind it, but there are a name and a segment
    have hlength := congrArg List.length hrest
    have hpos := List.length_pos_iff.2 hne
    have hpos' := List.length_pos_iff.2 (segments_ne_nil r)
    rw [List.length_append, List.length_singleton] at hlength
    omega
  · exact hrest

/-! ## Names of patterns and paths -/

variable {root dir : String}

theorem notMem_of_mem_namesIn {path : String} {n : List Char} (h : n ∈ namesIn (join root path)) :
    '/' ∉ n := by
  have hname : IsName (String.ofList n) := isName_of_mem_remaining (List.mem_map_of_mem h)
  simpa using hname.noSlash

/-- The characters of the names that remain of a path stand in the path. -/
theorem mem_of_mem_namesIn {p : String} {n : List Char} (h : n ∈ namesIn p) {c : Char}
    (hc : c ∈ n) : c ∈ p.toList := by
  rw [namesIn, foldNames_components] at h
  have hall : ∀ n ∈ foldNames [] (steps p), ∀ c ∈ n, c ∈ p.toList := by
    refine forall_mem_foldNames (by simp) fun n hn c hc => ?_
    obtain ⟨s, hs, hsegment⟩ := List.mem_filterMap.1 hn
    exact (mem_of_mem_segments hs (eq_of_ofSegment? hsegment ▸ hc)).1
  exact hall n h c hc

theorem toList_normalize_join (hroot : isAbsolute root = true) (path : String) :
    (normalize root path).toList = absoluteText (namesIn (join root path)) := by
  rw [normalize_eq_slash hroot, String.toList_append, ofNames, String.toList_intercalate, remaining,
    List.map_map]
  simp [absoluteText]

/-- A name behind a directory that is taken relative to the root adds itself to the names. -/
theorem namesIn_join_directory (hdir : isAbsolute dir = false) {n : String}
    (hn : ofSegment? n.toList = some (.name n.toList)) (hslash : '/' ∉ n.toList) (root : String) :
    namesIn (join root ("./" ++ dir ++ "/" ++ n)) = namesIn (join root dir) ++ [n.toList] := by
  have hlist : ("./" ++ dir ++ "/" ++ n).toList =
      ['.'] ++ '/' :: (dir.toList ++ '/' :: n.toList) := by simp
  have hrelative : isAbsolute ("./" ++ dir ++ "/" ++ n) = false := by simp [isAbsolute, hlist]
  have hsteps : steps ("./" ++ dir ++ "/" ++ n) = steps dir ++ [.name n.toList] := by
    rw [steps, hlist, segments_append_slash, segments_append_slash, segments_of_notMem hslash,
      List.filterMap_append, List.filterMap_append, List.filterMap_cons_some hn]
    rfl
  rw [namesIn_join_eq, namesIn_join_eq, startOf, startOf, hrelative, hdir, hsteps, foldNames_append]
  simp [foldNames]

/-- A pattern for a directory, as it is matched. -/
theorem toList_anchor_directory (hroot : isAbsolute root = true) (hdir : isAbsolute dir = false)
    {n : String} (hn : ofSegment? n.toList = some (.name n.toList)) (hslash : '/' ∉ n.toList) :
    (anchor root ("./" ++ dir ++ "/" ++ n)).toList =
      slashed (namesIn (join root dir)) ++ '/' :: n.toList := by
  rw [anchor, if_neg (by simp [isAbsolute]), toList_normalize_join hroot,
    namesIn_join_directory hdir hn hslash, absoluteText_append _ (by simp)]
  simp

/-! ## What lies below a directory -/

/-- A path lies below a directory: from there, the names lead down to it. -/
def LiesBelow (root dir path : String) (names : List String) : Prop :=
  (∀ n ∈ names, IsName n) ∧ normalize root path = normalize root dir ++ "/" ++ ofNames names

/-- A directory that is taken relative to a root, both of which mean nothing in a pattern. -/
structure PlainDirectory (root dir : String) : Prop where
  isAbsolute : isAbsolute root = true
  relative : Path.isAbsolute dir = false
  plain : ∀ c ∈ root.toList ++ dir.toList, c ∉ wildcards
  notRoot : normalize root dir ≠ "/"

namespace PlainDirectory

variable (h : PlainDirectory root dir)
include h

theorem namesIn_ne_nil : namesIn (join root dir) ≠ [] := by
  intro hnil
  refine h.notRoot (String.toList_inj.1 ?_)
  rw [toList_normalize_join h.isAbsolute, hnil]
  rfl

theorem toList_normalize : (normalize root dir).toList = slashed (namesIn (join root dir)) := by
  rw [toList_normalize_join h.isAbsolute, absoluteText_of_ne_nil h.namesIn_ne_nil]

/-- The normal form of the directory means nothing in a pattern. -/
theorem plain_slashed : ∀ c ∈ slashed (namesIn (join root dir)), c ∉ wildcards := by
  have hjoin : ∀ c ∈ (join root dir).toList, c ∉ wildcards := by
    rw [join_eq_under (ne_empty_of_isAbsolute h.isAbsolute) h.relative, under]
    have hplain := List.forall_mem_append.1 h.plain
    split <;> simp only [String.toList_append, List.forall_mem_append]
    · exact hplain
    · exact ⟨⟨hplain.1, plain_of_all (by decide)⟩, hplain.2⟩
  intro c hc
  obtain ⟨n, hn, hc⟩ := List.mem_flatMap.1 hc
  rcases List.mem_cons.1 hc with rfl | hc
  · decide
  · exact hjoin c (mem_of_mem_namesIn hn hc)

/-- What a normal form says behind the directory and a slash are the names that lead down. -/
theorem exists_liesBelow {path : String} {r : List Char}
    (hpath : (normalize root path).toList = slashed (namesIn (join root dir)) ++ '/' :: r) :
    LiesBelow root dir path ((segments r).map String.ofList) := by
  have hnames := eq_append_of_absoluteText (fun _ => notMem_of_mem_namesIn)
    (fun _ => notMem_of_mem_namesIn) h.namesIn_ne_nil
    ((toList_normalize_join h.isAbsolute path).symm.trans hpath)
  refine ⟨fun n hn => ?_, String.toList_inj.1 ?_⟩
  · obtain ⟨s, hs, rfl⟩ := List.mem_map.1 hn
    have hmem : s ∈ namesIn (join root path) := by
      rw [hnames]
      exact List.mem_append_right _ hs
    exact isName_of_mem_remaining (List.mem_map_of_mem hmem)
  · have hjoined : (ofNames ((segments r).map String.ofList)).toList = r := by
      rw [ofNames, String.toList_intercalate, List.map_map, segments_eq_splitOn]
      simp
    rw [hpath, String.toList_append, String.toList_append, h.toList_normalize, hjoined,
      List.append_assoc]
    rfl

theorem toList_normalize_of_liesBelow {path : String} {names : List String}
    (hbelow : LiesBelow root dir path names) : (normalize root path).toList =
      slashed (namesIn (join root dir)) ++ '/' :: (ofNames names).toList := by
  rw [hbelow.2, String.toList_append, String.toList_append, h.toList_normalize, List.append_assoc]
  rfl

theorem toList_anchor_star {ending : String} (hslash : '/' ∉ ending.toList) :
    (anchor root ("./" ++ dir ++ "/*" ++ ending)).toList =
      (slashed (namesIn (join root dir)) ++ ['/']) ++ '*' :: ending.toList := by
  have hname : IsName ("*" ++ ending) := IsName.append (by decide) hslash
  have hpattern : "./" ++ dir ++ "/*" ++ ending = "./" ++ dir ++ "/" ++ ("*" ++ ending) :=
    String.toList_inj.1 (by simp)
  rw [hpattern, toList_anchor_directory h.isAbsolute h.relative hname.isSegment hname.noSlash]
  simp

theorem toList_anchor_tree : (anchor root ("./" ++ dir ++ "/**")).toList =
    slashed (namesIn (join root dir)) ++ ['/', '*', '*'] := by
  have hname : IsName "**" := by decide
  have hpattern : "./" ++ dir ++ "/**" = "./" ++ dir ++ "/" ++ "**" :=
    String.toList_inj.1 (by simp)
  rw [hpattern, toList_anchor_directory h.isAbsolute h.relative hname.isSegment hname.noSlash]
  rfl

theorem plain_slashed_slash : ∀ c ∈ slashed (namesIn (join root dir)) ++ ['/'], c ∉ wildcards :=
  List.forall_mem_append.2 ⟨h.plain_slashed, plain_of_all (by decide)⟩

theorem parse_star_isOk {ending : String} (hslash : '/' ∉ ending.toList)
    (hending : ∀ c ∈ ending.toList, c ∉ wildcards) :
    (parse (anchor root ("./" ++ dir ++ "/*" ++ ending))).isOk = true := by
  rw [← String.ofList_toList (s := anchor root _), h.toList_anchor_star hslash,
    parse_star h.plain_slashed_slash hending]
  rfl

theorem parse_tree_isOk : (parse (anchor root ("./" ++ dir ++ "/**"))).isOk = true := by
  rw [← String.ofList_toList (s := anchor root _), h.toList_anchor_tree, parse_tree h.plain_slashed]
  rfl

/-- **A star behind a directory** matches what lies directly in it and has the ending. -/
theorem matchesAt_star {ending : String} (hslash : '/' ∉ ending.toList)
    (hending : ∀ c ∈ ending.toList, c ∉ wildcards) {path : String} :
    matchesAt root ("./" ++ dir ++ "/*" ++ ending) path = true ↔
      ∃ name, ending.toList <:+ name.toList ∧ LiesBelow root dir path [name] := by
  rw [matchesAt, h.toList_anchor_star hslash, accepts_star h.plain_slashed_slash hending]
  constructor
  · rintro ⟨n, hn, hpath⟩
    have hname : '/' ∉ n ++ ending.toList := by simp [hn, hslash]
    rw [List.append_assoc, List.singleton_append] at hpath
    have hbelow := h.exists_liesBelow hpath
    rw [segments_of_notMem hname] at hbelow
    refine ⟨String.ofList (n ++ ending.toList), ?_, hbelow⟩
    rw [String.toList_ofList]
    exact List.suffix_append _ _
  · rintro ⟨name, ⟨n, hn⟩, hbelow⟩
    have hname : '/' ∉ name.toList := (List.forall_mem_singleton.1 hbelow.1).noSlash
    rw [← hn, List.mem_append, not_or] at hname
    refine ⟨n, hname.1, ?_⟩
    rw [h.toList_normalize_of_liesBelow hbelow, hn, List.append_assoc]
    rfl

/-- **Two stars behind a directory** match what lies below it. -/
theorem matchesAt_tree {path : String} :
    matchesAt root ("./" ++ dir ++ "/**") path = true ↔
      ∃ names, names ≠ [] ∧ LiesBelow root dir path names := by
  rw [matchesAt, h.toList_anchor_tree, accepts_tree h.plain_slashed]
  constructor
  · rintro ⟨r, hr⟩
    rw [List.append_assoc, List.singleton_append] at hr
    exact ⟨_, by simpa using segments_ne_nil r, h.exists_liesBelow hr.symm⟩
  · rintro ⟨names, -, hbelow⟩
    rw [h.toList_normalize_of_liesBelow hbelow]
    exact ⟨(ofNames names).toList, by simp⟩

end PlainDirectory

/-! ## Selectors -/

variable {included excluded : Patterns} {s : Selector} {pattern : String}

/-- One include pattern in place of none selects what it matches of what was selected. -/
theorem exists_build_included (hs : build root [] excluded = .ok s)
    (hpattern : (parse (anchor root pattern)).isOk = true) :
    ∃ s', build root [pattern] excluded = .ok s' ∧ ∀ path, s'.selects path = true ↔
      s.selects path = true ∧ matchesAt root pattern path = true := by
  have hok := exists_build_iff.1 ⟨s, hs⟩
  obtain ⟨s', hs'⟩ : ∃ s', build root [pattern] excluded = .ok s' :=
    exists_build_iff.2 (List.forall_mem_cons.2 ⟨hpattern, hok⟩)
  refine ⟨s', hs', fun path => ?_⟩
  rw [selects_of_build hs, selects_of_build hs']
  simp [and_comm]

/-- One more exclude pattern takes away what it matches. -/
theorem exists_build_excluded (hs : build root included excluded = .ok s)
    (hpattern : (parse (anchor root pattern)).isOk = true) :
    ∃ s', build root included (pattern :: excluded) = .ok s' ∧ ∀ path, s'.selects path = true ↔
      s.selects path = true ∧ ¬ matchesAt root pattern path = true := by
  obtain ⟨hincluded, hexcluded⟩ := List.forall_mem_append.1 (exists_build_iff.1 ⟨s, hs⟩)
  obtain ⟨s', hs'⟩ : ∃ s', build root included (pattern :: excluded) = .ok s' :=
    exists_build_iff.2 (List.forall_mem_append.2
      ⟨hincluded, List.forall_mem_cons.2 ⟨hpattern, hexcluded⟩⟩)
  refine ⟨s', hs', fun path => ?_⟩
  rw [selects_of_build hs, selects_of_build hs']
  simp only [List.any_cons, Bool.not_or, Bool.and_eq_true, Bool.not_eq_true', Bool.not_eq_true]
  tauto

/-- **Patterns for a directory** cover what they name. As the only include pattern, the directory
with a star and an ending selects, of what is not excluded, exactly what lies directly in the
directory and has a name with that ending. As one more exclude pattern, the directory with two stars
takes away exactly what lies below the directory, by one name or more. -/
theorem selects_directory {root dir ending : String} (hroot : isAbsolute root = true)
    (hdir : isAbsolute dir = false) (hslash : '/' ∉ ending.toList)
    (hplain : ∀ c ∈ root.toList ++ dir.toList ++ ending.toList, c ∉ wildcards)
    (hnotRoot : normalize root dir ≠ "/") :
    (∀ excluded s, build root [] excluded = .ok s →
      ∃ s', build root ["./" ++ dir ++ "/*" ++ ending] excluded = .ok s' ∧
        ∀ path, s'.selects path = true ↔ s.selects path = true ∧
          ∃ name, ending.toList <:+ name.toList ∧ LiesBelow root dir path [name]) ∧
    (∀ included excluded s, build root included excluded = .ok s →
      ∃ s', build root included (("./" ++ dir ++ "/**") :: excluded) = .ok s' ∧
        ∀ path, s'.selects path = true ↔ s.selects path = true ∧
          ¬ ∃ names, names ≠ [] ∧ LiesBelow root dir path names) := by
  obtain ⟨hdirectory, hending⟩ := List.forall_mem_append.1 hplain
  have h : PlainDirectory root dir := ⟨hroot, hdir, hdirectory, hnotRoot⟩
  constructor
  · intro excluded s hs
    simp only [← h.matchesAt_star hslash hending]
    exact exists_build_included hs (h.parse_star_isOk hslash hending)
  · intro included excluded s hs
    simp only [← h.matchesAt_tree]
    exact exists_build_excluded hs h.parse_tree_isOk

/-- A directory that is spelled with a detour: a shader in it is selected, and one in a directory
below it is taken away. -/
theorem selects_directory_detour :
    isAbsolute "/project" = true ∧ isAbsolute "src/../lib" = false ∧
      '/' ∉ ".glsl".toList ∧
      (∀ c ∈ "/project".toList ++ "src/../lib".toList ++ ".glsl".toList, c ∉ wildcards) ∧
      normalize "/project" "src/../lib" ≠ "/" ∧
      (∃ s, build "/project" ["./src/../lib/*.glsl"] [] = .ok s ∧
        s.selects "lib/wind.glsl" = true) ∧
      ∃ s, build "/project" [] ["./src/../lib/**"] = .ok s ∧
        ¬ s.selects "/project/lib/fx/sky.glsl" = true := by
  have hroot : isAbsolute "/project" = true := by decide
  have hdir : isAbsolute "src/../lib" = false := by decide
  have hslash : '/' ∉ ".glsl".toList := by decide
  have hplain : ∀ c ∈ "/project".toList ++ "src/../lib".toList ++ ".glsl".toList,
      c ∉ wildcards := plain_of_all (by decide)
  have hnotRoot : normalize "/project" "src/../lib" ≠ "/" := by decide
  obtain ⟨hincluded, hexcluded⟩ := selects_directory hroot hdir hslash hplain hnotRoot
  have hall : build "/project" [] [] = .ok ⟨"/project", none, []⟩ := rfl
  obtain ⟨s, hs, hselects⟩ := hincluded [] _ hall
  obtain ⟨s', hs', hselects'⟩ := hexcluded [] [] _ hall
  refine ⟨hroot, hdir, hslash, hplain, hnotRoot, ⟨s, hs, ?_⟩, s', hs', fun h => ?_⟩
  · exact (hselects _).2 ⟨by decide, "wind.glsl", by decide, by decide, by decide⟩
  · exact ((hselects' _).1 h).2 ⟨["fx", "sky.glsl"], by decide, by decide, by decide⟩

end ShaderModules.Selector
