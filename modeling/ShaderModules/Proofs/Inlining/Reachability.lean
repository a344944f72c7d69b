import ShaderModules.Proofs.Inlining.Reading

/-!
# The inliner visits what is reachable

An entry is reached from a source by include directives (`Reached`): by those of the source, whose
targets are relative to the base directory, and by those of a file that is reached, whose targets
are relative to the directory of that file. The preprocessed file itself is never passed through.

The inliner ends on every tree, whatever includes what, and when no line fails, the files that it
has inlined are pairwise distinct and are those that are reached, except the preprocessed file
(`resolve_visits_reached`). In one direction, every pending line directs to something reached
(`Reads.reached`). In the other, all lines of the source and of the files entered have been read at
the end, so that what they direct to has been visited (`visited_of_reached`).
-/

namespace ShaderModules.Inliner

variable {tree : FileTree} {source : String} {o : ResolveOptions}

/-! ## Reachable entries -/

/-- A text includes an entry: one of its lines directs there from `dir`. -/
def Includes (tree : FileTree) (dir text : String) (names : List String) : Prop :=
  ∃ line ∈ Text.lines text.toList, Directs tree dir line names

/-- The path of the preprocessed file leads to the entry. -/
def IsSource (tree : FileTree) (o : ResolveOptions) (names : List String) : Prop :=
  ∃ node, tree.locateAny true o.file = .ok (.found names node)

/-- The entries that are reached from a source by include directives. -/
inductive Reached (tree : FileTree) (source : String) (o : ResolveOptions) : List String → Prop
  | direct {names : List String} (included : Includes tree o.basedir source names) :
      Reached tree source o names
  | nested {file names : List String} {text : String} (reached : Reached tree source o file)
      (other : ¬ IsSource tree o file) (reads : tree.textAt? file = some text)
      (included : Includes tree (FileTree.pathOf file.dropLast) text names) :
      Reached tree source o names

/-- A line directs to one entry at most. -/
theorem Directs.unique {dir : String} {line : List Char} {names names' : List String}
    (h : Directs tree dir line names) (h' : Directs tree dir line names') : names = names' := by
  obtain ⟨target, node, hline, hloc⟩ := h
  obtain ⟨target', node', hline', hloc'⟩ := h'
  rw [hline] at hline'
  cases hline'
  rw [hloc] at hloc'
  cases hloc'
  rfl

/-- What a line directs to has the canonical path of its target. -/
theorem Directs.canonical {dir target : String} {line : List Char} {names : List String}
    (h : Directs tree dir line names) (hline : Directive.Line.ofText line = .target target) :
    tree.canonical (Path.join dir target) = .ok (FileTree.pathOf names) := by
  obtain ⟨target', node, hline', hloc⟩ := h
  rw [hline] at hline'
  cases hline'
  rw [FileTree.canonical, hloc]

theorem mem_start {names : List String} : names ∈ start tree o.file ↔ IsSource tree o names := by
  unfold start IsSource
  constructor
  · intro h
    split at h
    · rename_i names' node hloc
      rw [List.mem_singleton] at h
      exact ⟨node, h ▸ hloc⟩
    · cases h
  · rintro ⟨node, hloc⟩
    rw [hloc]
    exact List.mem_singleton_self names

theorem start_nodup : (start tree o.file).Nodup := by
  unfold start
  split
  · exact List.nodup_singleton _
  · exact List.nodup_nil

/-! ## Pending lines -/

/-- The lines of the source, to be read. -/
def sourceLines (source : String) (o : ResolveOptions) : List Pending :=
  pendingLines o.file o.basedir source

theorem length_sourceLines : (sourceLines source o).length = (Text.lines source.toList).length :=
  List.length_mapIdx

/-- A text includes what its pending lines direct to. -/
theorem includes_iff (file : String) {dir text : String} {names : List String} :
    Includes tree dir text names ↔
      ∃ p ∈ pendingLines file dir text, Directs tree p.dir p.text names := by
  constructor
  · rintro ⟨line, hline, hd⟩
    obtain ⟨i, hi, rfl⟩ := List.getElem_of_mem hline
    refine ⟨⟨file, i + 1, dir, (Text.lines text.toList)[i]⟩, ?_, hd⟩
    exact List.mem_mapIdx.2 ⟨i, hi, rfl⟩
  · rintro ⟨p, hp, hd⟩
    obtain ⟨i, hi, rfl⟩ := List.mem_mapIdx.1 hp
    exact ⟨_, List.getElem_mem hi, hd⟩

/-! ## Both directions -/

/-- If all pending lines direct to entries that are reached, all files entered are reached. -/
theorem Reads.reached {g g' : Progress} {pending rest : List Pending} {l : List Reading}
    (h : Reads tree g pending l g' rest)
    (hsource : ∀ names, IsSource tree o names → names ∈ g.visited)
    (hpending : ∀ p ∈ pending, ∀ names, Directs tree p.dir p.text names →
      Reached tree source o names) :
    ∀ names ∈ l.flatMap Reading.entered, Reached tree source o names := by
  induction h with
  | refl => exact fun names hn => absurd hn List.not_mem_nil
  | @step g g' p pending rest m l hmeet _ ih =>
    have hrest : ∀ q ∈ pending, ∀ names, Directs tree q.dir q.text names →
        Reached tree source o names := fun q hq => hpending q (List.mem_cons_of_mem p hq)
    rcases meet_cases hmeet with ⟨-, rfl⟩ | ⟨file, hd, ⟨-, rfl⟩ | ⟨text, hv, ht, rfl⟩⟩
    · exact ih hsource hrest
    · exact ih hsource hrest
    · have hfile : Reached tree source o file := hpending p List.mem_cons_self file hd
      intro names hn
      rw [List.flatMap_cons, Reading.entered, List.singleton_append, List.mem_cons] at hn
      rcases hn with rfl | hn
      · exact hfile
      -- the lines of the file direct to what it includes
      · refine ih (fun names hs => List.mem_cons_of_mem _ (hsource names hs)) ?_ names hn
        rw [Reading.entered, List.flatMap_singleton, fileLines_of_textAt? ht]
        intro q hq names' hd'
        rcases List.mem_append.1 hq with hq | hq
        · exact .nested hfile (fun hs => hv (hsource file hs)) ht ((includes_iff _).2 ⟨q, hq, hd'⟩)
        · exact hrest q hq names' hd'

/-- What a line directs to has been visited once the line is read. -/
theorem Reads.visited_of_directs {g g' : Progress} {pending rest : List Pending}
    {l : List Reading} (h : Reads tree g pending l g' rest) {p : Pending}
    (hp : p ∈ l.map Reading.line) {names : List String} (hd : Directs tree p.dir p.text names) :
    names ∈ g'.visited := by
  obtain ⟨r, hr, rfl⟩ := List.mem_map.1 hp
  rcases h.reading_cases hr with ⟨hplain, -⟩ | ⟨names', hd', hv, -⟩
  · obtain ⟨target, node, hline, -⟩ := hd
    rw [hplain] at hline
    cases hline
  · exact hd.unique hd' ▸ hv

/-- Once no line is left, everything that is reached has been visited. -/
theorem visited_of_reached {g : Progress} {l : List Reading}
    (h : Reads tree { visited := start tree o.file } (sourceLines source o) l g [])
    {names : List String} (hn : Reached tree source o names) : names ∈ g.visited := by
  have hlines := h.lines_perm
  rw [List.append_nil] at hlines
  induction hn with
  | direct hincl =>
    obtain ⟨p, hp, hd⟩ := (includes_iff o.file).1 hincl
    exact h.visited_of_directs (hlines.mem_iff.2 (List.mem_append_left _ hp)) hd
  | @nested file names text _ hother ht hincl ih =>
    have hfile : file ∈ l.flatMap Reading.entered := by
      rw [h.visited_eq, List.mem_append, List.mem_reverse, mem_start] at ih
      exact ih.resolve_right hother
    obtain ⟨p, hp, hd⟩ := (includes_iff (FileTree.pathOf file)).1 hincl
    rw [← fileLines_of_textAt? ht] at hp
    exact h.visited_of_directs
      (hlines.mem_iff.2 (List.mem_append_right _ (List.mem_flatMap.2 ⟨file, hfile, hp⟩))) hd

/-- At the end of a run without a failure, the files entered are those that are reached, except
the preprocessed file. -/
theorem mem_entered_iff {g : Progress} {l : List Reading}
    (h : Reads tree { visited := start tree o.file } (sourceLines source o) l g [])
    (names : List String) :
    names ∈ l.flatMap Reading.entered ↔
      Reached tree source o names ∧ ¬ IsSource tree o names := by
  constructor
  · intro hn
    refine ⟨h.reached (fun _ => mem_start.2) (fun p hp names hd => ?_) names hn, fun hs => ?_⟩
    · exact .direct ((includes_iff _).2 ⟨p, hp, hd⟩)
    · exact (h.entered_nodup start_nodup).2 names hn (mem_start.2 hs)
  · rintro ⟨hr, hs⟩
    have hv := visited_of_reached h hr
    rw [h.visited_eq, List.mem_append, List.mem_reverse, mem_start] at hv
    exact hv.resolve_right hs

/-! ## The result -/

/-- The text of a run, unless it failed. -/
def outcome (l : List Reading) : Option ToolError → Except ToolError String
  | none => .ok (inlineMarker ++ unlines (l.flatMap Reading.kept))
  | some e => .error e

/-- A run over a source that stops, with or without a failure. -/
def IsRun (tree : FileTree) (source : String) (o : ResolveOptions) (l : List Reading)
    (failure : Option ToolError) : Prop :=
  ∃ g rest, Reads tree { visited := start tree o.file } (sourceLines source o) l g rest ∧
    Stops tree g rest failure

theorem exists_isRun (tree : FileTree) (source : String) (o : ResolveOptions) :
    ∃ l failure, IsRun tree source o l failure := by
  obtain ⟨l, rest, hreads, hstops⟩ :=
    expand_reads tree { visited := start tree o.file } (sourceLines source o)
  exact ⟨l, _, _, rest, hreads, hstops⟩

/-- What is returned and reported can be read off any run that stops. -/
theorem IsRun.resolve_eq {l : List Reading} {failure : Option ToolError}
    (h : IsRun tree source o l failure) :
    resolve tree source o =
      ⟨outcome l failure, (l.flatMap Reading.skipped).map (skipEvent o.file)⟩ := by
  obtain ⟨g, rest, hreads, hstops⟩ := h
  have hexpand : expansion tree source o = (g, failure) := hreads.expand_eq.trans hstops.expand_eq
  unfold resolve
  rw [hexpand, hreads.progress]
  simp only [List.append_nil, List.reverse_reverse]
  cases failure <;> rfl

/-- **The inliner visits what is reachable, once.** Every run over a source is bounded, and one
stops. A run that stops has the result; each directive that it reads either inlines one file or
skips one with one event. When it succeeds, the files inlined are pairwise distinct, all their
lines are read, and they are the entries that are reached, except the preprocessed file. -/
theorem resolve_visits_reached (tree : FileTree) (source : String) (o : ResolveOptions) :
    (∀ l g rest, Reads tree { visited := start tree o.file } (sourceLines source o) l g rest →
      l.length ≤ (Text.lines source.toList).length + (treeLines tree).length) ∧
    (∃ l failure, IsRun tree source o l failure) ∧
    ∀ l failure, IsRun tree source o l failure →
      resolve tree source o =
        ⟨outcome l failure, (l.flatMap Reading.skipped).map (skipEvent o.file)⟩ ∧
      (∀ r ∈ l, ∀ target, Directive.Line.ofText r.line.text = .target target →
        ∃ names, tree.canonical (Path.join r.line.dir target) = .ok (FileTree.pathOf names) ∧
          Directs tree r.line.dir r.line.text names ∧
          ((r.entered = [names] ∧ r.skipped = []) ∨ (r.entered = [] ∧ r.skipped = [names]))) ∧
      ∀ text, (resolve tree source o).value = .ok text →
        (l.map Reading.line).Perm
          (sourceLines source o ++ (l.flatMap Reading.entered).flatMap (fileLines tree)) ∧
        (l.flatMap Reading.entered).Nodup ∧
        ∀ names, names ∈ l.flatMap Reading.entered ↔
          Reached tree source o names ∧ ¬ IsSource tree o names := by
  refine ⟨fun l g rest h => ?_, exists_isRun tree source o, fun l failure hrun => ?_⟩
  · rw [← length_sourceLines (o := o)]
    exact h.length_le start_nodup
  have hresolve := hrun.resolve_eq
  obtain ⟨g, rest, hreads, hstops⟩ := hrun
  refine ⟨hresolve, fun r hr target hline => ?_, fun text htext => ?_⟩
  · rcases hreads.reading_cases hr with ⟨hplain, -⟩ | ⟨names, hd, -, hm⟩
    · rw [hplain] at hline
      cases hline
    · refine ⟨names, hd.canonical hline, hd, ?_⟩
      obtain ⟨p, m⟩ := r
      rcases hm with rfl | ⟨text, rfl⟩
      · exact .inr ⟨rfl, rfl⟩
      · exact .inl ⟨rfl, rfl⟩
  · rw [hresolve] at htext
    cases hstops with
    | failed hmeet => cases htext
    | finished =>
      have hlines := hreads.lines_perm
      rw [List.append_nil] at hlines
      exact ⟨hlines, (hreads.entered_nodup start_nodup).1, mem_entered_iff hreads⟩

/-- The text of a library that includes the preprocessed file and itself. -/
def cyclicText : String := "#include <main>\n#include \"lib\"\nfloat x;\n"

/-- The preprocessed file and the library. -/
def cyclicTree : FileTree where
  nodes := [(["main"], .file "".toUTF8 false), (["lib"], .file cyclicText.toUTF8 false)]

/-- The options for the file `main` of `cyclicTree`. -/
def cyclicOptions : ResolveOptions := ⟨"/main", "/", [], [], []⟩

/-- The readings of the run for a source that includes the library. -/
def cyclicReadings : List Reading :=
  [⟨⟨"/main", 1, "/", "#include <lib>".toList⟩, .enter ["lib"] cyclicText⟩,
    ⟨⟨"/lib", 1, "/", "#include <main>".toList⟩, .repeated ["main"]⟩,
    ⟨⟨"/lib", 2, "/", "#include \"lib\"".toList⟩, .repeated ["lib"]⟩,
    ⟨⟨"/lib", 3, "/", "float x;".toList⟩, .keep⟩]

theorem locate_lib : cyclicTree.locateAny true (Path.join "/" "lib") =
    .ok (.found ["lib"] (.file cyclicText.toUTF8 false)) := by
  have h : cyclicTree.locateAny true (Path.join "/" "lib") =
      cyclicTree.locateFrom true FileTree.maxLinks [] ["lib"] := rfl
  rw [h, FileTree.locateFrom]
  rfl

theorem locate_main : cyclicTree.locateAny true (Path.join "/" "main") =
    .ok (.found ["main"] (.file "".toUTF8 false)) := by
  have h : cyclicTree.locateAny true (Path.join "/" "main") =
      cyclicTree.locateFrom true FileTree.maxLinks [] ["main"] := rfl
  rw [h, FileTree.locateFrom]
  rfl

theorem isRun_cyclicReadings :
    IsRun cyclicTree "#include <lib>" cyclicOptions cyclicReadings none := by
  have hstart : start cyclicTree cyclicOptions.file = [["main"]] := by
    have h : cyclicTree.locateAny true cyclicOptions.file = _ := locate_main
    rw [start, h]
  have hsource : sourceLines "#include <lib>" cyclicOptions =
      [⟨"/main", 1, "/", "#include <lib>".toList⟩] := rfl
  have hlib : fileLines cyclicTree ["lib"] =
      [⟨"/lib", 1, "/", "#include <main>".toList⟩, ⟨"/lib", 2, "/", "#include \"lib\"".toList⟩,
        ⟨"/lib", 3, "/", "float x;".toList⟩] := rfl
  have h₀ : meet cyclicTree [["main"]] ⟨"/main", 1, "/", "#include <lib>".toList⟩ =
      .ok (.enter ["lib"] cyclicText) := (meet_target rfl locate_lib).trans rfl
  have h₁ : meet cyclicTree [["lib"], ["main"]] ⟨"/lib", 1, "/", "#include <main>".toList⟩ =
      .ok (.repeated ["main"]) := (meet_target rfl locate_main).trans rfl
  have h₂ : meet cyclicTree [["lib"], ["main"]] ⟨"/lib", 2, "/", "#include \"lib\"".toList⟩ =
      .ok (.repeated ["lib"]) := (meet_target rfl locate_lib).trans rfl
  have h₃ : meet cyclicTree [["lib"], ["main"]] ⟨"/lib", 3, "/", "float x;".toList⟩ =
      .ok .keep := rfl
  unfold IsRun
  rw [hstart, hsource]
  refine ⟨⟨["float x;".toList], [["lib"], ["main"]], [["lib"], ["main"]]⟩, [], .step h₀ ?_,
    .finished⟩
  rw [Reading.entered, List.flatMap_singleton, hlib]
  exact .step h₁ (.step h₂ (.step h₃ (.refl _ _)))

/-- A cycle of includes ends: the library is inlined once, with two events. -/
theorem resolve_visits_reached_cycle :
    (resolve cyclicTree "#include <lib>" cyclicOptions).value =
        .ok "#define GLSLIFY 1\nfloat x;\n" ∧
      (resolve cyclicTree "#include <lib>" cyclicOptions).events.length = 2 ∧
      ∀ names, names = ["lib"] ↔ Reached cyclicTree "#include <lib>" cyclicOptions names ∧
        ¬ IsSource cyclicTree cyclicOptions names := by
  obtain ⟨-, -, hall⟩ := resolve_visits_reached cyclicTree "#include <lib>" cyclicOptions
  obtain ⟨hresolve, -, hsuccess⟩ := hall cyclicReadings none isRun_cyclicReadings
  have hvalue : (resolve cyclicTree "#include <lib>" cyclicOptions).value =
      .ok "#define GLSLIFY 1\nfloat x;\n" := by
    rw [hresolve]
    rfl
  obtain ⟨-, -, hiff⟩ := hsuccess _ hvalue
  refine ⟨hvalue, ?_, fun names => ?_⟩
  · rw [hresolve]
    rfl
  · rw [← hiff]
    exact List.mem_singleton.symm

end ShaderModules.Inliner
