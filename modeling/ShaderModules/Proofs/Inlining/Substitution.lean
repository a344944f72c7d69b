import ShaderModules.Proofs.Inlining.Places

/-!
# Textual substitution

The plain meaning of include directives is substitution: every directive is replaced by what its
file expands to, again and again, without any memory of what has been included before
(`Substitutes`). The inliner remembers, and skips what it has visited. The two agree exactly if no
file is met twice and none is the preprocessed one (`resolve_iff_substitutes`).
-/

namespace ShaderModules.Inliner

open FileTree

variable {tree : FileTree} {source : String} {o : ResolveOptions}

/-- `Substitutes tree dir lines out files`: replacing every directive in the lines, whose targets
are relative to `dir`, by the expansion of the file that it names gives the lines `out`; the files
met on the way are `files`, as often as they are met. -/
inductive Substitutes (tree : FileTree) :
    String → List (List Char) → List (List Char) → List (List String) → Prop
  | nil (dir : String) : Substitutes tree dir [] [] []
  | plain {dir : String} {line : List Char} {lines out : List (List Char)}
      {files : List (List String)} (plain : Directive.Line.ofText line = .plain)
      (rest : Substitutes tree dir lines out files) :
      Substitutes tree dir (line :: lines) (line :: out) files
  | directive {dir text : String} {line : List Char} {lines block out : List (List Char)}
      {names : List String} {within files : List (List String)}
      (finds : Finds tree dir line names (.ok text))
      (inner : Substitutes tree (pathOf names.dropLast) (Text.lines text.toList) block within)
      (rest : Substitutes tree dir lines out files) :
      Substitutes tree dir (line :: lines) (block ++ out) (names :: (within ++ files))

theorem map_text_pendingLines (file dir text : String) :
    (pendingLines file dir text).map Pending.text = Text.lines text.toList := by
  unfold pendingLines
  refine List.ext_getElem (by simp) fun i hi hi' => by simp

theorem dir_of_mem_pendingLines {file dir text : String} {p : Pending}
    (h : p ∈ pendingLines file dir text) : p.dir = dir := by
  obtain ⟨i, hi, rfl⟩ := List.mem_mapIdx.1 h
  rfl

/-- Lines without directives are replaced by themselves. -/
theorem Substitutes.of_plain (dir : String) {lines : List (List Char)}
    (h : ∀ line ∈ lines, Directive.Line.ofText line = .plain) :
    Substitutes tree dir lines lines [] := by
  induction lines with
  | nil => exact .nil dir
  | cons line lines ih =>
    exact .plain (h line List.mem_cons_self) (ih fun l hl => h l (List.mem_cons_of_mem line hl))

/-- As long as the files are new, the inliner does what substitution does. -/
theorem Substitutes.expand_eq {dir : String} {lines out : List (List Char)}
    {files : List (List String)} (h : Substitutes tree dir lines out files) {g : Progress}
    {pending : List Pending} (hlines : pending.map Pending.text = lines)
    (hdir : ∀ p ∈ pending, p.dir = dir) (hnodup : files.Nodup)
    (hnew : ∀ names ∈ files, names ∉ g.visited) :
    expand tree g pending =
      (⟨out.reverse ++ g.lines, files.reverse ++ g.visited, g.skipped⟩, none) := by
  induction h generalizing g pending with
  | nil dir =>
    rw [List.map_eq_nil_iff] at hlines
    subst hlines
    rw [expand]
    rfl
  | @plain dir line lines out files hplain _ ih =>
    obtain ⟨p, rest, rfl, rfl, rfl⟩ := List.map_eq_cons_iff.1 hlines
    have hmeets : Meets tree g.visited p .kept := .kept hplain
    calc expand tree g (p :: rest)
        = expand tree ⟨p.text :: g.lines, g.visited, g.skipped⟩ rest :=
          hmeets.expand_eq (s := ⟨p, .kept⟩) rfl _
      _ = (⟨out.reverse ++ (p.text :: g.lines), files.reverse ++ g.visited, g.skipped⟩, none) :=
          ih (g := ⟨p.text :: g.lines, g.visited, g.skipped⟩) rfl
            (fun q hq => hdir q (List.mem_cons_of_mem p hq)) hnodup hnew
      _ = _ := by rw [List.reverse_cons, List.append_assoc, List.singleton_append]
  | @directive dir text line lines block out names within files hfinds _ _ ihblock ih =>
    obtain ⟨p, rest, rfl, rfl, rfl⟩ := List.map_eq_cons_iff.1 hlines
    obtain ⟨hfirst, hnodup⟩ := List.nodup_cons.1 hnodup
    obtain ⟨hwithin, hfiles, hdisjoint⟩ := List.nodup_append.1 hnodup
    rw [List.forall_mem_cons, List.forall_mem_append] at hnew
    obtain ⟨hv, hnewWithin, hnewFiles⟩ := hnew
    have hfinds' : Finds tree p.dir p.text names (.ok text) := hdir p List.mem_cons_self ▸ hfinds
    have hmeets : Meets tree g.visited p (.inlined names) := .inlined hfinds' hv
    have hlines : fileLines tree names =
        pendingLines (pathOf names) (pathOf names.dropLast) text :=
      fileLines_of_textAt? hfinds.textAt?
    -- the files of the block are new behind the directive, the others behind the block
    have hblock : ∀ n ∈ within, n ∉ names :: g.visited := by
      intro n hn hmem
      exact (List.mem_cons.1 hmem).elim (fun h => hfirst (h ▸ List.mem_append_left _ hn))
        (hnewWithin n hn)
    have hrest : ∀ n ∈ files, n ∉ within.reverse ++ names :: g.visited := by
      intro n hn hmem
      rcases List.mem_append.1 hmem with hmem | hmem
      · exact hdisjoint n (List.mem_reverse.1 hmem) n hn rfl
      · exact (List.mem_cons.1 hmem).elim (fun h => hfirst (h ▸ List.mem_append_right _ hn))
          (hnewFiles n hn)
    calc expand tree g (p :: rest)
        = expand tree ⟨g.lines, names :: g.visited, g.skipped⟩
            (pendingLines (pathOf names) (pathOf names.dropLast) text ++ rest) := by
          rw [hmeets.expand_eq (s := ⟨p, .inlined names⟩) rfl, Step.inlined,
            List.flatMap_singleton, hlines]
          rfl
      _ = expand tree ⟨block.reverse ++ g.lines, within.reverse ++ names :: g.visited, g.skipped⟩
            rest := by
          rw [expand_append, ihblock (g := ⟨g.lines, names :: g.visited, g.skipped⟩)
            (map_text_pendingLines _ _ text) (fun q => dir_of_mem_pendingLines) hwithin hblock,
            andThen_of_ok rfl]
      _ = (⟨out.reverse ++ (block.reverse ++ g.lines),
            files.reverse ++ (within.reverse ++ names :: g.visited), g.skipped⟩, none) :=
          ih (g := ⟨block.reverse ++ g.lines, within.reverse ++ names :: g.visited, g.skipped⟩) rfl
            (fun q hq => hdir q (List.mem_cons_of_mem p hq)) hfiles hrest
      _ = _ := by
          simp only [List.reverse_append, List.reverse_cons, List.append_assoc,
            List.singleton_append]

/-- A source whose files are met once is resolved by substitution. -/
theorem Substitutes.resolve_eq {out : List (List Char)} {files : List (List String)}
    (h : Substitutes tree o.basedir (Text.lines source.toList) out files) (hnodup : files.Nodup)
    (hother : ∀ names ∈ files, ¬IsSource tree o names) :
    resolve tree source o = ⟨.ok (inlineMarker ++ unlines out), []⟩ := by
  have hexpand := h.expand_eq (g := { visited := start tree o.file })
    (map_text_pendingLines o.file o.basedir source) (fun p => dir_of_mem_pendingLines) hnodup
    (fun names hn hs => hother names hn (mem_start.1 hs))
  unfold resolve expansion
  rw [hexpand]
  simp only [List.append_nil, List.reverse_reverse]
  rfl

/-- An expansion in which nothing fails and nothing is skipped is a substitution. -/
theorem Layout.Expands.substitutes {t : Layout} {visited : List (List String)}
    (h : t.Expands tree visited) (hok : t.errors = []) (hskip : t.skips = [])
    {dir : String} (hdir : ∀ p ∈ t.own, p.dir = dir) :
    Substitutes tree dir (t.own.map Pending.text) (t.output.map Pending.text) t.files := by
  induction h generalizing dir with
  | done => exact .nil dir
  | @line visited s block rest hmeets hlines _ _ ihblock ih =>
    rw [Layout.errors_line, List.append_eq_nil_iff, List.append_eq_nil_iff] at hok
    rw [Layout.skips_line, List.append_eq_nil_iff, List.append_eq_nil_iff] at hskip
    obtain ⟨p, fate⟩ := s
    dsimp only at hmeets
    have hrest := ih hok.2.2 hskip.2.2 fun q hq => hdir q (List.mem_cons_of_mem p hq)
    have hp : p.dir = dir := hdir p List.mem_cons_self
    cases hmeets with
    | kept hplain =>
      cases block with
      | line => cases hlines
      | done => exact .plain hplain hrest
    | @inlined names text hfinds hfirst =>
      have hown : block.own = pendingLines (pathOf names) (pathOf names.dropLast) text := by
        rw [hlines, Step.inlined, List.flatMap_singleton, fileLines_of_textAt? hfinds.textAt?]
      have hblock := ihblock hok.2.1 hskip.2.1 fun q hq => dir_of_mem_pendingLines (hown ▸ hq)
      rw [hown, map_text_pendingLines] at hblock
      simp only [Layout.output_line, Layout.files_line, Step.kept, Step.inlined, List.nil_append,
        List.singleton_append, List.map_append]
      exact .directive (hp ▸ hfinds) hblock hrest
    | repeated => cases hskip.1
    | unreadable => cases hok.1
    | malformed => cases hok.1
    | missing => cases hok.1

/-- **Without repetitions, inlining is textual substitution.** A source is resolved without a
warning exactly if replacing every directive comes to an end, meets no file twice and never meets
the preprocessed file; what is returned then is the marker and the lines that come out of the
substitution. -/
theorem resolve_iff_substitutes (tree : FileTree) (source : String) (o : ResolveOptions)
    (text : String) :
    resolve tree source o = ⟨.ok text, []⟩ ↔
      ∃ out files, Substitutes tree o.basedir (Text.lines source.toList) out files ∧
        files.Nodup ∧ (∀ names ∈ files, ¬IsSource tree o names) ∧
        text = inlineMarker ++ unlines out := by
  constructor
  · intro h
    obtain ⟨t, hexpansion⟩ := Layout.exists_isExpansion tree source o
    have htext : (resolve tree source o).value = .ok text := by rw [h]
    have hok : t.errors = [] := hexpansion.errors_eq_nil htext
    obtain ⟨hvalue, hevents⟩ := Logged.mk.inj (h.symm.trans (hexpansion.resolve_eq hok))
    have hdir : ∀ p ∈ t.own, p.dir = o.basedir := fun p hp =>
      dir_of_mem_pendingLines (hexpansion.own ▸ hp)
    have hsubstitutes :=
      hexpansion.expands.substitutes hok (List.map_eq_nil_iff.1 hevents.symm) hdir
    rw [hexpansion.own, sourceLines, map_text_pendingLines] at hsubstitutes
    refine ⟨_, _, hsubstitutes, hexpansion.expands.files_nodup start_nodup, fun names hn => ?_,
      Except.ok.inj hvalue⟩
    exact fun hs => hexpansion.expands.notMem_of_mem_files hn (mem_start.2 hs)
  · rintro ⟨out, files, hsubstitutes, hnodup, hother, rfl⟩
    exact hsubstitutes.resolve_eq hnodup hother

/-- A library in a directory, and another one beside it. -/
def nestedTree : FileTree where
  nodes := [(["main"], .file "".toUTF8 false), (["lib"], .directory),
    (["lib", "a"], .file "#include \"b\"\nfloat a;\n".toUTF8 false),
    (["lib", "b"], .file "float b;\n".toUTF8 false)]

/-- The directory of the libraries is passed through. -/
theorem locate_nested {name : String} {node : Node}
    (h : nestedTree.locateFrom true maxLinks ["lib"] [name] = .ok (.found ["lib", name] node)) :
    nestedTree.locateFrom true maxLinks [] ["lib", name] = .ok (.found ["lib", name] node) := by
  rw [locateFrom]
  exact h

theorem finds_nested_a : Finds nestedTree "/" "#include \"lib/a\"".toList ["lib", "a"]
    (.ok "#include \"b\"\nfloat a;\n") := by
  refine ⟨"lib/a", .file "#include \"b\"\nfloat a;\n".toUTF8 false, rfl,
    locate_nested ?_, rfl⟩
  rw [locateFrom]
  rfl

theorem finds_nested_b : Finds nestedTree "/lib" "#include \"b\"".toList ["lib", "b"]
    (.ok "float b;\n") := by
  refine ⟨"b", .file "float b;\n".toUTF8 false, rfl, locate_nested ?_, rfl⟩
  rw [locateFrom]
  rfl

/-- Targets in the library are relative to its directory. -/
theorem resolve_iff_substitutes_nested :
    resolve nestedTree "#include \"lib/a\"\nfloat m;" ⟨"/main", "/", [], [], []⟩ =
      ⟨.ok "#define GLSLIFY 1\nfloat b;\nfloat a;\nfloat m;\n", []⟩ := by
  refine (resolve_iff_substitutes _ _ _ _).2
    ⟨["float b;".toList, "float a;".toList, "float m;".toList], [["lib", "a"], ["lib", "b"]], ?_,
      by decide, ?_, rfl⟩
  · have hb : Substitutes nestedTree "/lib" ["float b;".toList] ["float b;".toList] [] :=
      .plain rfl (.nil _)
    have ha : Substitutes nestedTree "/lib" ["#include \"b\"".toList, "float a;".toList]
        ["float b;".toList, "float a;".toList] [["lib", "b"]] :=
      .directive finds_nested_b hb (.plain rfl (.nil _))
    exact .directive finds_nested_a ha (.plain rfl (.nil _))
  · rintro names hnames ⟨node, hloc⟩
    have hmain : nestedTree.locateFrom true maxLinks [] ["main"] = .ok (.found names node) := hloc
    rw [locateFrom] at hmain
    cases hmain
    exact absurd hnames (by decide)

end ShaderModules.Inliner
