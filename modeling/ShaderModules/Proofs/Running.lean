import Mathlib.Data.List.Pairwise
import ShaderModules.Proofs.BundleText
import ShaderModules.Proofs.Collecting
import ShaderModules.Proofs.Host.Aliases
import ShaderModules.Proofs.Workers

/-!
# The modules of a run

The candidates of a run are worked on in any order of the parts of the work, one after the other or
at the same time (`Run.Pool`). Each module that is written holds the code made of its own file,
unless another path that is written at leads to the same file. Modules of different candidates have
different paths, except below an output directory if both files are at the same place below their
inputs; and where paths lead where they say, different paths lead to different files
(`run_keeps_modules`).

An output directory mirrors the places below the inputs and not the inputs: files at the same place
below two inputs have one module, and the last one written stays (`run_mirrors_into_one`).

* `Run.Pool.Straight`: paths of modules lead where they say.
-/

namespace ShaderModules.Run

open ShaderModules.Path FileTree Collection

namespace Pool

variable {p : Pool} {schedule : List Nat} {i j : Nat} {f f' : Candidate} {g g' : Generated}
  {inputs : List String} {collected : Collected}

/-- Paths of modules lead where they say: there are no links, and no path goes up. -/
structure Straight (p : Pool) : Prop where
  linkFree : p.tree.LinkFree
  notUp : ∀ f ∈ p.candidates, .up ∉ components (targetOf p.config f)

/-! ## Paths of different modules -/

/-- What holds of any two candidates in their order holds of candidates at different places. -/
theorem rel_of_ne {R : Candidate → Candidate → Prop} (hsymm : ∀ {f g}, R f g → R g f)
    {l : List Candidate} (h : l.Pairwise R) (hf : l[i]? = some f) (hf' : l[j]? = some f')
    (hne : i ≠ j) : R f f' := by
  obtain ⟨hi, rfl⟩ := List.getElem?_eq_some_iff.1 hf
  obtain ⟨hj, rfl⟩ := List.getElem?_eq_some_iff.1 hf'
  rcases Nat.lt_or_gt_of_ne hne with hlt | hlt
  · exact List.pairwise_iff_getElem.1 h i j hi hj hlt
  · exact hsymm (List.pairwise_iff_getElem.1 h j i hj hi hlt)

section Collected

variable (hcollect : (collect p.tree p.transform.selector inputs).value = .ok collected)
  (hcandidates : p.candidates = collected.candidates)
include hcollect hcandidates

/-- A candidate that a module is made of has an absolute path that ends in a name, and its place
ends in a name. -/
theorem Makes.placed (h : p.Makes schedule i f g) :
    lead f.path = [.root] ∧ ∃ name, EndsInName f.path name ∧ Below f.relative name := by
  obtain ⟨before, -, -, hmade⟩ := h.made
  obtain ⟨name, hname⟩ := endsInName_of_moduleOf hmade
  have hmem : f ∈ collected.candidates := hcandidates ▸ List.mem_of_getElem? h.candidate
  exact ⟨isAbsolute_iff_lead.1 (isAbsolute_of_collect hcollect hmem), name, hname,
    below_of_collect hcollect hmem hname⟩

variable (h : p.Makes schedule i f g) (h' : p.Makes schedule j f' g')
include h h'

/-- **Different candidates have different modules**, except at the same place below an output
directory. -/
theorem Makes.target_components (hne : i ≠ j) :
    components (targetOf p.config f) = components (targetOf p.config f') ↔
      p.config.outDir.isSome = true ∧ components f.relative = components f'.relative := by
  obtain ⟨-, name, hpath, hplace⟩ := h.placed hcollect hcandidates
  obtain ⟨-, name', hpath', hplace'⟩ := h'.placed hcollect hcandidates
  have hapart : Apart f f' := rel_of_ne Ne.symm (hcandidates ▸ pairwise_candidates hcollect)
    h.candidate h'.candidate hne
  refine (modulePath_components hpath hpath' hplace hplace' _ _).trans ?_
  cases p.config.outDir with
  | none => simpa [Apart] using hapart
  | some dir => simp

theorem Makes.target_lead : lead (targetOf p.config f) = lead (targetOf p.config f') := by
  obtain ⟨hlead, name, hpath, hplace⟩ := h.placed hcollect hcandidates
  obtain ⟨hlead', name', hpath', hplace'⟩ := h'.placed hcollect hcandidates
  exact lead_modulePath hpath hpath' hplace hplace' _ _ (hlead.trans hlead'.symm)

variable {last : List Char} (hlast : EndsInName (targetOf p.config f) last)
include hlast

theorem Makes.target_endsInName : ∃ last', EndsInName (targetOf p.config f') last' := by
  obtain ⟨-, name, hpath, hplace⟩ := h.placed hcollect hcandidates
  obtain ⟨-, name', hpath', hplace'⟩ := h'.placed hcollect hcandidates
  exact endsInName_modulePath hpath hpath' hplace hplace' _ _ hlast

/-- A module has another path than any source map. -/
theorem Makes.target_ne_map (hext : SeparatesMaps p.config.extension) :
    components (targetOf p.config f) ≠ components (mapPath (targetOf p.config f')) := by
  obtain ⟨-, name, hpath, hplace⟩ := h.placed hcollect hcandidates
  obtain ⟨-, name', hpath', hplace'⟩ := h'.placed hcollect hcandidates
  exact modulePath_ne_mapPath hpath hpath' hplace hplace' _ _ hlast hext

end Collected

/-! ## Modules whose files are the same -/

theorem linkFree_state (h : p.tree.LinkFree) (schedule : List Nat) :
    (p.state schedule).tree.LinkFree := by
  induction schedule using List.reverseRecOn with
  | nil => exact h
  | append_singleton schedule i ih =>
    cases hi : p.candidates[i]? with
    | none =>
      rw [state_concat, step, hi]
      exact ih
    | some f => exact (acts_concat hi schedule).linkFree ih

theorem notUp_mapPath {m : String} {last : List Char} (hlast : EndsInName m last)
    (h : .up ∉ components m) : .up ∉ components (mapPath m) := by
  have hmap : segments ".map".toList = [".map".toList] := by decide
  obtain ⟨before, hm, hmapped⟩ := hlast.components_append hmap
  rw [hm] at h
  rw [mapPath, hmapped]
  simpa using h

/-- **A module is overwritten only for a file at the same place**, where paths lead where they
say. -/
theorem Overwritten.same_place (hcollect : (collect p.tree p.transform.selector inputs).value =
      .ok collected) (hcandidates : p.candidates = collected.candidates) (hstraight : p.Straight)
    (hext : SeparatesMaps p.config.extension)
    (hmakes : p.Makes schedule i f g) (h : p.Overwritten schedule i f) :
    p.config.outDir.isSome = true ∧ ∃ j f' g', j ≠ i ∧ p.Makes schedule j f' g' ∧
      components f.relative = components f'.relative := by
  have hlinks := linkFree_state hstraight.linkFree schedule
  have hup := hstraight.notUp f (List.mem_of_getElem? hmakes.candidate)
  obtain ⟨last, hlast⟩ := h.endsInName
  cases h with
  | sourceMap _ hsame =>
    have heq := hsame.components_eq hlinks hup (notUp_mapPath hlast hup)
      (hlast.lead_append ".map").symm
    exact absurd heq (hmakes.target_ne_map hcollect hcandidates hmakes hlast hext)
  | @other j f' g' q hne hmakes' hq hsame =>
    have hup' := hstraight.notUp f' (List.mem_of_getElem? hmakes'.candidate)
    obtain ⟨last', hlast'⟩ := hmakes.target_endsInName hcollect hcandidates hmakes' hlast
    have hlead := hmakes.target_lead hcollect hcandidates hmakes'
    rcases List.mem_cons.1 hq with rfl | hq
    · have heq := hsame.components_eq hlinks hup hup' hlead
      obtain ⟨hdir, hplace⟩ :=
        (hmakes.target_components hcollect hcandidates hmakes' hne.symm).1 heq
      exact ⟨hdir, j, f', g', hne, hmakes', hplace⟩
    · have hmap : q = mapPath (targetOf p.config f') := by
        split at hq
        · exact List.mem_singleton.1 hq
        · cases hq
      subst hmap
      have heq := hsame.components_eq hlinks hup (notUp_mapPath hlast' hup')
        (hlead.trans (hlast'.lead_append ".map").symm)
      exact absurd heq (hmakes.target_ne_map hcollect hcandidates hmakes' hlast hext)

end Pool

/-! ## The run -/

variable {launch : Launcher} {c : Config} {tr : Transform} {t : FileTree} {f : Candidate}
  {p : Pool} {inputs : List String} {collected : Collected}

theorem run_value (htransform : transformOf p.config (pathOf p.tree.workDir) = .ok p.transform)
    (hcollect : (collect p.tree p.transform.selector inputs).value = .ok collected)
    (hcandidates : p.candidates = collected.candidates) :
    (run p.launch p.config p.tree inputs).value =
      ((p.state p.oneByOne).tree, .ok ⟨p.reports p.oneByOne, collected.skipped⟩) := by
  have hstate := p.oneByOne_state
  rw [hcandidates] at hstate
  unfold run
  rw [htransform]
  simp only [Logged.value_bind, hcollect]
  exact congrArg (fun v => (v.1, Except.ok (⟨v.2, collected.skipped⟩ : RunSummary))) hstate.symm

/-- **Modules are kept.** A run is one of the schedules. Whatever the schedule, the modules that are
written have different paths, and so have their source maps, except for files at the same place
below an output directory; no module has the path of a source map if the extension tells them apart.
Each module holds the code made of its file, unless its own file is written at through another
path. Where paths lead where they say, this is the path of a file at the same place. -/
theorem run_keeps_modules
    (htransform : transformOf p.config (pathOf p.tree.workDir) = .ok p.transform)
    (hcollect : (collect p.tree p.transform.selector inputs).value = .ok collected)
    (hcandidates : p.candidates = collected.candidates) :
    (run p.launch p.config p.tree inputs).value =
        ((p.state p.oneByOne).tree, .ok ⟨p.reports p.oneByOne, collected.skipped⟩) ∧
      ∀ schedule i f module map, p.Writes schedule i f module map →
        (module = targetOf p.config f ∧
          map = if p.config.emitSourceMap then some (mapPath module) else none) ∧
        (∀ j f' module' map', p.Writes schedule j f' module' map' →
          (i ≠ j → (components module = components module' ↔
            p.config.outDir.isSome = true ∧ components f.relative = components f'.relative)) ∧
          (components (mapPath module) = components (mapPath module') ↔
            components module = components module') ∧
          (SeparatesMaps p.config.extension → components module ≠ components (mapPath module'))) ∧
        ∃ g, p.Makes schedule i f g ∧
          ((p.state schedule).tree.read module = .ok g.code.toUTF8 ∨ p.Overwritten schedule i f) ∧
          (p.Straight → SeparatesMaps p.config.extension →
            (p.state schedule).tree.read module = .ok g.code.toUTF8 ∨
              p.config.outDir.isSome = true ∧ ∃ j f' g', j ≠ i ∧ p.Makes schedule j f' g' ∧
                components f.relative = components f'.relative) := by
  refine ⟨run_value htransform hcollect hcandidates, fun schedule i f module map hwrites => ?_⟩
  obtain ⟨⟨rfl, hmap⟩, ⟨last, hlast⟩, g, hmakes, hheld⟩ := hwrites.holds
  refine ⟨⟨rfl, hmap⟩, fun j f' module' map' hwrites' => ?_, g, hmakes, hheld, ?_⟩
  · obtain ⟨⟨rfl, -⟩, ⟨last', hlast'⟩, g', hmakes', -⟩ := hwrites'.holds
    exact ⟨hmakes.target_components hcollect hcandidates hmakes',
      mapPath_components hlast hlast', hmakes.target_ne_map hcollect hcandidates hmakes' hlast⟩
  · intro hstraight hext
    exact hheld.imp_right fun h => h.same_place hcollect hcandidates hstraight hext hmakes

/-! ## Two files of one name -/

/-- Programs that write what they read. -/
def copying : Launcher := fun _ i => .ok { status := .code 0, output := i.input.toUTF8 }

/-- Modules go below the directory `out`, and the inputs are compiler output already. -/
def mirrored : Config where
  included := []
  preprocessor := some { program := "cat" }
  compiler := { program := "sh", args := ["-c", "cat", "glslx"] }
  outDir := some "out"

/-- The transform that `mirrored` asks for in the root directory. -/
def mirroring : Transform where
  selector := ⟨"/", none, []⟩
  resolverConfig := mirrored.resolverConfig

/-- The snippet of the file in the directory `a`. -/
def one : Snippet := ⟨"one", "1"⟩

/-- The snippet of the file in the directory `b`. -/
def two : Snippet := ⟨"two", "2"⟩

/-- The module of one snippet. -/
def moduleFor (s : Snippet) : Generated where
  code := "import {createProgram} from \"../util\";\n\nexport const " ++ s.name ++ " = " ++
    Text.quote s.contents ++ ";\n"

/-- Two directories with a file of the same name, and the directory for modules. -/
def twins : FileTree where
  nodes := [(["out"], .directory), (["a"], .directory), (["b"], .directory),
    (["a", "x.glsl"], .file (printed [one]).toUTF8 false),
    (["b", "x.glsl"], .file (printed [two]).toUTF8 false)]

/-- The tree with the module of a snippet. -/
def withModule (t : FileTree) (s : Snippet) : FileTree :=
  t.setNode ["out", "x.glsl.js"] (.file (moduleFor s).code.toUTF8 false)

theorem resolve_copying (source : String) (o : ResolveOptions) :
    ((toolsOf copying t mirrored).resolve source o).value = .ok source :=
  congrArg Except.ok (Text.lossy_toUTF8 source)

/-- A program that ends well without diagnostics is taken by its output. -/
theorem interpret_silent (text : String) :
    ExternalCompiler.interpret "sh" (.ofCompleted { status := .code 0, output := text.toUTF8 }) =
      ExternalCompiler.unwrap text := by
  have hsilent : Text.trim (Text.lossy ByteArray.empty) = "" := by decide +kernel
  change ExternalCompiler.interpret "sh" ⟨.code 0, Text.lossy text.toUTF8,
    Text.lossy ByteArray.empty⟩ = _
  rw [ExternalCompiler.interpret, hsilent, Text.lossy_toUTF8]
  rfl

theorem compile_copying (source : String) (o : CompileOptions) :
    ((toolsOf copying t mirrored).compile source o).value =
      .ok (ExternalCompiler.unwrap source) :=
  congrArg Except.ok (interpret_silent source)

/-- A file is made into the module of a snippet if the compiler prints the snippet for it. -/
theorem moduleOf_printed {s : Snippet} (hs : s = one ∨ s = two) (hnaming : tr.naming = {})
    {text resolved : String} (hread : t.readText f.path = .ok text)
    (hselected : tr.selector.selects f.path = true)
    (hresolve : ((toolsOf launch t c).resolve text (tr.resolverConfig.optionsFor f.path)).value =
      .ok resolved)
    (hcompile : ((toolsOf launch t c).compile (stripInlineMarker resolved)
      tr.compileOptions).value = .ok (ExternalCompiler.unwrap (printed [s]))) :
    (moduleOf launch t c tr f).value = .ok (moduleFor s) := by
  have hnodup : ([s].map Snippet.name).Nodup := List.nodup_singleton _
  have hunwrap : ExternalCompiler.unwrap (printed [s]) = .success (printed [s]) := by
    rcases hs with rfl | rfl <;> decide +kernel
  have hmodule : Bundle.synthesize tr.naming ⟨[s], List.nodup_singleton s.name⟩ =
      .ok (moduleFor s) := by
    rw [hnaming]
    rcases hs with rfl | rfl <;> decide +kernel
  have hbundle : (CompilerResult.success (printed [s])).bundle f.path = .ok ⟨[s], hnodup⟩ := by
    have hnone : (CompilerResult.success (printed [s])).diagnostics? = none := rfl
    rw [CompilerResult.bundle, hnone]
    dsimp only [CompilerResult.success]
    rw [parse_printed hnodup]
    rfl
  exact moduleOf_eq_ok hread hselected hresolve (hunwrap ▸ hcompile) hbundle hmodule

/-- A file with the printed output of a snippet is made into the module of this snippet. -/
theorem moduleOf_copying {s : Snippet} (hs : s = one ∨ s = two)
    (hread : t.readText f.path = .ok (printed [s])) :
    (moduleOf copying t mirrored mirroring f).value = .ok (moduleFor s) := by
  have hmarker : stripInlineMarker (printed [s]) = printed [s] := by
    rcases hs with rfl | rfl <;> decide +kernel
  exact moduleOf_printed hs rfl hread rfl (resolve_copying _ _) (by rw [hmarker, compile_copying])

/-- A file with the printed output of a snippet is written, where there is a directory `out`. -/
theorem processFile_copying {p : String} {s : Snippet} (hs : s = one ∨ s = two)
    (hread : t.readText p = .ok (printed [s])) (hroot : t.workDir = [])
    (hout : t.node? ["out"] = some .directory)
    (hwrite : t.write "out/x.glsl.js" (moduleFor s).code.toUTF8 = .ok (withModule t s)) :
    (processFile copying mirrored mirroring t ⟨p, "x.glsl"⟩).value =
      (withModule t s, .written "out/x.glsl.js" none) := by
  have htarget : targetOf mirrored ⟨p, "x.glsl"⟩ = "out/x.glsl.js" := by
    change join "out" "x.glsl" ++ ".js" = "out/x.glsl.js"
    decide
  have hfound : ∀ followLast, t.locate followLast "out" = .ok (.found ["out"] .directory) := by
    intro followLast
    have hstart : t.startOf "out" = [] := hroot
    refine locate_of_walk ⟨by decide, by decide, by decide⟩ rfl ?_
    rw [hstart]
    exact .enter (usable_of (by decide)) hout (.arrived _ _)
  have hprepare : t.prepare "out/x.glsl.js" = (t, .ok ()) :=
    prepare_of_isDirectory (by decide) (by decide) (by decide) hfound
  have hmade := moduleOf_copying (t := t) (f := ⟨p, "x.glsl"⟩) hs hread
  rw [processFile_of_ok hmade]
  dsimp only [writeModule]
  rw [htarget, Generated.write, hprepare]
  dsimp only
  rw [hwrite]
  rfl

/-- The candidates below `twins`. -/
def twinCandidates : List Candidate := [⟨"/a/x.glsl", "x.glsl"⟩, ⟨"/b/x.glsl", "x.glsl"⟩]

theorem locate_a : twins.locate true "/a/x.glsl" =
    .ok (.found ["a", "x.glsl"] (.file (printed [one]).toUTF8 false)) :=
  locate_of_walk ⟨by decide, by decide, by decide⟩ rfl
    (.enter (usable_of (by decide)) rfl (.file (usable_of (by decide)) rfl))

theorem locate_b : twins.locate true "/b/x.glsl" =
    .ok (.found ["b", "x.glsl"] (.file (printed [two]).toUTF8 false)) :=
  locate_of_walk ⟨by decide, by decide, by decide⟩ rfl
    (.enter (usable_of (by decide)) rfl (.file (usable_of (by decide)) rfl))

theorem transformOf_mirrored : transformOf mirrored (pathOf twins.workDir) = .ok mirroring := rfl

theorem collect_twins : (collect twins mirroring.selector ["a/x.glsl", "b/x.glsl"]).value =
    .ok ⟨twinCandidates, 0⟩ := by
  have hlistings : listings twins ["a/x.glsl", "b/x.glsl"] = .ok twinCandidates :=
    listings_cons (listingOf_file locate_a) (listings_cons (listingOf_file locate_b) rfl)
  rw [collect_value, hlistings]
  decide

/-- The run over the two files. -/
def twinPool : Pool := ⟨copying, mirrored, mirroring, twins, twinCandidates⟩

/-- How far the work is when the files before a place are done. -/
def doneBefore : Nat → Nat → Phase
  | 0 => fun _ => .waiting
  | n + 1 => Function.update (doneBefore n) n (.done (.written "out/x.glsl.js" none))

/-- The module is written under a free name and then written again. -/
theorem state_twins : twinPool.state twinPool.oneByOne =
    ⟨withModule (withModule twins one) two, doneBefore 2⟩ := by
  have hfree : twins.locate true "out/x.glsl.js" = .ok (.vacant ["out"] "x.glsl.js") :=
    locate_of_walk ⟨by decide, by decide, by decide⟩ rfl
      (.enter (usable_of (by decide)) rfl (.vacant (usable_of (by decide)) rfl))
  have htaken : (withModule twins one).locate true "out/x.glsl.js" =
      .ok (.found ["out", "x.glsl.js"] (.file (moduleFor one).code.toUTF8 false)) :=
    locate_of_walk ⟨by decide, by decide, by decide⟩ rfl
      (.enter (usable_of (by decide)) rfl (.file (usable_of (by decide)) rfl))
  have hb : (withModule twins one).locate true "/b/x.glsl" =
      .ok (.found ["b", "x.glsl"] (.file (printed [two]).toUTF8 false)) :=
    locate_of_walk ⟨by decide, by decide, by decide⟩ rfl
      (.enter (usable_of (by decide)) rfl (.file (usable_of (by decide)) rfl))
  have hfirst : (List.replicate 4 0).foldl twinPool.step ⟨twins, doneBefore 0⟩ =
      ⟨withModule twins one, doneBefore 1⟩ :=
    Pool.foldl_candidate rfl rfl (processFile_copying (.inl rfl) (readText_of_locate locate_a) rfl
      rfl (by rw [FileTree.write, hfree]; rfl))
  have hsecond : (List.replicate 4 1).foldl twinPool.step ⟨withModule twins one, doneBefore 1⟩ =
      ⟨withModule (withModule twins one) two, doneBefore 2⟩ :=
    Pool.foldl_candidate rfl rfl (processFile_copying (.inr rfl) (readText_of_locate hb) rfl rfl
      (by rw [FileTree.write, htaken]; rfl))
  have horder : twinPool.oneByOne = List.replicate 4 0 ++ List.replicate 4 1 := rfl
  have hstart : (⟨twinPool.tree, fun _ => .waiting⟩ : Pool.State) = ⟨twins, doneBefore 0⟩ := rfl
  rw [Pool.state, horder, hstart, List.foldl_append, hfirst, hsecond]

/-- The file at a place is reported to be written. -/
theorem writes_twins (second : Bool) :
    twinPool.Writes twinPool.oneByOne (if second then 1 else 0)
      ⟨if second then "/b/x.glsl" else "/a/x.glsl", "x.glsl"⟩ "out/x.glsl.js" none := by
  cases second <;> exact ⟨rfl, by rw [state_twins]; rfl⟩

/-- Of two files at the same place the second one has its module kept, and a source map would have
another path. -/
theorem run_keeps_modules_twins :
    (mirrored.outDir.isSome = true ∧ components "x.glsl" = components "x.glsl") ∧
      components "out/x.glsl.js" ≠ components (mapPath "out/x.glsl.js") ∧
      ∃ g, twinPool.Makes twinPool.oneByOne 1 ⟨"/b/x.glsl", "x.glsl"⟩ g ∧
        ((twinPool.state twinPool.oneByOne).tree.read "out/x.glsl.js" = .ok g.code.toUTF8 ∨
          twinPool.Overwritten twinPool.oneByOne 1 ⟨"/b/x.glsl", "x.glsl"⟩) := by
  obtain ⟨-, hall⟩ := run_keeps_modules (p := twinPool) transformOf_mirrored collect_twins rfl
  obtain ⟨-, hpairs, g, hmakes, hkept, -⟩ := hall twinPool.oneByOne 1 _ _ _ (writes_twins true)
  obtain ⟨hsame, -, hmap⟩ := hpairs 0 _ _ _ (writes_twins false)
  exact ⟨(hsame (by decide)).1 rfl, hmap (by decide), g, hmakes, hkept⟩

/-- **Two files of one name have one module** below an output directory: both are reported to be
written, and the code of the first is lost. -/
theorem run_mirrors_into_one :
    ∃ t, (run copying mirrored twins ["a/x.glsl", "b/x.glsl"]).value =
        (t, .ok ⟨[⟨"/a/x.glsl", .written "out/x.glsl.js" none⟩,
          ⟨"/b/x.glsl", .written "out/x.glsl.js" none⟩], 0⟩) ∧
      (moduleOf copying twins mirrored mirroring ⟨"/a/x.glsl", "x.glsl"⟩).value =
        .ok (moduleFor one) ∧
      t.readText "out/x.glsl.js" = .ok (moduleFor two).code ∧
      (moduleFor one).code ≠ (moduleFor two).code := by
  have hkept : (withModule (withModule twins one) two).locate true "out/x.glsl.js" =
      .ok (.found ["out", "x.glsl.js"] (.file (moduleFor two).code.toUTF8 false)) :=
    locate_of_walk ⟨by decide, by decide, by decide⟩ rfl
      (.enter (usable_of (by decide)) rfl (.file (usable_of (by decide)) rfl))
  have hrun := run_value (p := twinPool) transformOf_mirrored collect_twins rfl
  rw [Pool.reports, state_twins] at hrun
  exact ⟨_, hrun, moduleOf_copying (.inl rfl) (readText_of_locate locate_a),
    readText_of_locate hkept, by decide⟩

end ShaderModules.Run
