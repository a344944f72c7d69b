import ShaderModules.Proofs.Footprints
import ShaderModules.Proofs.Running

/-!
# The order of the candidates

Candidates are independent if none of them looks at an entry that is written for another one
(`Run.Pool.Independent`). Then it does not matter in which order they are worked on, one after the
other or at the same time: each of them comes to what it would come to alone (`Pool.reportAlone`),
and every file is left as by the candidate it is written for (`Pool.Settled`).

The work on each candidate is compared with the work on it alone. After any schedule it is where it
would be alone after as many parts, in a tree that differs in what is written for others
(`Pool.FollowsAlone`). One part of the work on anyone keeps this (`Pool.invariant_step`), since it
is done alike in both trees.
-/

namespace ShaderModules.Run

open FileTree Collection

variable {launch : Launcher} {c : Config} {tr : Transform} {t : FileTree} {f : Candidate}

/-! ## Selected files -/

/-- A selected file is transformed or there is an error. -/
theorem transform_ne_none {tools : Tools Logged} {path code : String}
    (h : tr.selector.selects path = true) : (tr.run tools path code).value ≠ .ok none := by
  unfold Transform.run
  simp only [h, Bool.not_true, Bool.false_eq_true, if_false, Logged.value_bind]
  cases (tools.resolve code (tr.resolverConfig.optionsFor path)).value with
  | error e => nofun
  | ok inlined =>
    simp only [Logged.value_bind]
    cases (tools.compile (stripInlineMarker inlined) tr.compileOptions).value with
    | error e => nofun
    | ok result =>
      dsimp only
      unfold Transform.finish
      cases result.bundle path with
      | error e => nofun
      | ok b =>
        simp only [Logged.value_bind]
        change ((b.synthesize tr.naming).mapError
          (TransformError.structure path)).map some ≠ .ok none
        cases b.synthesize tr.naming <;> nofun

/-- A selected file is still selected. -/
theorem processFile_ne_notSelected (h : tr.selector.selects f.path = true) :
    (processFile launch c tr t f).value.2 ≠ .failed .notSelected := by
  intro hfailed
  rcases processFile_eq_failed (Prod.ext rfl hfailed) with ⟨-, hmade⟩ | ⟨g, cause, -, -, hwrite⟩
  · rcases moduleOf_eq_error hmade with ⟨cause, hread⟩ | ⟨cause, htransform⟩ | ⟨-, code, hrun⟩
    · cases hread
    · cases htransform
    · exact transform_ne_none h hrun
  · cases hwrite

/-! ## Independent candidates -/

/-- Neither of two candidates looks at what is written for the other. -/
structure Separate (c : Config) (tr : Transform) (t : FileTree) (f g : Candidate) : Prop where
  left : ∀ names, Outputs c t f names → ¬Touches c tr t g names
  right : ∀ names, Outputs c t g names → ¬Touches c tr t f names

theorem Separate.symm {g : Candidate} (h : Separate c tr t f g) : Separate c tr t g f :=
  ⟨h.right, h.left⟩

/-- No path of one candidate is the beginning of a path that is resolved for another one. -/
def Aside (c : Config) (tr : Transform) (t : FileTree) (f g : Candidate) : Prop :=
  ∀ q ∈ placesOf (targetOf c f) c.emitSourceMap, ∀ r, Resolves c tr t g r →
    ".." ∉ namesOf q ∧ ".." ∉ namesOf r ∧ ¬t.fullNames q <+: t.fullNames r

/-- Where no path goes up, what is written at a path is looked at for the paths that begin with
it. -/
theorem Aside.not_touches {g : Candidate} (h : Aside c tr t f g) (hlinks : t.LinkFree)
    {names : List String} (houtputs : Outputs c t f names) : ¬Touches c tr t g names := by
  rintro ⟨r, hr, hlooked⟩
  obtain ⟨q, hq, hwrites⟩ := houtputs
  obtain ⟨hup, hup', hprefix⟩ := h q hq r hr
  rw [hwrites.eq_fullNames hlinks hup] at hlooked
  exact hprefix (isPrefix_of_lookedFor hup' hlooked)

theorem separate_of_aside {g : Candidate} (hlinks : t.LinkFree) (h : Aside c tr t f g)
    (h' : Aside c tr t g f) : Separate c tr t f g :=
  ⟨fun _ => h.not_touches hlinks, fun _ => h'.not_touches hlinks⟩

namespace Pool

/-- There are no links, programs depend on what they are given, the directories of the modules are
there, and no candidate looks at what is written for another one. -/
structure Independent (p : Pool) : Prop where
  linkFree : p.tree.LinkFree
  pure : p.launch.Pure
  hasDirectory : ∀ f ∈ p.candidates, p.tree.HasDirectory (targetOf p.config f)
  separate : p.candidates.Pairwise (Separate p.config p.transform p.tree)

/-- The tree and the phase after some parts of the work on a candidate alone. -/
def alone (p : Pool) (f : Candidate) (n : Nat) : FileTree × Phase :=
  (fun s => advance p.launch p.config p.transform f s.1 s.2)^[n] (p.tree, .waiting)

/-- The tree and the outcome after the work on a candidate alone. -/
def resultAlone (p : Pool) (f : Candidate) : FileTree × Outcome :=
  (processFile p.launch p.config p.transform p.tree f).value

/-- The report on a candidate that is worked on alone. -/
def reportAlone (p : Pool) (f : Candidate) : FileReport := ⟨f.path, (p.resultAlone f).2⟩

variable {p : Pool} {schedule : List Nat} {i j : Nat} {g : Candidate} {names : List String}

theorem alone_succ (p : Pool) (f : Candidate) (n : Nat) :
    p.alone f (n + 1) =
      advance p.launch p.config p.transform f (p.alone f n).1 (p.alone f n).2 :=
  Function.iterate_succ_apply' ..

/-- After four parts the work is done. -/
theorem alone_of_four_le {n : Nat} (h : 4 ≤ n) :
    p.alone f n = ((p.resultAlone f).1, .done (p.resultAlone f).2) := by
  induction n, h using Nat.le_induction with
  | base => exact advance_all ..
  | succ n _ ih =>
    rw [alone_succ, ih]
    rfl

theorem alone_reached (p : Pool) (f : Candidate) (n : Nat) :
    (p.alone f n).2.Reached p.config p.tree (p.alone f n).1 := by
  cases n with
  | zero => rfl
  | succ n =>
    rw [alone_succ]
    exact reached_advance ..

namespace Independent

variable (h : p.Independent)
include h

/-- What a candidate looks at is not written for another one. -/
theorem notMem_outputs (hi : p.candidates[i]? = some f) (hj : p.candidates[j]? = some g)
    (hne : i ≠ j) (htouches : Touches p.config p.transform p.tree f names) :
    ¬Outputs p.config p.tree g names := by
  intro houtputs
  exact (rel_of_ne Separate.symm h.separate hi hj hne).right names houtputs htouches

theorem sameDirectories_alone (hf : f ∈ p.candidates) (n : Nat) :
    p.tree.SameDirectories (p.alone f n).1 := by
  induction n with
  | zero => exact .refl h.linkFree
  | succ n ih =>
    obtain ⟨-, halike⟩ := advance_alike h.pure ih ih (h.hasDirectory f hf) (fun _ _ => rfl)
      (p.alone_reached f n)
    rw [alone_succ]
    exact halike.sameDirectories ih

end Independent

/-! ## The invariant -/

/-- The work on a candidate is where it would be alone after as many parts, in a tree that is the
same except for what is written for others. -/
structure FollowsAlone (p : Pool) (schedule : List Nat) (i : Nat) (f : Candidate) : Prop where
  phase : (p.state schedule).phase i = (p.alone f (schedule.count i)).2
  entries : ∀ names, (∀ j g, p.candidates[j]? = some g → i ≠ j → ¬Outputs p.config p.tree g names) →
    (p.state schedule).tree.node? names = (p.alone f (schedule.count i)).1.node? names

/-- What is known of the state that a schedule of independent candidates leads to. -/
structure Invariant (p : Pool) (schedule : List Nat) : Prop where
  sameDirectories : p.tree.SameDirectories (p.state schedule).tree
  kept : ∀ names, (∀ f ∈ p.candidates, ¬Outputs p.config p.tree f names) →
    (p.state schedule).tree.node? names = p.tree.node? names
  follows : ∀ i f, p.candidates[i]? = some f → p.FollowsAlone schedule i f

theorem count_concat_of_ne (schedule : List Nat) (h : i ≠ j) :
    (schedule ++ [j]).count i = schedule.count i := by
  rw [List.count_append, List.count_singleton]
  simp [h.symm]

/-- **Invariant.** One part of the work on any candidate keeps what is known. -/
theorem invariant_step (hp : p.Independent) (h : p.Invariant schedule) (j : Nat) :
    p.Invariant (schedule ++ [j]) := by
  cases hj : p.candidates[j]? with
  | none =>
    -- there is no such candidate, and nothing happens
    have hstate : p.state (schedule ++ [j]) = p.state schedule := by rw [state_concat, step, hj]
    refine ⟨hstate ▸ h.sameDirectories, hstate ▸ h.kept, fun i f hi => ?_⟩
    have hij : i ≠ j := by
      rintro rfl
      cases hi.symm.trans hj
    obtain ⟨hphase, hentries⟩ := h.follows i f hi
    exact ⟨by rw [hstate, hphase, count_concat_of_ne schedule hij],
      by rw [hstate, count_concat_of_ne schedule hij]; exact hentries⟩
  | some g =>
    have hmem := List.mem_of_getElem? hj
    obtain ⟨hphase, hentries⟩ := h.follows j g hj
    -- the work on the candidate is done alike in the tree that it would have alone
    obtain ⟨hnext, halike⟩ := advance_alike hp.pure (hp.sameDirectories_alone hmem _)
      h.sameDirectories (hp.hasDirectory g hmem)
      (fun names htouches => hentries names fun k f hk hne =>
        hp.notMem_outputs hj hk hne htouches)
      (p.alone_reached g (schedule.count j))
    rw [← alone_succ, ← hphase] at hnext halike
    rw [← tree_concat hj schedule] at halike
    rw [← phase_concat hj schedule] at hnext
    refine ⟨halike.symm.sameDirectories h.sameDirectories, fun names hnames => ?_, fun i f hi => ?_⟩
    · exact (halike.symm.kept (hnames g hmem)).trans (h.kept names hnames)
    by_cases hij : i = j
    · subst hij
      cases hi.symm.trans hj
      have hcount : (schedule ++ [i]).count i = schedule.count i + 1 := by simp
      exact ⟨by rw [hcount, hnext], fun names hnames => by
        rw [hcount, halike.agree (hentries names hnames)]⟩
    · obtain ⟨hphase', hentries'⟩ := h.follows i f hi
      refine ⟨?_, fun names hnames => ?_⟩
      · rw [phase_concat_ne hj schedule hij, hphase', count_concat_of_ne schedule hij]
      · rw [halike.symm.kept (hnames j g hj hij), hentries' names hnames,
          count_concat_of_ne schedule hij]

/-- **Every schedule keeps the invariant.** -/
theorem invariant (hp : p.Independent) (schedule : List Nat) : p.Invariant schedule := by
  induction schedule using List.reverseRecOn with
  | nil => exact ⟨.refl hp.linkFree, fun _ _ => rfl, fun _ _ _ => ⟨rfl, fun _ _ => rfl⟩⟩
  | append_singleton schedule j ih => exact invariant_step hp ih j

/-! ## What is left in the end -/

/-- A schedule in which the work on every candidate is done. -/
def Complete (p : Pool) (schedule : List Nat) : Prop :=
  ∀ i < p.candidates.length, 4 ≤ schedule.count i

/-- Every entry is left as by the candidate that it is written for, and all others are left as they
were. -/
structure Settled (p : Pool) (t : FileTree) : Prop where
  written : ∀ f ∈ p.candidates, ∀ names, Outputs p.config p.tree f names →
    t.node? names = (p.resultAlone f).1.node? names
  kept : ∀ names, (∀ f ∈ p.candidates, ¬Outputs p.config p.tree f names) →
    t.node? names = p.tree.node? names

theorem Settled.node?_eq {t' : FileTree} (h : p.Settled t) (h' : p.Settled t')
    (names : List String) : t'.node? names = t.node? names := by
  by_cases hnames : ∃ f ∈ p.candidates, Outputs p.config p.tree f names
  · obtain ⟨f, hf, houtputs⟩ := hnames
    rw [h.written f hf names houtputs, h'.written f hf names houtputs]
  · have hnone : ∀ f ∈ p.candidates, ¬Outputs p.config p.tree f names :=
      fun f hf houtputs => hnames ⟨f, hf, houtputs⟩
    rw [h.kept names hnone, h'.kept names hnone]

theorem settled (hp : p.Independent) (hall : p.Complete schedule) :
    p.Settled (p.state schedule).tree := by
  have h := invariant hp schedule
  refine ⟨fun f hf names houtputs => ?_, h.kept⟩
  obtain ⟨i, hi, hget⟩ := List.getElem_of_mem hf
  have hi' : p.candidates[i]? = some f := by rw [List.getElem?_eq_getElem hi, hget]
  rw [(h.follows i f hi').entries names fun j g hj hne =>
      hp.notMem_outputs hi' hj hne (houtputs.touches hp.linkFree),
    alone_of_four_le (hall i hi)]

/-- Each candidate has the report that it has alone, in the order of the candidates. -/
theorem reports_eq (hp : p.Independent) (hall : p.Complete schedule) :
    p.reports schedule = p.candidates.map p.reportAlone := by
  have hreport : ∀ x ∈ p.candidates.zipIdx,
      (p.state schedule).reportOf? x = some (p.reportAlone x.1) := by
    rintro ⟨f, i⟩ hx
    obtain ⟨hi, hget⟩ := List.mem_zipIdx' hx
    have hphase := ((invariant hp schedule).follows i f
      (by rw [List.getElem?_eq_getElem hi, hget])).phase
    unfold State.reportOf?
    rw [hphase, alone_of_four_le (hall i hi)]
    rfl
  have hmap : p.candidates.zipIdx.filterMap (fun x => some (p.reportAlone x.1)) =
      (p.candidates.zipIdx.map Prod.fst).map p.reportAlone := by
    rw [List.map_map]
    exact congrFun List.filterMap_eq_map _
  rw [reports, List.filterMap_congr hreport, hmap, List.zipIdx_map_fst]

theorem complete_oneByOne (p : Pool) : p.Complete p.oneByOne := by
  intro i hi
  have hsub : (List.replicate 4 i).Sublist p.oneByOne :=
    List.sublist_flatten_of_mem (List.mem_map_of_mem (List.mem_range.2 hi))
  simpa using hsub.count_le i

/-! ## Any order -/

/-- The pool with other candidates. -/
def withCandidates (p : Pool) (order : List Candidate) : Pool := { p with candidates := order }

section Perm

variable {order : List Candidate} (hperm : order.Perm p.candidates)
include hperm

theorem Independent.perm (h : p.Independent) : (p.withCandidates order).Independent where
  linkFree := h.linkFree
  pure := h.pure
  hasDirectory f hf := h.hasDirectory f (hperm.mem_iff.1 hf)
  separate := (hperm.pairwise_iff fun {_ _} => Separate.symm).2 h.separate

theorem Settled.of_perm (h : (p.withCandidates order).Settled t) : p.Settled t where
  written f hf := h.written f (hperm.mem_iff.2 hf)
  kept names hnames := h.kept names fun f hf => hnames f (hperm.mem_iff.1 hf)

end Perm

/-- One after the other is one of the orders. -/
theorem Independent.one_by_one (h : p.Independent) :
    (processAll p.launch p.config p.transform p.tree p.candidates).value.2 =
        p.candidates.map p.reportAlone ∧
      p.Settled (processAll p.launch p.config p.transform p.tree p.candidates).value.1 := by
  rw [← oneByOne_state]
  exact ⟨reports_eq h p.complete_oneByOne, settled h p.complete_oneByOne⟩

/-- **The order does not matter** for independent candidates. Whatever the schedule, every candidate
has the report that it has alone, the reports are in the order of the candidates, and every file is
left as by the candidate that it is written for. So taking the candidates one after the other in any
order gives each the same report and leaves the same entries. A selected candidate is never found to
be selected no longer, and a run is one of the schedules. -/
theorem Independent.any_order (h : p.Independent) :
    (∀ schedule, p.Complete schedule →
      p.reports schedule = p.candidates.map p.reportAlone ∧ p.Settled (p.state schedule).tree) ∧
    (∀ order : List Candidate, order.Perm p.candidates →
      (processAll p.launch p.config p.transform p.tree order).value.2 =
          order.map p.reportAlone ∧
        ∀ names, (processAll p.launch p.config p.transform p.tree order).value.1.node? names =
          (processAll p.launch p.config p.transform p.tree p.candidates).value.1.node? names) ∧
    (∀ f, p.transform.selector.selects f.path = true →
      (p.reportAlone f).outcome ≠ .failed .notSelected) ∧
    ∀ inputs collected,
      transformOf p.config (pathOf p.tree.workDir) = .ok p.transform →
      (collect p.tree p.transform.selector inputs).value = .ok collected →
      p.candidates = collected.candidates →
      ∃ t, (run p.launch p.config p.tree inputs).value =
          (t, .ok ⟨p.candidates.map p.reportAlone, collected.skipped⟩) ∧ p.Settled t ∧
        ∀ r ∈ p.candidates.map p.reportAlone, r.outcome ≠ .failed .notSelected := by
  refine ⟨fun schedule hall => ⟨reports_eq h hall, settled h hall⟩, fun order hperm => ?_,
    fun f => processFile_ne_notSelected, fun inputs collected htransform hcollect hcandidates => ?_⟩
  · obtain ⟨hreports, hsettled⟩ := (h.perm hperm).one_by_one
    exact ⟨hreports, h.one_by_one.2.node?_eq (hsettled.of_perm hperm)⟩
  · refine ⟨_, ?_, settled h p.complete_oneByOne, ?_⟩
    · rw [run_value htransform hcollect hcandidates, reports_eq h p.complete_oneByOne]
    · refine List.forall_mem_map.2 fun f hf => processFile_ne_notSelected ?_
      exact selects_of_collect hcollect (hcandidates ▸ hf)

end Pool

/-! ## A target below a module -/

/-- Programs that print a snippet, whatever they are given. -/
def answering : Launcher := fun _ _ =>
  .ok { status := .code 0, output := (printed [one]).toUTF8 }

/-- Files are inlined, and modules go next to their files with their source maps. -/
def inlining : Config :=
  { mirrored with outDir := none, preprocessor := none, emitSourceMap := true }

/-- A file that includes nothing. -/
def plainFile : Candidate := ⟨"/a.glsl", "a.glsl"⟩

/-- A file with a directive. -/
def includingFile : Candidate := ⟨"/b.glsl", "b.glsl"⟩

/-- The text of the file with a directive for a target. -/
def includingText (target : String) : String := "#include \"" ++ target ++ "\"\n"

/-- The two files. -/
def including (target : String) : FileTree where
  nodes := [(["a.glsl"], .file "".toUTF8 false),
    (["b.glsl"], .file (includingText target).toUTF8 false)]

/-- The work on the two files. -/
def pair (target : String) : Pool :=
  ⟨answering, inlining, mirroring, including target, [plainFile, includingFile]⟩

theorem linkFree_including (target : String) : (including target).LinkFree :=
  linkFree_of_nodes (by simp [including])

theorem hasDirectory_including (target : String) :
    ∀ f ∈ (pair target).candidates, (including target).HasDirectory (targetOf inlining f) := by
  have hroot : (including target).isDirectory "/" = true :=
    isDirectory_iff.2 ⟨[], locate_of_walk ⟨by decide, by decide, by decide⟩ rfl
      (.stay (.arrived _ _))⟩
  have hparents : ∀ f ∈ [plainFile, includingFile],
      Path.parent? (targetOf inlining f) = some "/" := by decide
  intro f hf parent hparent _
  cases (hparents f hf).symm.trans hparent
  exact hroot

theorem readText_plainFile (target : String) :
    (including target).readText "/a.glsl" = .ok "" :=
  readText_of_locate (locate_of_walk ⟨by decide, by decide, by decide⟩ rfl
    (.file (usable_of (by decide)) rfl))

theorem readText_includingFile (target : String) :
    (including target).readText "/b.glsl" = .ok (includingText target) :=
  readText_of_locate (locate_of_walk ⟨by decide, by decide, by decide⟩ rfl
    (.file (usable_of (by decide)) rfl))

/-- For the file that includes nothing its own path is resolved and no other. -/
theorem consults_plainFile {target q : String}
    (h : Consults inlining mirroring (including target) plainFile q) : q = "/a.glsl" := by
  cases h with
  | file => rfl
  | inlined _ hread h =>
    cases (readText_plainFile target).symm.trans hread
    have hlines : ∀ line, line ∉ Text.lines "".toList := fun _ => List.not_mem_nil
    rcases h.of_missing fun line hline => absurd hline (hlines line) with hq | ⟨line, hline, -⟩
    · exact hq
    · exact absurd hline (hlines line)

/-- For the file with a directive its own path is resolved and the target, which is missing. -/
theorem consults_includingFile {target q : String} {line : List Char}
    (hlines : Text.lines (includingText target).toList = [line])
    (hdirective : Directive.Line.ofText line = .target target)
    (hmissing : ∀ names node, (including target).locateAny true (Path.join "/" target) ≠
      .ok (.found names node))
    (h : Consults inlining mirroring (including target) includingFile q) :
    q = "/b.glsl" ∨ q = Path.join "/" target := by
  cases h with
  | file => exact .inl rfl
  | inlined _ hread h =>
    cases (readText_includingFile target).symm.trans hread
    have honly : ∀ line' ∈ Text.lines (includingText target).toList, ∀ target',
        Directive.Line.ofText line' = .target target' → target' = target := by
      intro line' hline target' htarget
      rw [hlines, List.mem_singleton] at hline
      rw [hline, hdirective] at htarget
      cases htarget
      rfl
    have hnone : ∀ line' ∈ Text.lines (includingText target).toList, ∀ names,
        ¬Inliner.Directs (including target) "/" line' names := by
      rintro line' hline names ⟨target', node, htarget, hloc⟩
      cases honly line' hline target' htarget
      exact hmissing names node hloc
    rcases h.of_missing hnone with hq | ⟨line', hline, target', htarget, hq⟩
    · exact .inl hq
    · cases honly line' hline target' htarget
      exact .inr hq

/-- A file with a directive for a missing target next to it. -/
theorem independent_gone : (pair "gone").Independent := by
  have hlines : Text.lines (includingText "gone").toList = ["#include \"gone\"".toList] := rfl
  have hfree : (including "gone").locateAny true "/gone" = .ok (.vacant [] "gone") := by
    have h : (including "gone").locateAny true "/gone" =
        (including "gone").locateFrom true maxLinks [] ["gone"] := rfl
    rw [h, locateFrom]
    rfl
  have hconsults : ∀ q, Consults inlining mirroring (including "gone") includingFile q →
      q = "/b.glsl" ∨ q = "/gone" := fun q =>
    consults_includingFile hlines rfl fun names node heq => by cases hfree.symm.trans heq
  have hplaces : placesOf (targetOf inlining plainFile) inlining.emitSourceMap =
      ["/a.glsl.js", "/a.glsl.js.map"] := by decide
  have hplaces' : placesOf (targetOf inlining includingFile) inlining.emitSourceMap =
      ["/b.glsl.js", "/b.glsl.js.map"] := by decide
  have hapart : ∀ q ∈ ["/a.glsl.js", "/a.glsl.js.map"],
      ∀ r ∈ ["/b.glsl", "/gone", "/b.glsl.js", "/b.glsl.js.map"], ".." ∉ namesOf q ∧
        ".." ∉ namesOf r ∧ ¬(including "gone").fullNames q <+: (including "gone").fullNames r := by
    decide
  have hapart' : ∀ q ∈ ["/b.glsl.js", "/b.glsl.js.map"],
      ∀ r ∈ ["/a.glsl", "/a.glsl.js", "/a.glsl.js.map"], ".." ∉ namesOf q ∧ ".." ∉ namesOf r ∧
        ¬(including "gone").fullNames q <+: (including "gone").fullNames r := by decide
  have hseparate : Separate inlining mirroring (including "gone") plainFile includingFile := by
    refine separate_of_aside (linkFree_including _) (fun q hq r hr => ?_) fun q hq r hr => ?_
    · rw [hplaces] at hq
      refine hapart q hq r ?_
      rcases hr with hr | hr
      · rcases hconsults r hr with rfl | rfl <;> decide
      · rw [hplaces'] at hr
        simp only [List.mem_cons] at hr ⊢
        exact .inr (.inr hr)
    · rw [hplaces'] at hq
      refine hapart' q hq r ?_
      rcases hr with hr | hr
      · rw [consults_plainFile hr]
        decide
      · rw [hplaces] at hr
        exact List.mem_cons_of_mem _ hr
  exact ⟨linkFree_including _, fun _ _ _ => rfl, hasDirectory_including _,
    List.pairwise_pair.2 hseparate⟩

/-- Two files, one of which includes a missing one, are taken in the other order, and at the same
time. -/
theorem any_order_gone :
    (pair "gone").Independent ∧
      (pair "gone").reports [0, 1, 1, 0, 1, 0, 0, 1] =
        [(pair "gone").reportAlone plainFile, (pair "gone").reportAlone includingFile] ∧
      (processAll answering inlining mirroring (including "gone")
          [includingFile, plainFile]).value.2 =
        [(pair "gone").reportAlone includingFile, (pair "gone").reportAlone plainFile] ∧
      ((pair "gone").reportAlone plainFile).outcome ≠ .failed .notSelected := by
  obtain ⟨hschedules, horders, hselected, -⟩ := independent_gone.any_order
  refine ⟨independent_gone, (hschedules [0, 1, 1, 0, 1, 0, 0, 1] ?_).1,
    (horders [includingFile, plainFile] (.swap ..)).1, hselected plainFile rfl⟩
  change ∀ i < 2, 4 ≤ List.count i [0, 1, 1, 0, 1, 0, 0, 1]
  decide

/-! ### Different paths are not enough -/

/-- The paths of all modules and source maps. -/
def Pool.places (p : Pool) : List String :=
  p.candidates.flatMap fun f => placesOf (targetOf p.config f) p.config.emitSourceMap

/-- There are no links, programs depend on what they are given, the directories of the modules are
there, and all modules and source maps have different paths, which are not resolved for any file. -/
structure Pool.DistinctPaths (p : Pool) : Prop where
  linkFree : p.tree.LinkFree
  pure : p.launch.Pure
  hasDirectory : ∀ f ∈ p.candidates, p.tree.HasDirectory (targetOf p.config f)
  pairwise : p.places.Pairwise fun q r => Path.components q ≠ Path.components r
  fresh : ∀ q ∈ p.places, ∀ f ∈ p.candidates, ∀ r, Consults p.config p.transform p.tree f r →
    Path.components q ≠ Path.components r

/-- The file with a directive for a target below the module of the other file. -/
def below : FileTree := including "a.glsl.js/x"

/-- The tree with the module of the first file and its source map. -/
def belowWritten : FileTree :=
  (below.setNode ["a.glsl.js"] (.file (moduleFor one).code.toUTF8 false)).setNode
    ["a.glsl.js.map"] (.file (moduleFor one).map.render.toUTF8 false)

/-- The reason for which there is no module for the file with the directive. -/
def unresolved (e : OsError) : FileError :=
  .transform (.resolution "/b.glsl" (.unreadable "/a.glsl.js/x" e))

theorem missing_below : below.locateAny true "/a.glsl.js/x" = .error .notFound := by
  have h : below.locateAny true "/a.glsl.js/x" =
      below.locateFrom true maxLinks [] ["a.glsl.js", "x"] := rfl
  rw [h, locateFrom]
  rfl

theorem distinctPaths_below : (pair "a.glsl.js/x").DistinctPaths := by
  have hlines : Text.lines (includingText "a.glsl.js/x").toList =
      ["#include \"a.glsl.js/x\"".toList] := rfl
  have hplaces : (pair "a.glsl.js/x").places =
      ["/a.glsl.js", "/a.glsl.js.map", "/b.glsl.js", "/b.glsl.js.map"] := by decide
  refine ⟨linkFree_including _, fun _ _ _ => rfl, hasDirectory_including _, ?_, ?_⟩
  · rw [hplaces]
    decide
  · rw [hplaces]
    have hfresh : ∀ q ∈ ["/a.glsl.js", "/a.glsl.js.map", "/b.glsl.js", "/b.glsl.js.map"],
        ∀ r ∈ ["/a.glsl", "/b.glsl", "/a.glsl.js/x"],
          Path.components q ≠ Path.components r := by decide
    intro q hq f hf r hr
    refine hfresh q hq r ?_
    rcases List.mem_pair.1 hf with rfl | rfl
    · rw [consults_plainFile hr]
      decide
    · have hr' := consults_includingFile hlines rfl
        (fun names node heq => by cases missing_below.symm.trans heq) hr
      rcases hr' with rfl | rfl <;> decide

/-- The file that includes nothing is written. -/
theorem processFile_plainFile :
    (processFile answering inlining mirroring below plainFile).value =
      (belowWritten, .written "/a.glsl.js" (some "/a.glsl.js.map")) := by
  have hresolve : ((toolsOf answering below inlining).resolve ""
      (mirroring.resolverConfig.optionsFor "/a.glsl")).value =
        .ok (inlineMarker ++ Inliner.unlines []) := by
    have hrun : Inliner.IsRun below "" (mirroring.resolverConfig.optionsFor "/a.glsl") [] none :=
      ⟨_, [], .refl _ _, .finished⟩
    exact congrArg Logged.value hrun.resolve_eq
  have hmade : (moduleOf answering below inlining mirroring plainFile).value =
      .ok (moduleFor one) :=
    moduleOf_printed (.inl rfl) rfl (readText_plainFile _) rfl hresolve
      (congrArg Except.ok (interpret_silent _))
  have htarget : targetOf inlining plainFile = "/a.glsl.js" := by decide
  have hmapPath : mapPath "/a.glsl.js" = "/a.glsl.js.map" := by decide
  have hprepare : below.prepare "/a.glsl.js" = (below, .ok ()) :=
    htarget ▸ prepare_of_hasDirectory (linkFree_including _)
      (hasDirectory_including _ plainFile List.mem_cons_self)
  have hfree : below.locate true "/a.glsl.js" = .ok (.vacant [] "a.glsl.js") :=
    locate_of_walk ⟨by decide, by decide, by decide⟩ rfl (.vacant (usable_of (by decide)) rfl)
  have hfreeMap : (below.setNode ["a.glsl.js"]
      (.file (moduleFor one).code.toUTF8 false)).locate true "/a.glsl.js.map" =
        .ok (.vacant [] "a.glsl.js.map") :=
    locate_of_walk ⟨by decide, by decide, by decide⟩ rfl (.vacant (usable_of (by decide)) rfl)
  have hemit : inlining.emitSourceMap = true := rfl
  rw [processFile_of_ok hmade]
  dsimp only [writeModule]
  rw [htarget, Generated.write, hprepare]
  dsimp only
  rw [FileTree.write, hfree]
  dsimp only
  rw [hemit, if_pos rfl, hmapPath, FileTree.write, List.nil_append, hfreeMap]
  rfl

/-- There is no module for the file with the directive. -/
theorem processFile_includingFile {t : FileTree} {e : OsError}
    (hread : t.readText "/b.glsl" = .ok (includingText "a.glsl.js/x"))
    (hmissing : t.locateAny true "/a.glsl.js/x" = .error e) :
    (processFile answering inlining mirroring t includingFile).value =
      (t, .failed (unresolved e)) := by
  have hmeet : Inliner.meet t (Inliner.start t "/b.glsl")
      ⟨"/b.glsl", 1, "/", "#include \"a.glsl.js/x\"".toList⟩ =
        .error (.unreadable "/a.glsl.js/x" e) := by
    have hline : Directive.Line.ofText "#include \"a.glsl.js/x\"".toList =
        .target "a.glsl.js/x" := rfl
    have hpath : Path.join "/" "a.glsl.js/x" = "/a.glsl.js/x" := by decide
    unfold Inliner.meet
    rw [hline]
    dsimp only
    rw [hpath, hmissing]
  have hrun : Inliner.IsRun t (includingText "a.glsl.js/x")
      (mirroring.resolverConfig.optionsFor "/b.glsl") []
      (some (.unreadable "/a.glsl.js/x" e)) := ⟨_, _, .refl _ _, .failed hmeet⟩
  have hresolve : ((toolsOf answering t inlining).resolve (includingText "a.glsl.js/x")
      (mirroring.resolverConfig.optionsFor "/b.glsl")).value =
        .error (.unreadable "/a.glsl.js/x" e) := congrArg Logged.value hrun.resolve_eq
  have hselected : mirroring.selector.selects "/b.glsl" = true := rfl
  have hmade : (moduleOf answering t inlining mirroring includingFile).value =
      .error (unresolved e) := by
    unfold moduleOf
    dsimp only [includingFile]
    rw [hread]
    simp only [Logged.value_bind, Transform.run, hselected, Bool.not_true, Bool.false_eq_true,
      if_false, hresolve]
    rfl
  exact processFile_of_error hmade

/-- **Different paths are not enough.** The path of a module is none of the paths that are resolved,
but the target of a directive is below it: it is not found before the module is written, and
afterwards there is a file where a directory would have to be. -/
theorem order_matters_below_module :
    (pair "a.glsl.js/x").DistinctPaths ∧
      (processAll answering inlining mirroring (including "a.glsl.js/x")
          [plainFile, includingFile]).value.2 =
        [⟨"/a.glsl", .written "/a.glsl.js" (some "/a.glsl.js.map")⟩,
          ⟨"/b.glsl", .failed (unresolved .notDirectory)⟩] ∧
      (processAll answering inlining mirroring (including "a.glsl.js/x")
          [includingFile, plainFile]).value.2 =
        [⟨"/b.glsl", .failed (unresolved .notFound)⟩,
          ⟨"/a.glsl", .written "/a.glsl.js" (some "/a.glsl.js.map")⟩] ∧
      unresolved .notDirectory ≠ unresolved .notFound := by
  have hafter : belowWritten.locateAny true "/a.glsl.js/x" = .error .notDirectory := by
    have h : belowWritten.locateAny true "/a.glsl.js/x" =
        belowWritten.locateFrom true maxLinks [] ["a.glsl.js", "x"] := rfl
    rw [h, locateFrom]
    rfl
  have hread : belowWritten.readText "/b.glsl" = .ok (includingText "a.glsl.js/x") :=
    readText_of_locate (locate_of_walk ⟨by decide, by decide, by decide⟩ rfl
      (.file (usable_of (by decide)) rfl))
  have hfirst := processFile_plainFile
  have hsecond := processFile_includingFile hread hafter
  have hfirst' := processFile_includingFile (readText_includingFile _) missing_below
  unfold below at hfirst hfirst'
  refine ⟨distinctPaths_below, ?_, ?_, by decide⟩
  · simp only [processAll, Logged.value_bind, hfirst, hsecond]
    rfl
  · simp only [processAll, Logged.value_bind, hfirst', hfirst]
    rfl

end ShaderModules.Run
