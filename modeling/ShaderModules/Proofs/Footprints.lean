import ShaderModules.Proofs.Inlining.Consulted
import ShaderModules.Proofs.Workers

/-!
# What the work on a candidate looks at and writes

The work on a candidate resolves the paths of its file, of what its file includes, of its module and
of its source map. It looks at the entries on the way of these paths (`Run.Touches`) and writes
files where the last two lead (`Run.Outputs`). Programs that are run depend on what they are given
and not on files (`Launcher.Pure`).

Two trees with the same directories in which the entries looked at are the same are alike for the
work: its next part ends in the same way and changes the same entry in both (`advance_alike`).

* `Run.Consults`: the paths that are read or resolved for a candidate.
* `Run.moduleOf_congr`: the module depends on the entries looked at for these paths.
-/

namespace ShaderModules

/-- Programs are functions of what they are given: program, arguments, directory and input. -/
def Launcher.Pure (launch : Launcher) : Prop := ∀ t t' i, launch t' i = launch t i

/-- The tools only ask of a tree whether the base directory is there. -/
theorem ExternalCommand.run_congr {launch : Launcher} (hpure : launch.Pure) {t t' : FileTree}
    (h : ∀ p, t'.isDirectory p = t.isDirectory p) (c : ExternalCommand) (input : String)
    (more : List String) (vars : Keyed String) (dir : Option String) :
    c.run launch t' input more vars dir = c.run launch t input more vars dir := by
  have hinvocation : c.invocation t' input more vars dir = c.invocation t input more vars dir := by
    unfold invocation
    rw [funext h]
  unfold run
  dsimp only
  rw [hinvocation, hpure t t']

namespace Run

open FileTree

variable {launch : Launcher} {c : Config} {tr : Transform} {start t t' : FileTree} {f : Candidate}

/-! ## Reading -/

/-- The paths that are read or resolved for a candidate: that of its file and, when files are
inlined, those that are resolved for its text. -/
inductive Consults (c : Config) (tr : Transform) (t : FileTree) (f : Candidate) : String → Prop
  | file : Consults c tr t f f.path
  | inlined {text path : String} (inlines : c.preprocessor = none)
      (reads : t.readText f.path = .ok text)
      (consults : Inliner.Consults t text (tr.resolverConfig.optionsFor f.path) path) :
      Consults c tr t f path

/-- A transform looks at its resolver for one text only. -/
theorem transform_congr {m : Type → Type} [Monad m] {tools : Tools m}
    {resolve : String → ResolveOptions → m (Except ToolError String)} {path code : String}
    (h : resolve code (tr.resolverConfig.optionsFor path) =
      tools.resolve code (tr.resolverConfig.optionsFor path)) :
    tr.run { tools with resolve } path code = tr.run tools path code := by
  unfold Transform.run
  dsimp only
  rw [h]
  rfl

/-- **The module of a candidate** depends on the entries that are looked at for the paths consulted,
and on the directories. -/
theorem moduleOf_congr (hpure : launch.Pure) (hsame : t.SameDirectories t')
    (h : ∀ q, Consults c tr t f q → ∀ names ∈ t.lookedFor q, t'.node? names = t.node? names) :
    moduleOf launch t' c tr f = moduleOf launch t c tr f := by
  have hcompile : (toolsOf launch t' c).compile = (toolsOf launch t c).compile := by
    funext source o
    dsimp only [toolsOf]
    unfold ExternalCompiler.compile
    rw [ExternalCommand.run_congr hpure hsame.isDirectory]
  have htools : toolsOf launch t' c =
      { toolsOf launch t c with resolve := (toolsOf launch t' c).resolve } :=
    congrArg (fun compile => { toolsOf launch t' c with compile }) hcompile
  have hread : t'.readText f.path = t.readText f.path :=
    readText_congr hsame.linkFree hsame.workDir (h _ .file)
  unfold moduleOf
  rw [hread]
  cases htext : t.readText f.path with
  | error e => rfl
  | ok text =>
    have hresolve : (toolsOf launch t' c).resolve text (tr.resolverConfig.optionsFor f.path) =
        (toolsOf launch t c).resolve text (tr.resolverConfig.optionsFor f.path) := by
      dsimp only [toolsOf]
      cases hpre : c.preprocessor with
      | some command =>
        dsimp only
        unfold ExternalPreprocessor.resolve
        rw [ExternalCommand.run_congr hpure hsame.isDirectory]
      | none =>
        exact Inliner.resolve_congr hsame.linkFree hsame.workDir fun q hq =>
          h q (.inlined hpre htext hq)
    dsimp only
    rw [htools, transform_congr hresolve]

/-! ## Writing -/

/-- The entries under which files are written for a candidate: where the paths of its module and of
its source map lead. -/
def Outputs (c : Config) (t : FileTree) (f : Candidate) (names : List String) : Prop :=
  ∃ q ∈ placesOf (targetOf c f) c.emitSourceMap, t.WritesAt q names

/-- The paths that are resolved in the work on a candidate. -/
def Resolves (c : Config) (tr : Transform) (t : FileTree) (f : Candidate) (q : String) : Prop :=
  Consults c tr t f q ∨ q ∈ placesOf (targetOf c f) c.emitSourceMap

/-- The entries that are looked at in the work on a candidate. -/
def Touches (c : Config) (tr : Transform) (t : FileTree) (f : Candidate) (names : List String) :
    Prop :=
  ∃ q, Resolves c tr t f q ∧ names ∈ t.lookedFor q

variable {names : List String}

theorem Outputs.touches (h : Outputs c t f names) (hlinks : t.LinkFree) :
    Touches c tr t f names := by
  obtain ⟨q, hq, hwrites⟩ := h
  exact ⟨q, .inr hq, hwrites.mem_lookedFor hlinks⟩

/-- Two trees are left as they are, or the same file of the candidate is put in both. -/
inductive Alike (c : Config) (start : FileTree) (f : Candidate) (t t' : FileTree) :
    FileTree → FileTree → Prop
  | same : Alike c start f t t' t t'
  | put {names : List String} {contents : ByteArray} {executable : Bool}
      (outputs : Outputs c start f names) :
      Alike c start f t t' (t.setNode names (.file contents executable))
        (t'.setNode names (.file contents executable))

section Alike

variable {u u' : FileTree} (h : Alike c start f t t' u u')
include h

theorem Alike.symm : Alike c start f t' t u' u := by
  cases h with
  | same => exact .same
  | put houtputs => exact .put houtputs

theorem Alike.sameDirectories (ht : start.SameDirectories t) : start.SameDirectories u := by
  cases h with
  | same => exact ht
  | put houtputs =>
    obtain ⟨q, -, hwrites⟩ := houtputs
    exact ht.setNode hwrites _ _

/-- Only files of the candidate are put. -/
theorem Alike.kept (hnames : ¬Outputs c start f names) : u.node? names = t.node? names := by
  cases h with
  | same => rfl
  | put houtputs =>
    obtain ⟨q, hq, hwrites⟩ := houtputs
    rw [node?_setNode t hwrites.ne_nil, if_neg]
    rintro rfl
    exact hnames ⟨q, hq, hwrites⟩

/-- Entries that are the same in both trees stay the same. -/
theorem Alike.agree (hnames : t'.node? names = t.node? names) :
    u'.node? names = u.node? names := by
  cases h with
  | same => exact hnames
  | put houtputs =>
    obtain ⟨q, hq, hwrites⟩ := houtputs
    rw [node?_setNode t hwrites.ne_nil, node?_setNode t' hwrites.ne_nil, hnames]

end Alike

/-- What is known of the tree, and of a phase that the work has come to from the start. -/
def Phase.Reached (c : Config) (start t : FileTree) : Phase → Prop
  | .waiting => t = start
  | .unmapped _ => c.emitSourceMap = true
  | _ => True

theorem reached_advance (launch : Launcher) (c : Config) (tr : Transform) (f : Candidate)
    (start t u : FileTree) (phase : Phase) :
    (advance launch c tr f t phase).2.Reached c start u := by
  cases phase with
  | waiting =>
    dsimp only [advance]
    cases (moduleOf launch t c tr f).value <;> trivial
  | made g =>
    dsimp only [advance]
    split <;> trivial
  | ready g =>
    dsimp only [advance]
    cases t.write (targetOf c f) g.code.toUTF8 with
    | error e => trivial
    | ok t' =>
      dsimp only
      split
      · assumption
      · trivial
  | unmapped g =>
    dsimp only [advance]
    cases t.write (mapPath (targetOf c f)) g.map.render.toUTF8 <;> trivial
  | done outcome => trivial

section Frame

variable (hpure : launch.Pure) (ht : start.SameDirectories t) (ht' : start.SameDirectories t')
  (hdir : start.HasDirectory (targetOf c f))
  (h : ∀ names, Touches c tr start f names → t'.node? names = t.node? names)
include ht ht' h

/-- Writing at a place of a candidate ends in the same way in both trees. -/
theorem write_alike {q : String} (hq : q ∈ placesOf (targetOf c f) c.emitSourceMap)
    (contents : ByteArray) :
    (∃ e, t.write q contents = .error e ∧ t'.write q contents = .error e) ∨
      ∃ u u', t.write q contents = .ok u ∧ t'.write q contents = .ok u' ∧
        Alike c start f t t' u u' := by
  have hworkDir : t'.workDir = t.workDir := ht'.workDir.trans ht.workDir.symm
  have hlooked : ∀ names ∈ t.lookedFor q, t'.node? names = t.node? names := fun names hnames =>
    h names ⟨q, .inr hq, ht.lookedFor q ▸ hnames⟩
  rcases write_congr ht.linkFree' hworkDir hlooked contents with
    herror | ⟨names, executable, hwrites, hu, hu'⟩
  · exact .inl herror
  · exact .inr ⟨_, _, hu, hu', .put ⟨q, hq, ht.symm.writesAt hwrites⟩⟩

include hpure hdir

/-- **Frame.** The next part of the work ends in the same way in two trees with the same directories
in which the entries looked at are the same, and it changes both trees alike. -/
theorem advance_alike {phase : Phase} (hreached : phase.Reached c start t) :
    (advance launch c tr f t' phase).2 = (advance launch c tr f t phase).2 ∧
      Alike c start f t t' (advance launch c tr f t phase).1
        (advance launch c tr f t' phase).1 := by
  cases phase with
  | waiting =>
    have hmodule : moduleOf launch t' c tr f = moduleOf launch t c tr f := by
      cases hreached
      exact moduleOf_congr hpure ht' fun q hq names hnames => h names ⟨q, .inl hq, hnames⟩
    dsimp only [advance]
    rw [hmodule]
    cases (moduleOf launch t c tr f).value <;> exact ⟨rfl, .same⟩
  | made g =>
    dsimp only [advance]
    rw [prepare_of_hasDirectory ht.linkFree' (ht.hasDirectory hdir),
      prepare_of_hasDirectory ht'.linkFree' (ht'.hasDirectory hdir)]
    exact ⟨rfl, .same⟩
  | ready g =>
    dsimp only [advance]
    rcases write_alike ht ht' h List.mem_cons_self g.code.toUTF8 with
      ⟨e, hu, hu'⟩ | ⟨u, u', hu, hu', halike⟩
    · rw [hu, hu']
      exact ⟨rfl, .same⟩
    · rw [hu, hu']
      exact ⟨rfl, halike⟩
  | unmapped g =>
    have hq : mapPath (targetOf c f) ∈ placesOf (targetOf c f) c.emitSourceMap := by
      have hemit : c.emitSourceMap = true := hreached
      simp [placesOf, hemit]
    dsimp only [advance]
    rcases write_alike ht ht' h hq g.map.render.toUTF8 with
      ⟨e, hu, hu'⟩ | ⟨u, u', hu, hu', halike⟩
    · rw [hu, hu']
      exact ⟨rfl, .same⟩
    · rw [hu, hu']
      exact ⟨rfl, halike⟩
  | done outcome => exact ⟨rfl, .same⟩

end Frame

end Run

end ShaderModules
