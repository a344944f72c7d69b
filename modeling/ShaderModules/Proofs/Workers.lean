import Mathlib.Data.List.Induction
import Mathlib.Logic.Function.Iterate
import ShaderModules.Proofs.Output.Modules
import ShaderModules.Run

/-!
# Several candidates at a time

The work on a candidate has several parts (`Run.advance`): its module is made, the directory for it
is created, the module is written and then its source map, if one is wanted. In a pool the
candidates are worked on at the same time, in any order of their parts. Taking one candidate after
the other is one of these orders (`Pool.oneByOne_state`).

A module that is written holds the code made of its own file, whoever else is at work, unless
another path that is written at leads to the same file. This is an invariant of the pool
(`Pool.sound_step`, `Pool.sound`) and is read off for modules that are reported to be written
(`Pool.Writes.holds`).

* `Run.Phase`: how far the work on a candidate is.
* `Run.Pool.state`: what a schedule leads to.
* `Run.Pool.Overwritten`: a module whose file is written at through another path.
-/

namespace ShaderModules

namespace Run

open ShaderModules.Path FileTree

variable {launch : Launcher} {c : Config} {tr : Transform} {t t' : FileTree} {f : Candidate}
  {g : Generated}

/-! ## The module of a candidate -/

/-- Only a file has a module. -/
theorem endsInName_of_moduleOf (h : (moduleOf launch t c tr f).value = .ok g) :
    ∃ name, EndsInName f.path name := by
  cases htext : t.readText f.path with
  | error e =>
    unfold moduleOf at h
    rw [htext] at h
    cases h
  | ok text =>
    unfold readText at htext
    cases hread : t.read f.path with
    | error e => rw [hread] at htext; cases htext
    | ok contents =>
      obtain ⟨names, hleads⟩ := leadsTo_of_read hread
      exact hleads.endsInName

/-- The module of a candidate, step by step: its text is preprocessed and compiled, and the output
is made into a module. -/
theorem moduleOf_eq_ok {text resolved : String} {result : CompilerResult} {b : Bundle}
    (hread : t.readText f.path = .ok text) (hselected : tr.selector.selects f.path = true)
    (hresolve : ((toolsOf launch t c).resolve text (tr.resolverConfig.optionsFor f.path)).value =
      .ok resolved)
    (hcompile : ((toolsOf launch t c).compile (stripInlineMarker resolved)
      tr.compileOptions).value = .ok result)
    (hbundle : result.bundle f.path = .ok b) (hmodule : b.synthesize tr.naming = .ok g) :
    (moduleOf launch t c tr f).value = .ok g := by
  have hrun : (tr.run (toolsOf launch t c) f.path text).value = .ok (some g) := by
    unfold Transform.run
    simp only [hselected, Bool.not_true, Bool.false_eq_true, if_false, Logged.value_bind, hresolve,
      hcompile, Transform.finish, hbundle, hmodule]
    rfl
  unfold moduleOf
  rw [hread]
  simp only [Logged.value_bind, hrun]
  rfl

/-! ## Failures -/

variable {e : FileError}

/-- There is no module of a candidate if its file is not read, if the transform of its text fails,
or if it is selected no longer. -/
theorem moduleOf_eq_error (h : (moduleOf launch t c tr f).value = .error e) :
    (∃ cause, e = .unreadable cause) ∨ (∃ cause, e = .transform cause) ∨
      e = .notSelected ∧ ∃ code, (tr.run (toolsOf launch t c) f.path code).value = .ok none := by
  unfold moduleOf at h
  cases hread : t.readText f.path with
  | error cause =>
    rw [hread] at h
    cases h
    exact .inl ⟨cause, rfl⟩
  | ok code =>
    rw [hread] at h
    dsimp only at h
    rw [Logged.value_bind] at h
    cases hrun : (tr.run (toolsOf launch t c) f.path code).value with
    | error cause =>
      rw [hrun] at h
      cases h
      exact .inr (.inl ⟨cause, rfl⟩)
    | ok made =>
      rw [hrun] at h
      cases made with
      | none =>
        cases h
        exact .inr (.inr ⟨rfl, code, hrun⟩)
      | some g => cases h

theorem processFile_of_ok (h : (moduleOf launch t c tr f).value = .ok g) :
    (processFile launch c tr t f).value = writeModule t c f g := by
  unfold processFile
  dsimp only
  rw [h]

theorem processFile_of_error (h : (moduleOf launch t c tr f).value = .error e) :
    (processFile launch c tr t f).value = (t, .failed e) := by
  unfold processFile
  dsimp only
  rw [h]

/-- A file fails if there is no module of it, or if the module is not written. -/
theorem processFile_eq_failed (h : (processFile launch c tr t f).value = (t', .failed e)) :
    (t' = t ∧ (moduleOf launch t c tr f).value = .error e) ∨
      ∃ g cause, (moduleOf launch t c tr f).value = .ok g ∧
        g.write t (targetOf c f) c.emitSourceMap = (t', .error cause) ∧ e = .write cause := by
  cases hmade : (moduleOf launch t c tr f).value with
  | error e =>
    rw [processFile_of_error hmade] at h
    cases h
    exact .inl ⟨rfl, rfl⟩
  | ok g =>
    rw [processFile_of_ok hmade, writeModule] at h
    split at h
    · cases h
    · rename_i written cause hwrite
      cases h
      exact .inr ⟨g, cause, rfl, hwrite, rfl⟩

/-! ## Parts of the work -/

/-- How far the work on a candidate is. -/
inductive Phase where
  | waiting
  /-- The module is made. -/
  | made (g : Generated)
  /-- The directory for the module is there. -/
  | ready (g : Generated)
  /-- The module is written and its source map is not yet. -/
  | unmapped (g : Generated)
  | done (outcome : Outcome)

/-- The next part of the work on a candidate. Nothing else happens during a part: the file, all
that it includes and the outputs of the programs are read as the tree is when the module is made,
and every file is written as a whole. -/
def advance (launch : Launcher) (c : Config) (tr : Transform) (f : Candidate) (t : FileTree) :
    Phase → FileTree × Phase
  | .waiting =>
    match (moduleOf launch t c tr f).value with
    | .ok g => (t, .made g)
    | .error e => (t, .done (.failed e))
  | .made g =>
    match t.prepare (targetOf c f) with
    | (t, .ok ()) => (t, .ready g)
    | (t, .error e) => (t, .done (.failed (.write e)))
  | .ready g =>
    match t.write (targetOf c f) g.code.toUTF8 with
    | .ok t =>
      (t, if c.emitSourceMap then .unmapped g else .done (.written (targetOf c f) none))
    | .error e => (t, .done (.failed (.write (.module (targetOf c f) e))))
  | .unmapped g =>
    let map := mapPath (targetOf c f)
    match t.write map g.map.render.toUTF8 with
    | .ok t => (t, .done (.written (targetOf c f) (some map)))
    | .error e => (t, .done (.failed (.write (.sourceMap map e))))
  | .done outcome => (t, .done outcome)

/-- All parts of the work on a candidate are the work on it. -/
theorem advance_all (launch : Launcher) (c : Config) (tr : Transform) (f : Candidate)
    (t : FileTree) :
    (fun s => advance launch c tr f s.1 s.2)^[4] (t, .waiting) =
      ((processFile launch c tr t f).value.1, .done (processFile launch c tr t f).value.2) := by
  simp only [Function.iterate_succ, Function.iterate_zero, Function.comp_apply, id_eq]
  unfold processFile
  dsimp only [advance]
  cases (moduleOf launch t c tr f).value with
  | error e => rfl
  | ok g =>
    dsimp only [writeModule]
    unfold Generated.write
    obtain ⟨prepared, made⟩ := t.prepare (targetOf c f)
    cases made with
    | error e => rfl
    | ok =>
      dsimp only
      cases prepared.write (targetOf c f) g.code.toUTF8 with
      | error e => rfl
      | ok written =>
        dsimp only
        by_cases hmap : c.emitSourceMap = true
        · simp only [hmap, if_true]
          cases written.write (mapPath (targetOf c f)) g.map.render.toUTF8 <;> rfl
        · simp only [hmap, Bool.false_eq_true, if_false]

/-- The path that the next part of the work writes at. -/
def placeIn (c : Config) (f : Candidate) : Phase → Option String
  | .ready _ => some (targetOf c f)
  | .unmapped _ => some (mapPath (targetOf c f))
  | _ => none

theorem advance_acts (launch : Launcher) (c : Config) (tr : Transform) (f : Candidate)
    (t : FileTree) (phase : Phase) :
    Acts (fun p => placeIn c f phase = some p) t (advance launch c tr f t phase).1 := by
  cases phase with
  | waiting =>
    dsimp only [advance]
    cases (moduleOf launch t c tr f).value <;> exact .done _
  | made g =>
    have hacts := prepare_acts t (targetOf c f) fun p => placeIn c f (.made g) = some p
    dsimp only [advance]
    split
    · rename_i hprepare
      rwa [hprepare] at hacts
    · rename_i hprepare
      rwa [hprepare] at hacts
  | ready g =>
    dsimp only [advance]
    cases hwrite : t.write (targetOf c f) g.code.toUTF8 with
    | error e => exact .done _
    | ok t' => exact .step (.write rfl hwrite) (.done _)
  | unmapped g =>
    dsimp only [advance]
    cases hwrite : t.write (mapPath (targetOf c f)) g.map.render.toUTF8 with
    | error e => exact .done _
    | ok t' => exact .step (.write rfl hwrite) (.done _)
  | done outcome => exact .done _

/-! ## Pools -/

/-- Candidates that are worked on at the same time. -/
structure Pool where
  launch : Launcher
  config : Config
  transform : Transform
  tree : FileTree
  candidates : List Candidate

namespace Pool

/-- The tree, and how far the work on each candidate is. -/
structure State where
  tree : FileTree
  phase : Nat → Phase

variable {p : Pool} {s : State} {schedule schedule' : List Nat} {i j : Nat}

/-- One part of the work on the candidate at a place. -/
def step (p : Pool) (s : State) (i : Nat) : State :=
  match p.candidates[i]? with
  | none => s
  | some f =>
    let next := advance p.launch p.config p.transform f s.tree (s.phase i)
    ⟨next.1, Function.update s.phase i next.2⟩

/-- What a schedule leads to: it says on which candidate the next part of the work is done. -/
def state (p : Pool) (schedule : List Nat) : State :=
  schedule.foldl p.step ⟨p.tree, fun _ => .waiting⟩

theorem step_eq (h : p.candidates[i]? = some f) :
    p.step s i =
      ⟨(advance p.launch p.config p.transform f s.tree (s.phase i)).1, Function.update s.phase i
        (advance p.launch p.config p.transform f s.tree (s.phase i)).2⟩ := by
  unfold step
  rw [h]

theorem state_concat (p : Pool) (schedule : List Nat) (i : Nat) :
    p.state (schedule ++ [i]) = p.step (p.state schedule) i := by
  rw [state, List.foldl_append]
  rfl

theorem tree_concat (h : p.candidates[i]? = some f) (schedule : List Nat) :
    (p.state (schedule ++ [i])).tree = (advance p.launch p.config p.transform f
      (p.state schedule).tree ((p.state schedule).phase i)).1 := by
  rw [state_concat, step_eq h]

theorem phase_concat (h : p.candidates[i]? = some f) (schedule : List Nat) :
    (p.state (schedule ++ [i])).phase i = (advance p.launch p.config p.transform f
      (p.state schedule).tree ((p.state schedule).phase i)).2 := by
  rw [state_concat, step_eq h]
  exact Function.update_self ..

theorem phase_concat_ne (h : p.candidates[i]? = some f) (schedule : List Nat) (hne : j ≠ i) :
    (p.state (schedule ++ [i])).phase j = (p.state schedule).phase j := by
  rw [state_concat, step_eq h]
  exact Function.update_of_ne hne ..

theorem acts_concat (h : p.candidates[i]? = some f) (schedule : List Nat) :
    Acts (fun q => placeIn p.config f ((p.state schedule).phase i) = some q) (p.state schedule).tree
      (p.state (schedule ++ [i])).tree := by
  rw [tree_concat h]
  exact advance_acts ..

/-- The report on a candidate that the work is done on. -/
def State.reportOf? (s : State) (x : Candidate × Nat) : Option FileReport :=
  match s.phase x.2 with
  | .done outcome => some ⟨x.1.path, outcome⟩
  | _ => none

/-- The reports that a schedule leads to. -/
def reports (p : Pool) (schedule : List Nat) : List FileReport :=
  p.candidates.zipIdx.filterMap (p.state schedule).reportOf?

/-! ## One after the other -/

/-- The schedule that takes one candidate after the other. -/
def oneByOne (p : Pool) : List Nat :=
  (List.range p.candidates.length).flatMap (List.replicate 4)

theorem foldl_replicate (h : p.candidates[i]? = some f) (n : Nat) (s : State) :
    (List.replicate n i).foldl p.step s =
      let next := (fun x => advance p.launch p.config p.transform f x.1 x.2)^[n] (s.tree, s.phase i)
      ⟨next.1, Function.update s.phase i next.2⟩ := by
  induction n generalizing s with
  | zero => simp
  | succ n ih =>
    rw [List.replicate_succ, List.foldl_cons, ih, step_eq h]
    simp only [Function.update_self, Function.update_idem, Function.iterate_succ,
      Function.comp_apply]

/-- All of the work on a candidate. -/
theorem foldl_candidate (h : p.candidates[i]? = some f) (hwaiting : s.phase i = .waiting)
    {outcome : Outcome}
    (hdone : (processFile p.launch p.config p.transform s.tree f).value = (t, outcome)) :
    (List.replicate 4 i).foldl p.step s = ⟨t, Function.update s.phase i (.done outcome)⟩ := by
  rw [foldl_replicate h, hwaiting, advance_all, hdone]

/-- Candidates are taken one after the other, behind some that are done with. -/
theorem foldl_oneByOne {before rest : List Candidate} (h : p.candidates = before ++ rest) {n : Nat}
    (hn : n = before.length) {s s' : State} (hwaiting : ∀ i, n ≤ i → s.phase i = .waiting)
    (hs' : ((List.range' n rest.length).flatMap (List.replicate 4)).foldl p.step s = s') :
    (s'.tree, (rest.zipIdx n).filterMap s'.reportOf?) =
        (processAll p.launch p.config p.transform s.tree rest).value ∧
      ∀ i < n, s'.phase i = s.phase i := by
  induction rest generalizing before n s with
  | nil =>
    subst hs'
    exact ⟨rfl, fun _ _ => rfl⟩
  | cons f rest ih =>
    have hat : p.candidates[n]? = some f := by simp [h, hn]
    rw [List.length_cons, List.range'_succ, List.flatMap_cons, List.foldl_append,
      foldl_candidate hat (hwaiting n (Nat.le_refl n)) (Prod.eta _).symm] at hs'
    obtain ⟨hvalue, hkept⟩ := @ih (before ++ [f]) (by simp [h]) (n + 1) (by simp [hn]) _
      (fun i hi => (Function.update_of_ne (Nat.ne_of_gt hi) _ _).trans
        (hwaiting i (Nat.le_of_succ_le hi))) hs'
    dsimp only at hkept
    refine ⟨?_, fun i hi => ?_⟩
    · have hdone : s'.reportOf? (f, n) =
          some ⟨f.path, (processFile p.launch p.config p.transform s.tree f).value.2⟩ := by
        unfold State.reportOf?
        rw [hkept n (Nat.lt_succ_self n), Function.update_self]
      rw [List.zipIdx_cons, List.filterMap_cons_some hdone]
      exact congrArg (fun v => (v.1, (⟨f.path, _⟩ : FileReport) :: v.2)) hvalue
    · rw [hkept i (Nat.lt_succ_of_lt hi), Function.update_of_ne (Nat.ne_of_lt hi)]

theorem oneByOne_state (p : Pool) : ((p.state p.oneByOne).tree, p.reports p.oneByOne) =
    (processAll p.launch p.config p.transform p.tree p.candidates).value :=
  (@foldl_oneByOne p [] p.candidates rfl 0 rfl ⟨p.tree, fun _ => .waiting⟩ _ (fun _ _ => rfl)
    (by rw [state, oneByOne, List.range_eq_range'])).1

/-! ## Modules that are written -/

/-- On the way of a schedule a module was made of the candidate at a place. -/
structure Makes (p : Pool) (schedule : List Nat) (i : Nat) (f : Candidate) (g : Generated) :
    Prop where
  candidate : p.candidates[i]? = some f
  made : ∃ before, before ++ [i] <+: schedule ∧ (p.state before).phase i = .waiting ∧
    (moduleOf p.launch (p.state before).tree p.config p.transform f).value = .ok g

/-- The file of a module is written at through another path: one of another candidate that has a
module, or that of its own source map. -/
inductive Overwritten (p : Pool) (schedule : List Nat) (i : Nat) (f : Candidate) : Prop where
  | other {j : Nat} {f' : Candidate} {g : Generated} {q : String} : j ≠ i →
    p.Makes schedule j f' g → q ∈ placesOf (targetOf p.config f') p.config.emitSourceMap →
    (p.state schedule).tree.SameFile (targetOf p.config f) q → Overwritten p schedule i f
  | sourceMap : p.config.emitSourceMap = true →
    (p.state schedule).tree.SameFile (targetOf p.config f) (mapPath (targetOf p.config f)) →
    Overwritten p schedule i f

/-- The module of a candidate leads to a file that holds its code, unless it is overwritten. -/
inductive Holds (p : Pool) (schedule : List Nat) (i : Nat) (f : Candidate) (g : Generated) :
    Prop where
  | code {names : List String} {executable : Bool} :
    (p.state schedule).tree.LeadsTo (targetOf p.config f) names →
    (p.state schedule).tree.node? names = some (.file g.code.toUTF8 executable) →
    Holds p schedule i f g
  | overwritten : Overwritten p schedule i f → Holds p schedule i f g

/-- What is known of a candidate from how far the work on it is. -/
def Sound (p : Pool) (schedule : List Nat) (i : Nat) (f : Candidate) : Phase → Prop
  | .waiting => True
  | .made g => p.Makes schedule i f g
  | .ready g => p.Makes schedule i f g
  | .unmapped g => p.config.emitSourceMap = true ∧ p.Makes schedule i f g ∧ p.Holds schedule i f g
  | .done (.written module map) =>
    (module = targetOf p.config f ∧
        map = if p.config.emitSourceMap then some (mapPath module) else none) ∧
      ∃ g, p.Makes schedule i f g ∧ p.Holds schedule i f g
  | .done (.failed _) => True

theorem Makes.mono (h : p.Makes schedule i f g) (hle : schedule <+: schedule') :
    p.Makes schedule' i f g := by
  obtain ⟨before, hbefore, hwaiting, hmade⟩ := h.made
  exact ⟨h.candidate, before, hbefore.trans hle, hwaiting, hmade⟩

theorem Overwritten.mono (h : p.Overwritten schedule i f) (hle : schedule <+: schedule')
    (hgrows : (p.state schedule).tree.Grows (p.state schedule').tree) :
    p.Overwritten schedule' i f := by
  cases h with
  | other hne hmakes hq hsame => exact .other hne (hmakes.mono hle) hq (hsame.grows hgrows)
  | sourceMap hemit hsame => exact .sourceMap hemit (hsame.grows hgrows)

theorem Overwritten.endsInName (h : p.Overwritten schedule i f) :
    ∃ name, EndsInName (targetOf p.config f) name := by
  cases h with
  | other _ _ _ hsame => exact hsame.elim fun _ hleads => hleads.1.endsInName
  | sourceMap _ hsame => exact hsame.elim fun _ hleads => hleads.1.endsInName

/-- What others do, and what is written for the source map, is kept account of. -/
theorem Holds.mono (h : p.Holds schedule i f g) (hle : schedule <+: schedule')
    {places : String → Prop} (hacts : Acts places (p.state schedule).tree (p.state schedule').tree)
    (hplaces : ∀ q, places q →
      (∃ j f' g', j ≠ i ∧ p.Makes schedule j f' g' ∧
        q ∈ placesOf (targetOf p.config f') p.config.emitSourceMap) ∨
      p.config.emitSourceMap = true ∧ q = mapPath (targetOf p.config f)) :
    p.Holds schedule' i f g := by
  cases h with
  | overwritten h => exact .overwritten (h.mono hle hacts.grows)
  | code hleads hnode =>
    have hleads' := hleads.grows hacts.grows
    rcases hacts.kept hnode with hkept | ⟨q, hq, hsame⟩
    · exact .code hleads' hkept
    · refine .overwritten ?_
      rcases hplaces q hq with ⟨j, f', g', hne, hmakes, hmem⟩ | ⟨hemit, rfl⟩
      · exact .other hne (hmakes.mono hle) hmem ⟨_, hleads', hsame⟩
      · exact .sourceMap hemit ⟨_, hleads', hsame⟩

/-- Nothing is written for a candidate before its module is made. -/
theorem Sound.makes {phase : Phase} (h : p.Sound schedule i f phase) {q : String}
    (hq : placeIn p.config f phase = some q) :
    (∃ g, p.Makes schedule i f g) ∧ q ∈ placesOf (targetOf p.config f) p.config.emitSourceMap := by
  cases phase with
  | ready g =>
    cases hq
    exact ⟨⟨g, h⟩, List.mem_cons_self⟩
  | unmapped g =>
    cases hq
    exact ⟨⟨g, h.2.1⟩, by simp [placesOf, h.1]⟩
  | waiting => cases hq
  | made g => cases hq
  | done outcome => cases hq

/-- What is known of a candidate stays true while others are worked on. -/
theorem Sound.mono {phase : Phase} (h : p.Sound schedule i f phase) (hle : schedule <+: schedule')
    {places : String → Prop} (hacts : Acts places (p.state schedule).tree (p.state schedule').tree)
    (hplaces : ∀ q, places q → ∃ j f' g', j ≠ i ∧ p.Makes schedule j f' g' ∧
      q ∈ placesOf (targetOf p.config f') p.config.emitSourceMap) :
    p.Sound schedule' i f phase := by
  have holds : ∀ {g}, p.Holds schedule i f g → p.Holds schedule' i f g := fun hg =>
    hg.mono hle hacts fun q hq => .inl (hplaces q hq)
  cases phase with
  | waiting => trivial
  | made g => exact Makes.mono h hle
  | ready g => exact Makes.mono h hle
  | unmapped g => exact ⟨h.1, h.2.1.mono hle, holds h.2.2⟩
  | done outcome =>
    cases outcome with
    | failed e => trivial
    | written module map =>
      obtain ⟨htarget, g, hmakes, hholds⟩ := h
      exact ⟨htarget, g, hmakes.mono hle, holds hholds⟩

/-- What is known of a candidate after the next part of the work on it. -/
theorem Sound.advance (hi : p.candidates[i]? = some f)
    (h : p.Sound schedule i f ((p.state schedule).phase i)) :
    p.Sound (schedule ++ [i]) i f ((p.state (schedule ++ [i])).phase i) := by
  have hle : schedule <+: schedule ++ [i] := List.prefix_append _ _
  have htree := tree_concat hi schedule
  have hacts := acts_concat hi schedule
  rw [phase_concat hi]
  cases hphase : (p.state schedule).phase i with
  | waiting =>
    dsimp only [Run.advance]
    cases hmade : (moduleOf p.launch (p.state schedule).tree p.config p.transform f).value with
    | error e => trivial
    | ok g => exact ⟨hi, schedule, List.prefix_rfl, hphase, hmade⟩
  | made g =>
    rw [hphase] at h
    dsimp only [Run.advance]
    split
    · exact Makes.mono h hle
    · trivial
  | ready g =>
    rw [hphase] at h htree
    have hmakes : p.Makes (schedule ++ [i]) i f g := Makes.mono h hle
    dsimp only [Run.advance] at htree ⊢
    cases hwrite : (p.state schedule).tree.write (targetOf p.config f) g.code.toUTF8 with
    | error e => trivial
    | ok t =>
      rw [hwrite] at htree
      obtain ⟨names, executable, hne, hset, -, hleads⟩ := exists_of_write hwrite
      have hnode : t.node? names = some (.file g.code.toUTF8 executable) := by
        rw [hset, node?_setNode _ hne, if_pos rfl]
      have hwritten : (p.state (schedule ++ [i])).tree = t := htree
      rw [← hwritten] at hleads hnode
      have hholds : p.Holds (schedule ++ [i]) i f g := .code hleads hnode
      dsimp only
      split
      · rename_i hemit
        exact ⟨hemit, hmakes, hholds⟩
      · rename_i hemit
        exact ⟨⟨rfl, (if_neg hemit).symm⟩, g, hmakes, hholds⟩
  | unmapped g =>
    rw [hphase] at h hacts
    obtain ⟨hemit, hmakes, hholds⟩ := h
    dsimp only [Run.advance]
    cases (p.state schedule).tree.write (mapPath (targetOf p.config f)) g.map.render.toUTF8 with
    | error e => trivial
    | ok t =>
      refine ⟨⟨rfl, (if_pos hemit).symm⟩, g, hmakes.mono hle, hholds.mono hle hacts ?_⟩
      exact fun q hq => .inr ⟨hemit, (Option.some.inj hq).symm⟩
  | done outcome =>
    rw [hphase] at h hacts
    exact h.mono hle hacts nofun

/-- **Invariant.** What is known of the candidates stays true in every step. -/
theorem sound_step (h : ∀ i f, p.candidates[i]? = some f →
      p.Sound schedule i f ((p.state schedule).phase i)) (j : Nat) :
    ∀ i f, p.candidates[i]? = some f →
      p.Sound (schedule ++ [j]) i f ((p.state (schedule ++ [j])).phase i) := by
  intro i f hi
  have hle : schedule <+: schedule ++ [j] := List.prefix_append _ _
  by_cases hij : i = j
  · subst hij
    exact (h i f hi).advance hi
  cases hj : p.candidates[j]? with
  | none =>
    -- there is no such candidate, and nothing happens
    have hstate : p.state (schedule ++ [j]) = p.state schedule := by
      rw [state_concat, step, hj]
    have hacts : Acts (fun _ => False) (p.state schedule).tree
        (p.state (schedule ++ [j])).tree := by
      rw [hstate]
      exact .done _
    rw [congrArg State.phase hstate]
    exact (h i f hi).mono hle hacts nofun
  | some f' =>
    rw [phase_concat_ne hj schedule hij]
    refine (h i f hi).mono hle (acts_concat hj schedule) fun q hq => ?_
    obtain ⟨⟨g, hmakes⟩, hmem⟩ := (h j f' hj).makes hq
    exact ⟨j, f', g, Ne.symm hij, hmakes, hmem⟩

/-- **Every schedule keeps the invariant.** -/
theorem sound (schedule : List Nat) (hi : p.candidates[i]? = some f) :
    p.Sound schedule i f ((p.state schedule).phase i) := by
  induction schedule using List.reverseRecOn generalizing i f with
  | nil => trivial
  | append_singleton schedule j ih => exact sound_step (fun i f => ih) j i f hi

/-- The candidate at a place is reported to be written. -/
structure Writes (p : Pool) (schedule : List Nat) (i : Nat) (f : Candidate) (module : String)
    (map : Option String) : Prop where
  candidate : p.candidates[i]? = some f
  phase : (p.state schedule).phase i = .done (.written module map)

/-- **A module that is reported to be written** holds the code made of its file, unless another path
that is written at leads to it. -/
theorem Writes.holds {module : String} {map : Option String}
    (h : p.Writes schedule i f module map) :
    (module = targetOf p.config f ∧
        map = if p.config.emitSourceMap then some (mapPath module) else none) ∧
      (∃ name, EndsInName module name) ∧
      ∃ g, p.Makes schedule i f g ∧
        ((p.state schedule).tree.read module = .ok g.code.toUTF8 ∨ p.Overwritten schedule i f) := by
  have hsound := sound schedule h.candidate
  rw [h.phase] at hsound
  obtain ⟨⟨rfl, hmap⟩, g, hmakes, hholds⟩ := hsound
  cases hholds with
  | code hleads hnode =>
    exact ⟨⟨rfl, hmap⟩, hleads.endsInName, g, hmakes, .inl (read_of_leadsTo hleads hnode)⟩
  | overwritten hover => exact ⟨⟨rfl, hmap⟩, hover.endsInName, g, hmakes, .inr hover⟩

end Pool

end Run

end ShaderModules
