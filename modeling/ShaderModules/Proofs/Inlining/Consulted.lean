import ShaderModules.Proofs.Host.Lookups
import ShaderModules.Proofs.Inlining.Reachability

/-!
# What the inliner consults

The inliner follows the directives of the source and of the files that are reached from it, and
resolves the paths of their targets, whether they lead anywhere or not (`Consults`). What it returns
and reports depends on the entries that are looked at for these paths, and on nothing else in the
tree (`resolve_congr`).

* `Follows`: the texts whose directives are followed.
-/

namespace ShaderModules.Inliner

open FileTree

/-- A text whose directives are followed, and the directory that its targets are relative to. -/
inductive Follows (tree : FileTree) (source : String) (o : ResolveOptions) :
    String → String → Prop
  | source : Follows tree source o o.basedir source
  | included {names : List String} {text : String} (reached : Reached tree source o names)
      (other : ¬IsSource tree o names) (reads : tree.textAt? names = some text) :
      Follows tree source o (pathOf names.dropLast) text

/-- The paths that are resolved for a source: that of the preprocessed file and the targets of all
directives that are followed. -/
inductive Consults (tree : FileTree) (source : String) (o : ResolveOptions) : String → Prop
  | file : Consults tree source o o.file
  | target {dir text target : String} {line : List Char} (follows : Follows tree source o dir text)
      (mem : line ∈ Text.lines text.toList)
      (directive : Directive.Line.ofText line = .target target) :
      Consults tree source o (Path.join dir target)

variable {tree tree' : FileTree} {source : String} {o : ResolveOptions}

theorem Follows.reached {dir text : String} (h : Follows tree source o dir text)
    {names : List String} (hincludes : Includes tree dir text names) :
    Reached tree source o names := by
  cases h with
  | source => exact .direct hincludes
  | included hreached hother hreads => exact .nested hreached hother hreads hincludes

/-- A source none of whose directives leads anywhere consults its own targets only. -/
theorem Consults.of_missing
    (h : ∀ line ∈ Text.lines source.toList, ∀ names, ¬Directs tree o.basedir line names)
    {path : String} (hpath : Consults tree source o path) :
    path = o.file ∨ ∃ line ∈ Text.lines source.toList, ∃ target,
      Directive.Line.ofText line = .target target ∧ path = Path.join o.basedir target := by
  have hnone : ∀ names, ¬Reached tree source o names := by
    intro names hreached
    induction hreached with
    | direct hincluded =>
      obtain ⟨line, hline, hd⟩ := hincluded
      exact h line hline _ hd
    | nested _ _ _ _ ih => exact ih
  cases hpath with
  | file => exact .inl rfl
  | target hfollows hmem hline =>
    cases hfollows with
    | source => exact .inr ⟨_, hmem, _, hline, rfl⟩
    | included hreached => exact absurd hreached (hnone _)

/-- A line of a text whose directives are followed. -/
def Pending.Followed (tree : FileTree) (source : String) (o : ResolveOptions) (p : Pending) :
    Prop :=
  ∃ text, Follows tree source o p.dir text ∧ p.text ∈ Text.lines text.toList

theorem followed_of_mem_pendingLines {file dir text : String} (h : Follows tree source o dir text)
    {p : Pending} (hp : p ∈ pendingLines file dir text) : p.Followed tree source o := by
  obtain ⟨i, hi, rfl⟩ := List.mem_mapIdx.1 hp
  exact ⟨text, h, List.getElem_mem hi⟩

section Congruence

variable (hlinks : tree.LinkFree) (hworkDir : tree'.workDir = tree.workDir)
  (h : ∀ q, Consults tree source o q → ∀ e ∈ tree.lookedFor q, tree'.node? e = tree.node? e)
include hlinks hworkDir h

/-- What a line asks for depends on what is looked at for its target. -/
theorem Pending.Followed.meet_eq {p : Pending} (hp : p.Followed tree source o)
    (visited : List (List String)) : meet tree' visited p = meet tree visited p := by
  obtain ⟨text, hfollows, hmem⟩ := hp
  unfold meet
  cases hline : Directive.Line.ofText p.text with
  | plain => rfl
  | malformed => rfl
  | target target =>
    dsimp only
    rw [locateAny_congr hlinks hworkDir (h _ (.target hfollows hmem hline))]

/-- A run over lines that are followed is a run on the other tree. -/
theorem Reads.congr {g g' : Progress} {pending rest : List Pending} {l : List Reading}
    (hreads : Reads tree g pending l g' rest)
    (hsource : ∀ names, IsSource tree o names → names ∈ g.visited)
    (hpending : ∀ p ∈ pending, p.Followed tree source o) :
    Reads tree' g pending l g' rest ∧ ∀ p ∈ rest, p.Followed tree source o := by
  induction hreads with
  | refl g pending => exact ⟨.refl g pending, hpending⟩
  | @step g g' p pending rest m l hmeet _ ih =>
    have hp := hpending p List.mem_cons_self
    have hrest : ∀ q ∈ pending, q.Followed tree source o := fun q hq =>
      hpending q (List.mem_cons_of_mem p hq)
    have hmeet' : meet tree' g.visited p = .ok m :=
      (hp.meet_eq hlinks hworkDir h _).trans hmeet
    rcases meet_cases hmeet with ⟨-, rfl⟩ | ⟨names, hd, ⟨-, rfl⟩ | ⟨text, hv, ht, rfl⟩⟩
    · obtain ⟨hreads, hleft⟩ := ih hsource hrest
      exact ⟨.step hmeet' hreads, hleft⟩
    · obtain ⟨hreads, hleft⟩ := ih hsource hrest
      exact ⟨.step hmeet' hreads, hleft⟩
    · -- the file has the same text in both trees, and its directives are followed
      obtain ⟨text', hfollows, hmem⟩ := hp
      have hreached : Reached tree source o names := hfollows.reached ⟨p.text, hmem, hd⟩
      have hfile : Follows tree source o (pathOf names.dropLast) text :=
        .included hreached (fun hs => hv (hsource names hs)) ht
      have hlines : fileLines tree' names = fileLines tree names := by
        rw [fileLines_of_textAt? (meet_enter hmeet').1, fileLines_of_textAt? ht]
      obtain ⟨hreads, hleft⟩ := ih (fun names hs => List.mem_cons_of_mem _ (hsource names hs))
        fun q hq => by
          rw [Reading.entered, List.flatMap_singleton, fileLines_of_textAt? ht,
            List.mem_append] at hq
          exact hq.elim (followed_of_mem_pendingLines hfile) (hrest q)
      refine ⟨.step hmeet' ?_, hleft⟩
      rw [Reading.entered, List.flatMap_singleton] at hreads ⊢
      exact hlines ▸ hreads

/-- A run that stops is a run on the other tree that stops in the same way. -/
theorem IsRun.congr {l : List Reading} {failure : Option ToolError}
    (hrun : IsRun tree source o l failure) : IsRun tree' source o l failure := by
  obtain ⟨g, rest, hreads, hstops⟩ := hrun
  have hstart : start tree' o.file = start tree o.file := by
    unfold start
    rw [locateAny_congr hlinks hworkDir (h _ .file)]
  obtain ⟨hreads', hleft⟩ := hreads.congr hlinks hworkDir h (fun _ => mem_start.2)
    fun p => followed_of_mem_pendingLines .source
  refine ⟨g, rest, hstart ▸ hreads', ?_⟩
  cases hstops with
  | finished => exact .finished
  | @failed p rest e hmeet =>
    exact .failed (((hleft p List.mem_cons_self).meet_eq hlinks hworkDir h _).trans hmeet)

/-- **What the inliner does depends on what it consults.** -/
theorem resolve_congr : resolve tree' source o = resolve tree source o := by
  obtain ⟨l, failure, hrun⟩ := exists_isRun tree source o
  rw [hrun.resolve_eq, (hrun.congr hlinks hworkDir h).resolve_eq]

end Congruence

end ShaderModules.Inliner
