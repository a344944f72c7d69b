import Mathlib.Data.List.Flatten
import Mathlib.Data.List.Induction
import Mathlib.Data.List.Nodup
import Mathlib.Data.List.Perm.Subperm
import ShaderModules.Preprocessor.Inliner

/-!
# Runs of the inliner

The inliner reads one pending line after the other. A run of it is the list of its readings: each
line with what it asked for.

* `Reads`: the runs, one reading for each step.
* `Stops`: where a run ends: no line is left, or the next one fails. The expansion of a text is a
  run that stops (`expand_reads`), and every run that stops has its result (`Reads.expand_eq`,
  `Stops.expand_eq`).
* `expand_append`: the lines of a file are read before those that were pending. So the expansion is
  the recursion over files that takes one line after the other (`expand_eq_foldl`).
* `Reads.progress`: the progress after a run is made of its readings.
* `Reads.lines_perm`: the lines that are read or left are those pending at the start and the lines
  of the files entered on the way. No file is entered twice (`Reads.visited_nodup`), so that every
  run is bounded by the lines of the tree (`Reads.length_le`).
-/

namespace ShaderModules.Inliner

/-- A line that was read, and what it asked for. -/
structure Reading where
  line : Pending
  met : Met

namespace Reading

/-- The line, if it is kept. -/
def kept : Reading → List (List Char)
  | ⟨p, .keep⟩ => [p.text]
  | _ => []

/-- The file that is inlined in place of the line. -/
def entered : Reading → List (List String)
  | ⟨_, .enter names _⟩ => [names]
  | _ => []

/-- The file whose repeated inclusion is skipped. -/
def skipped : Reading → List (List String)
  | ⟨_, .repeated names⟩ => [names]
  | _ => []

theorem reverse_kept (r : Reading) : r.kept.reverse = r.kept := by
  obtain ⟨p, _ | _ | _⟩ := r <;> rfl

theorem reverse_entered (r : Reading) : r.entered.reverse = r.entered := by
  obtain ⟨p, _ | _ | _⟩ := r <;> rfl

theorem reverse_skipped (r : Reading) : r.skipped.reverse = r.skipped := by
  obtain ⟨p, _ | _ | _⟩ := r <;> rfl

end Reading

/-- The progress after a reading. -/
def Progress.after (g : Progress) (r : Reading) : Progress where
  lines := r.kept ++ g.lines
  visited := r.entered ++ g.visited
  skipped := r.skipped ++ g.skipped

/-- The lines of the file under the names, to be read. -/
def fileLines (tree : FileTree) (names : List String) : List Pending :=
  match tree.textAt? names with
  | some text => pendingLines (FileTree.pathOf names) (FileTree.pathOf names.dropLast) text
  | none => []

theorem fileLines_of_textAt? {tree : FileTree} {names : List String} {text : String}
    (h : tree.textAt? names = some text) :
    fileLines tree names =
      pendingLines (FileTree.pathOf names) (FileTree.pathOf names.dropLast) text := by
  unfold fileLines
  rw [h]

/-- The lines of all files of the tree. -/
def treeLines (tree : FileTree) : List Pending :=
  (tree.nodes.map (·.1)).flatMap (fileLines tree)

/-- `Reads tree g pending l g' rest`: from the progress `g`, reading pending lines one after the
other makes the readings `l`, leads to `g'` and leaves the lines `rest`. -/
inductive Reads (tree : FileTree) :
    Progress → List Pending → List Reading → Progress → List Pending → Prop
  | refl (g : Progress) (pending : List Pending) : Reads tree g pending [] g pending
  | step {g g' : Progress} {p : Pending} {pending rest : List Pending} {m : Met}
      {l : List Reading} (meets : meet tree g.visited p = .ok m)
      (reads : Reads tree (g.after ⟨p, m⟩)
        ((⟨p, m⟩ : Reading).entered.flatMap (fileLines tree) ++ pending) l g' rest) :
      Reads tree g (p :: pending) (⟨p, m⟩ :: l) g' rest

/-- Where a run stops, and with which failure. -/
inductive Stops (tree : FileTree) (g : Progress) : List Pending → Option ToolError → Prop
  | finished : Stops tree g [] none
  | failed {p : Pending} {rest : List Pending} {e : ToolError}
      (meets : meet tree g.visited p = .error e) : Stops tree g (p :: rest) (some e)

theorem meet_target {tree : FileTree} {visited : List (List String)} {p : Pending}
    {target : String} {names : List String} {node : Node}
    (hline : Directive.Line.ofText p.text = .target target)
    (hloc : tree.locateAny true (Path.join p.dir target) = .ok (.found names node)) :
    meet tree visited p =
      if names ∈ visited then .ok (.repeated names)
      else (textOf names node).map (.enter names) := by
  unfold meet
  rw [hline]
  dsimp only
  rw [hloc]

/-- An expansion is a run that stops. -/
theorem expand_reads (tree : FileTree) (g : Progress) (pending : List Pending) :
    ∃ l rest, Reads tree g pending l (expand tree g pending).1 rest ∧
      Stops tree (expand tree g pending).1 rest (expand tree g pending).2 := by
  fun_induction expand tree g pending with
  | case1 g => exact ⟨[], [], .refl g [], .finished⟩
  | case2 g p pending e hmeet => exact ⟨[], _, .refl g _, .failed hmeet⟩
  | case3 g p pending hmeet ih =>
    obtain ⟨l, rest, hreads, hstops⟩ := ih
    exact ⟨_, rest, .step hmeet hreads, hstops⟩
  | case4 g p pending names hmeet ih =>
    obtain ⟨l, rest, hreads, hstops⟩ := ih
    exact ⟨_, rest, .step hmeet hreads, hstops⟩
  | case5 g p pending names text hmeet ih =>
    obtain ⟨l, rest, hreads, hstops⟩ := ih
    refine ⟨⟨p, .enter names text⟩ :: l, rest, .step hmeet ?_, hstops⟩
    rw [Reading.entered, List.flatMap_singleton, fileLines_of_textAt? (meet_enter hmeet).1]
    exact hreads

/-- The step of the expansion over a line. -/
theorem expand_cons (tree : FileTree) (g : Progress) (p : Pending) (pending : List Pending) :
    expand tree g (p :: pending) =
      match meet tree g.visited p with
      | .error e => (g, some e)
      | .ok m => expand tree (g.after ⟨p, m⟩)
          ((⟨p, m⟩ : Reading).entered.flatMap (fileLines tree) ++ pending) := by
  rw [expand]
  split
  · rename_i e hmeet
    rw [hmeet]
  · rename_i hmeet
    rw [hmeet]
    rfl
  · rename_i names hmeet
    rw [hmeet]
    rfl
  · rename_i names text hmeet
    rw [hmeet]
    dsimp only
    rw [Reading.entered, List.flatMap_singleton, fileLines_of_textAt? (meet_enter hmeet).1]
    rfl

/-- Reading is deterministic: after a run the expansion goes on where the run has led. -/
theorem Reads.expand_eq {tree : FileTree} {g g' : Progress} {pending rest : List Pending}
    {l : List Reading} (h : Reads tree g pending l g' rest) :
    expand tree g pending = expand tree g' rest := by
  induction h with
  | refl => rfl
  | step hmeet _ ih =>
    rw [expand_cons, hmeet]
    exact ih

theorem Stops.expand_eq {tree : FileTree} {g : Progress} {rest : List Pending}
    {failure : Option ToolError} (h : Stops tree g rest failure) :
    expand tree g rest = (g, failure) := by
  cases h with
  | finished => rw [expand]
  | failed hmeet => rw [expand_cons, hmeet]

/-! ## File by file -/

/-- What is read next, unless reading has failed. -/
def andThen (r : Progress × Option ToolError) (next : Progress → Progress × Option ToolError) :
    Progress × Option ToolError :=
  r.2.elim (next r.1) fun e => (r.1, some e)

theorem andThen_of_ok {r : Progress × Option ToolError} (h : r.2 = none)
    (next : Progress → Progress × Option ToolError) : andThen r next = next r.1 := by
  rw [andThen, h, Option.elim_none]

theorem andThen_of_error {r : Progress × Option ToolError} {e : ToolError} (h : r.2 = some e)
    (next : Progress → Progress × Option ToolError) : andThen r next = r := by
  rw [andThen, h, Option.elim_some, ← h]

/-- **The lines of a file are read as a whole** before those that were pending. -/
theorem expand_append (tree : FileTree) (g : Progress) (first rest : List Pending) :
    expand tree g (first ++ rest) = andThen (expand tree g first) fun g => expand tree g rest := by
  fun_induction expand tree g first with
  | case1 g => rfl
  | case2 g p pending e hmeet =>
    rw [List.cons_append, expand_cons, hmeet]
    rfl
  | case3 g p pending hmeet ih =>
    rw [List.cons_append, expand_cons, hmeet]
    exact ih
  | case4 g p pending names hmeet ih =>
    rw [List.cons_append, expand_cons, hmeet]
    exact ih
  | case5 g p pending names text hmeet ih =>
    rw [List.cons_append, expand_cons, hmeet]
    dsimp only
    rw [Reading.entered, List.flatMap_singleton, fileLines_of_textAt? (meet_enter hmeet).1,
      ← List.append_assoc]
    exact ih

/-- What one line leads to: it comes out, it is skipped, or the file that it directs to is
expanded. -/
def expandLine (tree : FileTree) (g : Progress) (p : Pending) : Progress × Option ToolError :=
  match meet tree g.visited p with
  | .error e => (g, some e)
  | .ok .keep => ({ g with lines := p.text :: g.lines }, none)
  | .ok (.repeated names) => ({ g with skipped := names :: g.skipped }, none)
  | .ok (.enter names text) => expand tree { g with visited := names :: g.visited }
      (pendingLines (FileTree.pathOf names) (FileTree.pathOf names.dropLast) text)

theorem expand_singleton (tree : FileTree) (g : Progress) (p : Pending) :
    expand tree g [p] = expandLine tree g p := by
  rw [expand, expandLine]
  split
  · rename_i e hmeet
    rw [hmeet]
  · rename_i hmeet
    rw [hmeet, expand]
  · rename_i names hmeet
    rw [hmeet, expand]
  · rename_i names text hmeet
    rw [hmeet, List.append_nil]

/-- **The expansion is a recursion over files**: one line after the other is expanded, up to the
first that fails, and where a line directs to a new file, the file is expanded as a whole. -/
theorem expand_eq_foldl (tree : FileTree) (g : Progress) (pending : List Pending) :
    expand tree g pending =
      pending.foldl (fun r p => andThen r fun g => expandLine tree g p) (g, none) := by
  -- the last line is the one that is expanded after the others
  induction pending using List.reverseRecOn with
  | nil => rw [expand, List.foldl_nil]
  | append_singleton init p ih =>
    rw [expand_append, List.foldl_append, ih, List.foldl_cons, List.foldl_nil]
    exact congrArg _ (funext fun g => expand_singleton tree g p)

namespace Reads

variable {tree : FileTree} {g g' : Progress} {pending rest : List Pending} {l : List Reading}

/-- The progress after a run is made of its readings, the latest first. -/
theorem progress (h : Reads tree g pending l g' rest) :
    g' = ⟨(l.flatMap Reading.kept).reverse ++ g.lines,
      (l.flatMap Reading.entered).reverse ++ g.visited,
      (l.flatMap Reading.skipped).reverse ++ g.skipped⟩ := by
  induction h with
  | refl g pending => rfl
  | step _ _ ih =>
    rw [ih]
    simp only [Progress.after, List.flatMap_cons, List.reverse_append, Reading.reverse_kept,
      Reading.reverse_entered, Reading.reverse_skipped, List.append_assoc]

theorem visited_eq (h : Reads tree g pending l g' rest) :
    g'.visited = (l.flatMap Reading.entered).reverse ++ g.visited := by
  rw [h.progress]

/-- The lines that are read or left are those pending at the start and the lines of the files
entered on the way. -/
theorem lines_perm (h : Reads tree g pending l g' rest) :
    (l.map Reading.line ++ rest).Perm
      (pending ++ (l.flatMap Reading.entered).flatMap (fileLines tree)) := by
  induction h with
  | refl g pending => rw [List.flatMap_nil, List.flatMap_nil, List.append_nil]; rfl
  | @step g g' p pending rest m l _ _ ih =>
    rw [List.map_cons, List.cons_append, List.cons_append, List.flatMap_cons, List.flatMap_append]
    refine (ih.trans ?_).cons p
    rw [List.append_assoc]
    exact List.perm_append_comm_assoc _ _ _

/-- No file is visited twice. -/
theorem visited_nodup (h : Reads tree g pending l g' rest) (hg : g.visited.Nodup) :
    g'.visited.Nodup := by
  induction h with
  | refl => exact hg
  | @step g g' p pending rest m l hmeet _ ih =>
    refine ih ?_
    cases m with
    | keep => exact hg
    | repeated names => exact hg
    | enter names text => exact List.nodup_cons.2 ⟨(meet_enter hmeet).2, hg⟩

/-- A file that is entered can be read. -/
theorem textAt?_of_entered (h : Reads tree g pending l g' rest) {names : List String}
    (hn : names ∈ l.flatMap Reading.entered) : ∃ text, tree.textAt? names = some text := by
  induction h with
  | refl => cases hn
  | @step g g' p pending rest m l hmeet _ ih =>
    rw [List.flatMap_cons, List.mem_append] at hn
    rcases hn with hn | hn
    · cases m with
      | keep => cases hn
      | repeated names => cases hn
      | enter names' text =>
        rw [Reading.entered, List.mem_singleton] at hn
        exact ⟨text, hn ▸ (meet_enter hmeet).1⟩
    · exact ih hn

/-- The files entered are pairwise distinct and were not visited at the start. -/
theorem entered_nodup (h : Reads tree g pending l g' rest) (hg : g.visited.Nodup) :
    (l.flatMap Reading.entered).Nodup ∧
      ∀ names ∈ l.flatMap Reading.entered, names ∉ g.visited := by
  have hnodup := h.visited_nodup hg
  rw [h.visited_eq, List.nodup_append] at hnodup
  obtain ⟨hentered, -, hdisjoint⟩ := hnodup
  refine ⟨List.nodup_reverse.1 hentered, fun names hn hv => ?_⟩
  exact hdisjoint names (List.mem_reverse.2 hn) names hv rfl

/-- Every run is bounded by the lines that are pending and those of the files of the tree. -/
theorem length_le (h : Reads tree g pending l g' rest) (hg : g.visited.Nodup) :
    l.length ≤ pending.length + (treeLines tree).length := by
  have hentered : (l.flatMap Reading.entered).Subperm (tree.nodes.map (·.1)) := by
    refine List.subperm_of_subset (h.entered_nodup hg).1 fun names hn => ?_
    obtain ⟨text, ht⟩ := h.textAt?_of_entered hn
    exact FileTree.mem_names_of_textAt? ht
  have hlength := h.lines_perm.length_eq
  have hlines : ((l.flatMap Reading.entered).flatMap (fileLines tree)).length ≤
      (treeLines tree).length := by
    obtain ⟨l', hperm, hsub⟩ := hentered
    rw [← (hperm.flatMap_right _).length_eq]
    exact (hsub.flatMap _).length_le
  rw [List.length_append, List.length_append, List.length_map] at hlength
  omega

/-- What a reading of a run can be. A line that directs to a file leaves it visited. -/
theorem reading_cases (h : Reads tree g pending l g' rest) {r : Reading} (hr : r ∈ l) :
    (Directive.Line.ofText r.line.text = .plain ∧ r.met = .keep) ∨
    ∃ names, Directs tree r.line.dir r.line.text names ∧ names ∈ g'.visited ∧
      (r.met = .repeated names ∨ ∃ text, r.met = .enter names text) := by
  induction h with
  | refl => cases hr
  | @step g g' p pending rest m l hmeet hreads ih =>
    rcases List.mem_cons.1 hr with rfl | hr
    · rcases meet_cases hmeet with hkeep | ⟨names, hd, ⟨hv, rfl⟩ | ⟨text, hv, ht, rfl⟩⟩
      · exact .inl hkeep
      · refine .inr ⟨names, hd, ?_, .inl rfl⟩
        rw [hreads.visited_eq]
        exact List.mem_append_right _ hv
      · refine .inr ⟨names, hd, ?_, .inr ⟨text, rfl⟩⟩
        rw [hreads.visited_eq]
        exact List.mem_append_right _ List.mem_cons_self
    · exact ih hr

end Reads

end ShaderModules.Inliner
