import ShaderModules.Event
import ShaderModules.Host.FileTree
import ShaderModules.Preprocessor.Directive
import ShaderModules.Preprocessor.Options
import ShaderModules.Text.Lines
import ShaderModules.Tool

/-!
# Inlining included files

Each include directive is replaced by the lines of the file it names, and so on in those lines.
Every file is inlined at most once, and the file that is preprocessed never, which also ends
cycles. Targets in the file are relative to the base directory, targets in an included file to
that file's directory.

The lines that are still to be read form one list: those of an included file come in front of the
rest. Each step drops a line or visits one more file of the tree, so the work ends.

* `Inliner.Directs`: a file that holds a directive for a target.
* `Inliner.meet`: what one line asks for. `meet_cases` lists everything that it can be.
* `Inliner.expand`: the lines that come out, with the files visited.
* `Inliner.resolve`: the preprocessed text.
-/

namespace ShaderModules.Inliner

/-- A line still to be read: its file as messages name it, its number in that file, and the
directory that targets are relative to. -/
structure Pending where
  file : String
  number : Nat
  dir : String
  text : List Char
  deriving Repr

/-- The lines of a text, to be read. -/
def pendingLines (file dir text : String) : List Pending :=
  (Text.lines text.toList).mapIdx fun i line => ⟨file, i + 1, dir, line⟩

/-- What a line asks for. -/
inductive Met where
  /-- The line itself. -/
  | keep
  /-- A file that was visited before. -/
  | repeated (names : List String)
  /-- A file that has not been visited, with its text. -/
  | enter (names : List String) (text : String)

/-- The text of what a path leads to. -/
def textOf (names : List String) : Node → Except ToolError String
  | .file contents _ =>
    match String.fromUTF8? contents with
    | some text => .ok text
    | none => .error (.unreadable (FileTree.pathOf names) .notText)
  | _ => .error (.unreadable (FileTree.pathOf names) .isDirectory)

/-- What a line asks for, after the files `visited`. -/
def meet (tree : FileTree) (visited : List (List String)) (p : Pending) : Except ToolError Met :=
  match Directive.Line.ofText p.text with
  | .plain => .ok .keep
  | .malformed => .error (.directive p.file p.number (String.ofList (Text.trimmed p.text)))
  | .target target =>
    let path := Path.join p.dir target
    match tree.locateAny true path with
    | .error e => .error (.unreadable path e)
    | .ok (.vacant _ _) => .error (.unreadable path .notFound)
    | .ok (.found names node) =>
      if names ∈ visited then .ok (.repeated names)
      else (textOf names node).map (.enter names)

/-- The number of entries of the tree that have not been visited. -/
def unvisited (tree : FileTree) (visited : List (List String)) : Nat :=
  ((tree.nodes.map (·.1)).filter fun names => names ∉ visited).length

/-- A line directs to an entry: it is a directive, and its target leads there from `dir`. -/
def Directs (tree : FileTree) (dir : String) (line : List Char) (names : List String) : Prop :=
  ∃ target node, Directive.Line.ofText line = .target target ∧
    tree.locateAny true (Path.join dir target) = .ok (.found names node)

theorem textAt?_of_textOf {tree : FileTree} {path : String} {names : List String} {node : Node}
    {text : String} (hloc : tree.locateAny true path = .ok (.found names node))
    (h : textOf names node = .ok text) : tree.textAt? names = some text := by
  cases node with
  | file contents executable =>
    dsimp only [textOf] at h
    split at h
    · rename_i t ht
      cases h
      unfold FileTree.textAt?
      rw [FileTree.node?_of_locateAny hloc]
      exact ht
    · cases h
  | directory => cases h
  | link target => cases h

/-- Everything that a line can ask for. -/
theorem meet_cases {tree : FileTree} {visited : List (List String)} {p : Pending} {m : Met}
    (h : meet tree visited p = .ok m) :
    (Directive.Line.ofText p.text = .plain ∧ m = .keep) ∨
    ∃ names, Directs tree p.dir p.text names ∧
      ((names ∈ visited ∧ m = .repeated names) ∨
        ∃ text, names ∉ visited ∧ tree.textAt? names = some text ∧ m = .enter names text) := by
  unfold meet at h
  split at h
  · rename_i hline
    cases h
    exact .inl ⟨hline, rfl⟩
  · cases h
  · rename_i target hline
    dsimp only at h
    split at h
    · cases h
    · cases h
    · rename_i names node hloc
      refine .inr ⟨names, ⟨target, node, hline, hloc⟩, ?_⟩
      split at h
      · rename_i hv
        cases h
        exact .inl ⟨hv, rfl⟩
      · rename_i hv
        cases ht : textOf names node with
        | error e =>
          rw [ht] at h
          cases h
        | ok text =>
          rw [ht] at h
          cases h
          exact .inr ⟨text, hv, textAt?_of_textOf hloc ht, rfl⟩

theorem meet_enter {tree : FileTree} {visited : List (List String)} {p : Pending}
    {names : List String} {text : String} (h : meet tree visited p = .ok (.enter names text)) :
    tree.textAt? names = some text ∧ names ∉ visited := by
  rcases meet_cases h with ⟨-, hm⟩ | ⟨_, -, ⟨-, hm⟩ | ⟨_, hv, ht, hm⟩⟩
  · cases hm
  · cases hm
  · cases hm
    exact ⟨ht, hv⟩

theorem unvisited_lt {tree : FileTree} {visited : List (List String)} {names : List String}
    (hmem : names ∈ tree.nodes.map (·.1)) (hv : names ∉ visited) :
    unvisited tree (names :: visited) < unvisited tree visited := by
  unfold unvisited
  generalize tree.nodes.map (·.1) = all at *
  induction all with
  | nil => cases hmem
  | cons a rest ih =>
    have hle : ((rest.filter fun n => n ∉ names :: visited)).length
        ≤ (rest.filter fun n => n ∉ visited).length := by
      simp only [← List.countP_eq_length_filter]
      exact List.countP_mono_left fun n _ hn => by simp_all
    rcases List.mem_cons.1 hmem with rfl | hrest
    · simp only [List.filter_cons, List.mem_cons, true_or, not_true, decide_false, hv,
        not_false_iff, decide_true, if_true, List.length_cons]
      simpa using Nat.lt_succ_of_le hle
    · have := ih hrest
      by_cases ha : a ∈ names :: visited
      · by_cases hb : a ∈ visited
        · simpa [List.filter_cons, ha, hb] using this
        · simp only [List.filter_cons, ha, hb, not_true, not_false_iff, decide_true, decide_false,
            if_true, List.length_cons]
          simp at this ⊢
          omega
      · have hb : a ∉ visited := fun hm => ha (List.mem_cons_of_mem _ hm)
        simp only [List.filter_cons, ha, hb, not_false_iff, decide_true, if_true,
          List.length_cons]
        omega

/-- What has come out so far, the latest first: the lines, the files visited, and the files whose
repeated inclusion was skipped. -/
structure Progress where
  lines : List (List Char) := []
  visited : List (List String) := []
  skipped : List (List String) := []
  deriving Repr

/-- Reads the pending lines one after the other. -/
def expand (tree : FileTree) (g : Progress) (pending : List Pending) :
    Progress × Option ToolError :=
  match pending with
  | [] => (g, none)
  | p :: rest =>
    match _h : meet tree g.visited p with
    | .error e => (g, some e)
    | .ok .keep => expand tree { g with lines := p.text :: g.lines } rest
    | .ok (.repeated names) => expand tree { g with skipped := names :: g.skipped } rest
    | .ok (.enter names text) =>
      expand tree { g with visited := names :: g.visited }
        (pendingLines (FileTree.pathOf names) (FileTree.pathOf names.dropLast) text ++ rest)
termination_by (unvisited tree g.visited, pending.length)
decreasing_by
  · exact Prod.Lex.right _ (by simp)
  · exact Prod.Lex.right _ (by simp)
  · obtain ⟨ht, hv⟩ := meet_enter _h
    exact Prod.Lex.left _ _ (unvisited_lt (FileTree.mem_names_of_textAt? ht) hv)

/-- The files that count as visited from the start: the file that is preprocessed. -/
def start (tree : FileTree) (file : String) : List (List String) :=
  match tree.locateAny true file with
  | .ok (.found names _) => [names]
  | _ => []

/-- The expansion of a text. -/
def expansion (tree : FileTree) (source : String) (o : ResolveOptions) :
    Progress × Option ToolError :=
  expand tree { visited := start tree o.file } (pendingLines o.file o.basedir source)

/-- The text of lines, each with a line feed at its end. -/
def unlines (lines : List (List Char)) : String := String.ofList (lines.flatMap (· ++ ['\n']))

/-- The event of a repeated inclusion. -/
def skipEvent (file : String) (names : List String) : Event :=
  ⟨.warn, "shader_exec::inliner",
    "Skipping repeated include of " ++ FileTree.pathOf names ++ " from " ++ file⟩

/-- The text with its dependencies inlined, after the marker line. -/
def resolve (tree : FileTree) (source : String) (o : ResolveOptions) :
    Logged (Except ToolError String) :=
  let (g, failure) := expansion tree source o
  ⟨match failure with
    | some e => .error e
    | none => .ok (inlineMarker ++ unlines g.lines.reverse),
   g.skipped.reverse.map (skipEvent o.file)⟩

end ShaderModules.Inliner
