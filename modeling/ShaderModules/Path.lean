/-!
# Paths

A path is text; a slash separates its segments. Its components leave out empty segments and `.`,
except a `.` that starts a relative path; `..` is kept, because what it means depends on links.
Two paths with the same components are equal as paths, but each is displayed as it is spelled.

* `Path.components`: the components of a path; `Path.placed` adds where they stand in the text.
* `Path.join`, `Path.parent?`, `Path.fileName?`, `Path.below?`: operations that keep spellings.
* `Path.from?`: the way from one directory to another.
-/

namespace ShaderModules.Path

/-- A component of a path. -/
inductive Component where
  /-- The slash that starts an absolute path. -/
  | root
  /-- A `.` that starts a relative path. -/
  | here
  /-- A `..`. -/
  | up
  | name (text : List Char)
  deriving DecidableEq, Repr

/-- The segments of a text between slashes. -/
def segments : List Char → List (List Char)
  | [] => [[]]
  | c :: rest =>
    if c = '/' then [] :: segments rest
    else match segments rest with
      | [] => [[c]]
      | s :: more => (c :: s) :: more

/-- The component of a segment that does not start a path. -/
def ofSegment? : List Char → Option Component
  | [] => none
  | ['.'] => none
  | ['.', '.'] => some .up
  | s => some (.name s)

/-- The component of the first segment of a relative path. -/
def ofFirst? : List Char → Option Component
  | ['.'] => some .here
  | s => ofSegment? s

/-- Whether a path starts with a slash. -/
def isAbsolute (p : String) : Bool := p.toList.head? == some '/'

/-- A component and the places in the text where it starts and stops. -/
structure Placed where
  component : Component
  start : Nat
  stop : Nat
  deriving DecidableEq, Repr

/-- The components of segments that do not start a path, the first of which is at `offset`. -/
def placedFrom (offset : Nat) : List (List Char) → List Placed
  | [] => []
  | s :: rest =>
    let more := placedFrom (offset + s.length + 1) rest
    match ofSegment? s with
    | some c => ⟨c, offset, offset + s.length⟩ :: more
    | none => more

/-- The components of a path and their places. -/
def placed (p : String) : List Placed :=
  match segments p.toList with
  | [] => []
  | first :: rest =>
    let more := placedFrom (first.length + 1) rest
    if isAbsolute p then ⟨.root, 0, 1⟩ :: more
    else match ofFirst? first with
      | some c => ⟨c, 0, first.length⟩ :: more
      | none => more

/-- The components of a path. -/
def components (p : String) : List Component :=
  match segments p.toList with
  | [] => []
  | first :: rest =>
    (if isAbsolute p then [.root] else (ofFirst? first).toList) ++ rest.filterMap ofSegment?

/-- The part of a text between two places. -/
def slice (p : String) (start stop : Nat) : String :=
  String.ofList ((p.toList.take stop).drop start)

/-- A path relative to another: an absolute path stands for itself. -/
def join (base p : String) : String :=
  if isAbsolute p || base = "" then p
  else if base.toList.getLast? = some '/' then base ++ p
  else base ++ "/" ++ p

/-- The path without its last component, unless it has none or is the root. -/
def parent? (p : String) : Option String :=
  match (placed p).reverse with
  | [] => none
  | last :: before =>
    if last.component = .root then none
    else match before with
      | [] => some ""
      | previous :: _ => some (slice p 0 previous.stop)

/-- The last component, if it is a name. -/
def fileName? (p : String) : Option String :=
  match (placed p).getLast? with
  | some ⟨.name text, _, _⟩ => some (String.ofList text)
  | _ => none

/-- What follows the components of `base` in a path that starts with them. -/
def below? (base p : String) : Option String :=
  let all := placed p
  let count := (components base).length
  if (all.take count).map Placed.component = components base then
    match all.drop count, all.getLast? with
    | first :: _, some last => some (slice p first.start last.stop)
    | _, _ => some ""
  else none

/-- The text of a component. -/
def Component.text : Component → List Char
  | .root => ['/']
  | .here => ['.']
  | .up => ['.', '.']
  | .name t => t

/-- The rests of two lists behind the part in which they agree. -/
def afterCommon : List Component → List Component → List Component × List Component
  | a :: as, b :: bs => if a = b then afterCommon as bs else (a :: as, b :: bs)
  | as, bs => (as, bs)

/-- The way from a directory to a path, both absolute; none when it would go back over a `..`. -/
def from? (base p : String) : Option String :=
  let (rest, back) := afterCommon (components p) (components base)
  if back.contains .up then none
  else
    let steps := back.map (fun _ => Component.up) ++ rest
    some (String.ofList (['/'].intercalate (steps.map Component.text)))

theorem placedFrom_components (offset : Nat) (l : List (List Char)) :
    (placedFrom offset l).map Placed.component = l.filterMap ofSegment? := by
  induction l generalizing offset with
  | nil => rfl
  | cons s rest ih =>
    simp only [placedFrom]
    split
    · rename_i c hc
      simp [hc, ih]
    · rename_i hc
      simp [hc, ih]

theorem placed_components (p : String) :
    (placed p).map Placed.component = components p := by
  unfold placed components
  split
  · rfl
  · rename_i first rest _
    split
    · simp [placedFrom_components]
    · cases h : ofFirst? first with
      | none => simp [placedFrom_components]
      | some c => simp [placedFrom_components]

end ShaderModules.Path
