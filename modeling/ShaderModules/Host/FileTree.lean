import ShaderModules.Host.OsError
import ShaderModules.Path

/-!
# Trees of files

A finite file system: files, directories and symbolic links by the names on the way to them from
the root, together with a working directory. Operations take paths as they are spelled and resolve
them segment by segment, following links.

* `FileTree.locate`: where a path leads. Links are followed, at most `maxLinks` of them.
* `FileTree.canonical`, `FileTree.isDirectory`, `FileTree.isFile`, `FileTree.readText`: what can be
  asked of a path.
* `FileTree.write`, `FileTree.createDirectories`: the tree after writing.
-/

namespace ShaderModules

/-- What is found under a name. -/
inductive Node where
  | file (contents : ByteArray) (executable : Bool)
  | directory
  | link (target : String)

/-- The file system: its entries by the names that lead to them, and the working directory. -/
structure FileTree where
  nodes : List (List String × Node) := []
  workDir : List String := []

namespace FileTree

/-- The greatest number of links on the way of a path. -/
def maxLinks : Nat := 40

/-- The greatest number of bytes of a name. -/
def maxName : Nat := 255

/-- The number of bytes from which a path is too long. -/
def maxPath : Nat := 4096

/-! ## Entries -/

/-- The entry under the names. -/
def node? (t : FileTree) (names : List String) : Option Node :=
  if names.isEmpty then some .directory else (t.nodes.find? (·.1 == names)).map (·.2)

/-- The tree with the entry under the names replaced or added. -/
def setNode (t : FileTree) (names : List String) (n : Node) : FileTree :=
  if t.nodes.any (·.1 == names) then
    { t with nodes := t.nodes.map fun p => if p.1 == names then (names, n) else p }
  else { t with nodes := t.nodes ++ [(names, n)] }

/-- The tree with an entry and, where they are missing, the directories that lead to it. -/
def place (t : FileTree) (names : List String) (n : Node) : FileTree :=
  let withParents := (List.range names.length).foldl (fun t k =>
    if (t.node? (names.take k)).isNone then t.setNode (names.take k) .directory else t) t
  withParents.setNode names n

/-- A name that is not empty. -/
abbrev Name := { n : String // n ≠ "" }

/-- The name of an entry directly below `dir`. -/
def nameBelow? (dir names : List String) : Option Name :=
  match names.getLast? with
  | some n => if h : n ≠ "" ∧ names.dropLast = dir then some ⟨n, h.1⟩ else none
  | none => none

/-- The names directly below a directory, in no particular order. -/
def namesBelow (t : FileTree) (dir : List String) : List Name :=
  t.nodes.filterMap fun p => nameBelow? dir p.1

/-! ## Resolving paths -/

/-- Where a path leads: to an entry, or to a free name in a directory. -/
inductive Location where
  | found (names : List String) (node : Node)
  | vacant (dir : List String) (name : String)

/-- The names a path is made of; a slash at the end stands for the directory itself. -/
def namesOf (p : String) : List String :=
  let l := p.toList
  let names := (Path.segments l).filter (!·.isEmpty) |>.map String.ofList
  if l.getLast? = some '/' then names ++ ["."] else names

/-- Follows names from a directory. Up to `links` links are followed; one under the last name only
if `followLast` says so. -/
def locateFrom (t : FileTree) (followLast : Bool) (links : Nat) (here : List String) :
    List String → Except OsError Location
  | [] => .ok (.found here .directory)
  | name :: rest =>
    if name = "." then locateFrom t followLast links here rest
    else if name = ".." then locateFrom t followLast links here.dropLast rest
    else if maxName < name.utf8ByteSize then .error .nameTooLong
    else match t.node? (here ++ [name]) with
      | none => if rest.isEmpty then .ok (.vacant here name) else .error .notFound
      | some .directory => locateFrom t followLast links (here ++ [name]) rest
      | some (.file contents executable) =>
        if rest.isEmpty then .ok (.found (here ++ [name]) (.file contents executable))
        else .error .notDirectory
      | some (.link target) =>
        if rest.isEmpty && !followLast then .ok (.found (here ++ [name]) (.link target))
        else match links with
          | 0 => .error .tooManyLinks
          | links + 1 =>
            locateFrom t followLast links (if Path.isAbsolute target then [] else here)
              (namesOf target ++ rest)
termination_by names => (links, names.length)

/-- Where a path leads from the working directory, whatever its length. -/
def locateAny (t : FileTree) (followLast : Bool) (p : String) : Except OsError Location :=
  if p = "" then .error .notFound
  else if p.toList.contains '\x00' then .error .nulInPath
  else t.locateFrom followLast maxLinks (if Path.isAbsolute p then [] else t.workDir) (namesOf p)

/-- Where a path leads from the working directory. -/
def locate (t : FileTree) (followLast : Bool) (p : String) : Except OsError Location :=
  if p.utf8ByteSize < maxPath then t.locateAny followLast p
  else if p.toList.contains '\x00' then .error .nulInPath else .error .nameTooLong

theorem mem_names_of_node? {t : FileTree} {names : List String} {contents : ByteArray}
    {executable : Bool} (h : t.node? names = some (.file contents executable)) :
    names ∈ t.nodes.map (·.1) := by
  unfold node? at h
  split at h
  · cases h
  · obtain ⟨q, hq, _⟩ := Option.map_eq_some_iff.1 h
    have hname := List.find?_some hq
    rw [beq_iff_eq] at hname
    exact hname ▸ List.mem_map_of_mem (List.mem_of_find?_eq_some hq)

theorem node?_of_locateFrom {t : FileTree} {followLast : Bool} {links : Nat}
    {here names rest : List String} {contents : ByteArray} {executable : Bool}
    (h : t.locateFrom followLast links here rest = .ok (.found names (.file contents executable))) :
    t.node? names = some (.file contents executable) := by
  fun_induction locateFrom t followLast links here rest with
  | case1 => cases h
  | case2 _ _ _ ih => exact ih h
  | case3 _ _ _ _ ih => exact ih h
  | case4 => cases h
  | case5 => cases h
  | case6 => cases h
  | case7 _ _ _ _ _ _ _ _ ih => exact ih h
  | case8 links here name rest _ _ _ c e hnode hrest =>
    cases h
    exact hnode
  | case9 => cases h
  | case10 => cases h
  | case11 => cases h
  | case12 _ _ _ _ _ _ _ _ _ _ ih => exact ih h

theorem node?_of_locateAny {t : FileTree} {followLast : Bool} {p : String} {names : List String}
    {contents : ByteArray} {executable : Bool}
    (h : t.locateAny followLast p = .ok (.found names (.file contents executable))) :
    t.node? names = some (.file contents executable) := by
  unfold locateAny at h
  split at h
  · cases h
  · split at h
    · cases h
    · exact node?_of_locateFrom h

/-- The text of the file under the names. -/
def textAt? (t : FileTree) (names : List String) : Option String :=
  match t.node? names with
  | some (.file contents _) => String.fromUTF8? contents
  | _ => none

theorem mem_names_of_textAt? {t : FileTree} {names : List String} {text : String}
    (h : t.textAt? names = some text) : names ∈ t.nodes.map (·.1) := by
  unfold textAt? at h
  split at h
  · rename_i hnode
    exact mem_names_of_node? hnode
  · cases h

/-- The path of an entry. -/
def pathOf (names : List String) : String := "/" ++ "/".intercalate names

/-- The path without links, `.` and `..` of what a path leads to. -/
def canonical (t : FileTree) (p : String) : Except OsError String :=
  match t.locateAny true p with
  | .ok (.found names _) => .ok (pathOf names)
  | .ok (.vacant _ _) => .error .notFound
  | .error e => .error e

/-- The directory that a path leads to. -/
def directory? (t : FileTree) (p : String) : Option (List String) :=
  match t.locate true p with
  | .ok (.found names .directory) => some names
  | _ => none

/-- Whether a path leads to a directory. -/
def isDirectory (t : FileTree) (p : String) : Bool := (t.directory? p).isSome

/-- The contents of the file that a path leads to. -/
def read (t : FileTree) (p : String) : Except OsError ByteArray :=
  match t.locate true p with
  | .ok (.found _ (.file contents _)) => .ok contents
  | .ok (.found _ _) => .error .isDirectory
  | .ok (.vacant _ _) => .error .notFound
  | .error e => .error e

/-- Whether a path leads to a file. -/
def isFile (t : FileTree) (p : String) : Bool := (t.read p).isOk

/-- The text of the file that a path leads to. -/
def readText (t : FileTree) (p : String) : Except OsError String :=
  match t.read p with
  | .error e => .error e
  | .ok contents =>
    match String.fromUTF8? contents with
    | some text => .ok text
    | none => .error .notText

theorem size_lt_of_isDirectory {t : FileTree} {p : String} (h : t.isDirectory p = true) :
    p.utf8ByteSize < maxPath := by
  by_cases hlt : p.utf8ByteSize < maxPath
  · exact hlt
  · unfold isDirectory directory? locate at h
    rw [if_neg hlt] at h
    split at h
    · rename_i heq
      split at heq <;> cases heq
    · cases h

/-! ## Writing -/

/-- The path without the slashes at its end. -/
def trimSlashes (p : String) : String :=
  String.ofList ((p.toList.reverse.dropWhile (· == '/')).reverse)

/-- The tree with a file of the given contents. A file that is there is replaced. No file is written
where the path says that there is a directory. -/
def write (t : FileTree) (p : String) (contents : ByteArray) : Except OsError FileTree :=
  match t.locate true p with
  | .ok (.found names (.file _ executable)) => .ok (t.setNode names (.file contents executable))
  | .ok (.found _ _) => .error .isDirectory
  | .ok (.vacant dir name) => .ok (t.setNode (dir ++ [name]) (.file contents false))
  | .error e =>
    if trimSlashes p = p then .error e
    else match t.locate false (trimSlashes p) with
      | .ok _ => .error .isDirectory
      | .error e => .error e

/-- The tree with a new directory. -/
def createDirectory (t : FileTree) (p : String) : Except OsError FileTree :=
  let p' := if trimSlashes p = "" then p else trimSlashes p
  match t.locate false p' with
  | .ok (.found _ _) => .error .exists
  | .ok (.vacant dir name) => .ok (t.setNode (dir ++ [name]) .directory)
  | .error e => .error e

/-- The tree with a directory that may be there already. -/
def ensureDirectory (t : FileTree) (p : String) : Except OsError FileTree :=
  match t.createDirectory p with
  | .ok t => .ok t
  | .error e => if e ≠ .notFound && t.isDirectory p then .ok t else .error e

/-- The tree after making a directory, given with the paths that lead to it, nearest first, and
how that ended. Directories that are made before it fails stay. -/
def createAlong (t : FileTree) : List String → FileTree × Except OsError Unit
  | [] => (t, .ok ())
  | p :: before =>
    if p = "" then (t, .ok ())
    else match t.ensureDirectory p with
      | .ok t => (t, .ok ())
      | .error .notFound =>
        match createAlong t before with
        | (t, .error e) => (t, .error e)
        | (t, .ok ()) =>
          match t.ensureDirectory p with
          | .ok t => (t, .ok ())
          | .error e => (t, .error e)
      | .error e => (t, .error e)

/-- A path and the paths of the directories above it, nearest first. -/
def lineage (p : String) : List String :=
  p :: ((Path.placed p).reverse.drop 1).map fun c => Path.slice p 0 c.stop

/-- The tree after making a directory and all directories that lead to it. -/
def createDirectories (t : FileTree) (p : String) : FileTree × Except OsError Unit :=
  t.createAlong (lineage p)

/-- The files of the tree with their contents. -/
def files (t : FileTree) : List (List String × ByteArray) :=
  t.nodes.filterMap fun
    | (names, .file contents _) => some (names, contents)
    | _ => none

/-- The files that an older tree does not have with the same contents. -/
def changedSince (t old : FileTree) : List (List String × ByteArray) :=
  t.files.filter fun (names, contents) =>
    match old.node? names with
    | some (.file before _) => before != contents
    | _ => true

end FileTree

end ShaderModules
