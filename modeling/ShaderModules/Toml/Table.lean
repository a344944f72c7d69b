import ShaderModules.Toml.Value

/-!
# Tables of a TOML document

A document defines its tables piece by piece: by headers, and by keys with dots. A table is
defined by one header at most, what is defined by dotted keys cannot be defined by a header, and
a value is final.

* `Item`: what a key stands for while the document is read.
* `addValue?`, `openTable?`, `openElement?`: what an assignment and the two kinds of header do.
-/

namespace ShaderModules.Toml

/-- What a key stands for. A table is `implicit` while no header has defined it, and `dotted` when
dotted keys have. -/
inductive Item where
  | value (v : Value)
  | table (implicit dotted : Bool) (entries : List (String × Item))
  /-- Tables that headers in double brackets define one after the other. -/
  | tables (elements : List (List (String × Item)))

/-- What the keys of a table stand for. -/
abbrev Entries := List (String × Item)

namespace Entries

/-- What a key stands for. -/
def find? (key : String) (l : Entries) : Option Item := (List.find? (·.1 == key) l).map (·.2)

/-- The entries with one replaced or added at the end. -/
def set (key : String) (item : Item) (l : Entries) : Entries :=
  if l.any (·.1 == key) then l.map fun e => if e.1 == key then (key, item) else e
  else l ++ [(key, item)]

/-- Changes the table at a path of keys; tables that are missing are made on the way. `f` is told
whether the table it changes is one of dotted keys. When `dotted`, only tables that no header has
defined may lie on the way. -/
def change? (dotted : Bool) (f : Bool → Entries → Option Entries) :
    List String → Bool → Entries → Option Entries
  | [], here, l => f here l
  | key :: path, _, l =>
    match find? key l with
    | none =>
      (change? dotted f path dotted []).map fun inner => set key (.table true dotted inner) l
    | some (.value _) => none
    | some (.tables elements) =>
      match elements.reverse with
      | [] => none
      | last :: previous =>
        (change? dotted f path false last).map fun inner =>
          set key (.tables (inner :: previous).reverse) l
    | some (.table implicit here inner) =>
      if dotted && !implicit then none
      else (change? dotted f path here inner).map fun inner =>
        set key (.table implicit here inner) l

/-- Adds a value under a new key. -/
def addNew? (key : String) (v : Value) (l : Entries) : Option Entries :=
  if (find? key l).isSome then none else some (l ++ [(key, .value v)])

/-- Assigns a value to a key with dots, given by its parts. -/
def addValue? (path : List String) (key : String) (v : Value) (l : Entries) : Option Entries :=
  change? true (fun here l => if !path.isEmpty && !here then none else addNew? key v l) path false l

/-- What a header does to the table that holds its last key. -/
def defineTable? (key : String) (l : Entries) : Option Entries :=
  match find? key l with
  | none => some (set key (.table false false []) l)
  | some (.table true false inner) => some (set key (.table false false inner) l)
  | some _ => none

/-- What a header in double brackets does to the table that holds its last key. -/
def defineElement? (key : String) (l : Entries) : Option Entries :=
  match find? key l with
  | none => some (set key (.tables [[]]) l)
  | some (.tables elements) => some (set key (.tables (elements ++ [[]])) l)
  | some _ => none

/-- Defines a table by a header. -/
def openTable? (path : List String) (l : Entries) : Option Entries :=
  match path.getLast? with
  | some key => change? false (fun _ => defineTable? key) path.dropLast false l
  | none => none

/-- Defines one more table by a header in double brackets. -/
def openElement? (path : List String) (l : Entries) : Option Entries :=
  match path.getLast? with
  | some key => change? false (fun _ => defineElement? key) path.dropLast false l
  | none => none

/-- Assigns a value in the table that the last header has opened. -/
def assign? (header path : List String) (key : String) (v : Value) (l : Entries) :
    Option Entries :=
  change? false (fun _ => addValue? path key v) header false l

mutual

/-- The value of an item. -/
def itemValue : Item → Value
  | .value v => v
  | .table _ _ entries => .table (entryValues entries)
  | .tables elements => .list (elementValues elements)

/-- The values of entries. -/
def entryValues : List (String × Item) → List (String × Value)
  | [] => []
  | (k, item) :: rest => (k, itemValue item) :: entryValues rest

/-- The values of tables. -/
def elementValues : List (List (String × Item)) → List Value
  | [] => []
  | l :: rest => .table (entryValues l) :: elementValues rest

end

end Entries

end ShaderModules.Toml
