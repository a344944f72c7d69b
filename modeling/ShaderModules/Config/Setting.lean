import ShaderModules.Keyed

/-!
# Layers of settings

Settings come in layers. A layer is a tree of tables whose leaves are values, and every node knows
the layer it comes from. Of two layers, the higher one wins at every leaf it sets: tables are
merged key by key, and anything else is replaced.

* `Setting`: a node of such a tree.
* `Setting.merge`: a layer on top of a lower one.
* `Setting.get?`: what is found at a path of keys.
-/

namespace ShaderModules

/-- The layers, lowest first. -/
inductive Layer where
  | defaults
  /-- A file, by the path that messages show. -/
  | file (path : String)
  | environment
  | commandLine
  deriving DecidableEq, Repr

/-- The values at the leaves. -/
inductive Scalar where
  | absent
  | text (s : String)
  | character (c : Char)
  | flag (b : Bool)
  /-- A number given without a sign. -/
  | natural (n : Nat)
  | integer (n : Int)
  | float (x : Float)
  deriving Repr

/-- A node of a layer. The entries of a table are in the order of their keys. -/
inductive Setting where
  | scalar (origin : Layer) (value : Scalar)
  | list (origin : Layer) (items : List Setting)
  | table (origin : Layer) (entries : List (String × Setting))
  deriving Repr

namespace Setting

/-- The layer that a node comes from. -/
def origin : Setting → Layer
  | .scalar o _ => o
  | .list o _ => o
  | .table o _ => o

/-- A text as a setting. -/
def ofText (o : Layer) (s : String) : Setting := .scalar o (.text s)

/-- Texts as a setting. -/
def ofTexts (o : Layer) (l : List String) : Setting := .list o (l.map (ofText o))

/-- What is found below a node at a path of keys. -/
def get? : List String → Setting → Option Setting
  | [], s => some s
  | k :: path, .table _ entries => (Keyed.get? k entries).bind (get? path)
  | _ :: _, _ => none

/-- A node below the keys of a path. -/
def nest (o : Layer) : List String → Setting → Setting
  | [], s => s
  | k :: path, s => .table o [(k, nest o path s)]

mutual

/-- A node of a higher layer on top of a node of a lower one. -/
def merge : Setting → Setting → Setting
  | .table _ low, .table o high => .table o (mergeEntries low high)
  | _, high => high

/-- The entries of a table on top of those of a lower one. -/
def mergeEntries (low : Keyed Setting) : List (String × Setting) → Keyed Setting
  | [] => low
  | (k, v) :: rest =>
    let entry := match Keyed.get? k low with
      | some old => merge old v
      | none => v
    mergeEntries (Keyed.insert k entry low) rest

end

/-- The entries of a table, none of another node. -/
def entries : Setting → Keyed Setting
  | .table _ l => l
  | _ => []

end Setting

end ShaderModules
