/-!
# Glob patterns

* `Token`: the parts of a pattern. `*` and `?` do not cross slashes; `**` does, where it is a whole
  path segment; braces hold alternatives, which may be nested.
* `parse`: the tokens of a pattern, or the first thing wrong with it.
-/

namespace ShaderModules.Glob

/-- A part of a pattern. -/
inductive Token where
  | literal (c : Char)
  /-- `?`: one byte other than a slash. -/
  | any
  /-- `*`: any bytes other than slashes. -/
  | many
  /-- `**/` at the start of a pattern or of an alternative. -/
  | leadingTree
  /-- `/**` at the end of a pattern or of an alternative. -/
  | trailingTree
  /-- `/**/` between other parts. -/
  | innerTree
  /-- `[…]`: one byte of the ranges, or of none of them. -/
  | oneOf (negated : Bool) (ranges : List (Char × Char))
  /-- `{…}`: one of several patterns. -/
  | alternatives (branches : List (List Token))
  deriving Repr

/-- What can be wrong with a pattern. -/
inductive Fault where
  | unclosedClass
  | invalidRange (first last : Char)
  | unopenedGroup
  | unclosedGroup
  | danglingEscape
  deriving DecidableEq, Repr

/-- The text of a fault. -/
def Fault.message : Fault → String
  | .unclosedClass => "unclosed character class; missing ']'"
  | .invalidRange first last =>
    "invalid range; '" ++ first.toString ++ "' > '" ++ last.toString ++ "'"
  | .unopenedGroup =>
    "unopened alternate group; missing '\x7b' (maybe escape '\x7d' with '[\x7d]'?)"
  | .unclosedGroup =>
    "unclosed alternate group; missing '\x7d' (maybe escape '\x7b' with '[\x7b]'?)"
  | .danglingEscape => "dangling '\\'"

/-! ## Character classes -/

/-- Ends the last range, which comes first in `ranges`, at a character. -/
def endRange (ranges : List (Char × Char)) (c : Char) : Except Fault (List (Char × Char)) :=
  match ranges with
  | (first, _) :: rest => if c < first then .error (.invalidRange first c) else .ok ((first, c) :: rest)
  | [] => .ok [(c, c)]

/-- The ranges of a class up to its closing bracket, in reverse. `inRange` says that the last one
waits for its end. -/
def classFrom (first inRange : Bool) (ranges : List (Char × Char)) :
    List Char → Except Fault (List (Char × Char) × List Char)
  | [] => .error .unclosedClass
  | c :: rest =>
    if c = ']' && !first then .ok (if inRange then ('-', '-') :: ranges else ranges, rest)
    else if c = '-' && !first && !inRange then classFrom false true ranges rest
    else if inRange && !(c = ']') then
      match endRange ranges c with
      | .ok ranges => classFrom false false ranges rest
      | .error f => .error f
    else classFrom false false ((c, c) :: ranges) rest

/-- A class after its opening bracket. -/
def parseClass (s : List Char) : Except Fault (Token × List Char) :=
  let negated := s.head? = some '!' || s.head? = some '^'
  match classFrom true false [] (if negated then s.drop 1 else s) with
  | .ok (ranges, rest) => .ok (.oneOf negated ranges.reverse, rest)
  | .error f => .error f

theorem classFrom_length {first inRange : Bool} {ranges out : List (Char × Char)}
    {s r : List Char} (h : classFrom first inRange ranges s = .ok (out, r)) :
    r.length < s.length := by
  induction s generalizing first inRange ranges with
  | nil => cases h
  | cons c rest ih =>
    simp only [classFrom] at h
    split at h
    · cases h; simp
    · split at h
      · have := ih h; simp; omega
      · split at h
        · split at h
          · have := ih h; simp; omega
          · cases h
        · have := ih h; simp; omega

theorem parseClass_length {s r : List Char} {t : Token} (h : parseClass s = .ok (t, r)) :
    r.length < s.length := by
  unfold parseClass at h
  dsimp only at h
  split at h
  · rename_i hc
    cases h
    have := classFrom_length hc
    split at this
    · simp at this; omega
    · exact this
  · cases h

/-! ## Patterns -/

/-- A pattern under way. `tokens` are the tokens of the innermost branch, in reverse; `groups`
hold, for each open group, its finished branches and the tokens in front of it, all in reverse. -/
structure Draft where
  tokens : List Token := []
  groups : List (List (List Token) × List Token) := []

namespace Draft

/-- Adds a token. -/
def push (d : Draft) (t : Token) : Draft := { d with tokens := t :: d.tokens }

/-- Opens a group. -/
def openGroup (d : Draft) : Draft := ⟨[], ([], d.tokens) :: d.groups⟩

/-- Starts another branch, or adds a comma outside of groups. -/
def comma (d : Draft) : Draft :=
  match d.groups with
  | [] => d.push (.literal ',')
  | (branches, before) :: outer => ⟨[], (d.tokens.reverse :: branches, before) :: outer⟩

/-- Closes the innermost group. -/
def closeGroup (d : Draft) : Except Fault Draft :=
  match d.groups with
  | [] => .error .unopenedGroup
  | (branches, before) :: outer =>
    .ok ⟨.alternatives (d.tokens.reverse :: branches).reverse :: before, outer⟩

/-- The tree token `t` in place of the last token, which is the slash in front of it; a tree
token that is there already takes it in, unless it lies between other parts. -/
def replaceLast (d : Draft) (t : Token) : Draft :=
  match d.tokens with
  | .leadingTree :: _ => d
  | .trailingTree :: _ => d
  | _ :: rest => { d with tokens := t :: rest }
  | [] => d.push t

/-- Adds `**`, which follows the character `previous` and precedes `next`. Returns whether it
takes in the slash that follows. -/
def pushTree (d : Draft) (previous next : Option Char) : Draft × Bool :=
  let stars := (d.push .many).push .many
  if d.tokens.isEmpty then
    match next with
    | none => (d.push .leadingTree, false)
    | some c => if c = '/' then (d.push .leadingTree, true) else (stars, false)
  else if previous ≠ some '/' &&
      (d.groups.isEmpty || (previous ≠ some ',' && previous ≠ some '\x7b')) then (stars, false)
  else match next with
    | none => (d.replaceLast .trailingTree, false)
    | some c =>
      if (c = ',' || c = '\x7d') && !d.groups.isEmpty then (d.replaceLast .trailingTree, false)
      else if c = '/' then (d.replaceLast .innerTree, true)
      else (stars, false)

end Draft

/-- Reads the rest of a pattern after the character `previous`. -/
def parseFrom (previous : Option Char) (d : Draft) (s : List Char) : Except Fault Draft :=
  match s with
  | [] => .ok d
  | c :: rest =>
    if c = '?' then parseFrom (some c) (d.push .any) rest
    else if c = '*' then
      match rest with
      | [] => parseFrom (some c) (d.push .many) []
      | c' :: after =>
        if c' = '*' then
          let (d', takesSlash) := d.pushTree previous after.head?
          if takesSlash then parseFrom (some '/') d' (after.drop 1)
          else parseFrom (some c) d' after
        else parseFrom (some c) (d.push .many) (c' :: after)
    else if c = '[' then
      match _h : parseClass rest with
      | .ok (t, rest) => parseFrom (some ']') (d.push t) rest
      | .error f => .error f
    else if c = '\x7b' then parseFrom (some c) d.openGroup rest
    else if c = '\x7d' then
      match d.closeGroup with
      | .ok d => parseFrom (some c) d rest
      | .error f => .error f
    else if c = ',' then parseFrom (some c) d.comma rest
    else if c = '\\' then
      match rest with
      | [] => .error .danglingEscape
      | c' :: rest => parseFrom (some c') (d.push (.literal c')) rest
    else parseFrom (some c) (d.push (.literal c)) rest
termination_by s.length
decreasing_by
  all_goals try have := parseClass_length _h
  all_goals simp only [List.length_cons, List.length_drop] at *; omega

/-- The tokens of a pattern. -/
def parse (pattern : String) : Except Fault (List Token) :=
  match parseFrom none {} pattern.toList with
  | .error f => .error f
  | .ok d => if d.groups.isEmpty then .ok d.tokens.reverse else .error .unclosedGroup

end ShaderModules.Glob
