/-!
# Finding and replacing pieces of text

* `stripPrefix?`, `stripSuffix?`: the rest of a text after, or before, a given piece
  (`stripPrefix?_eq_some_iff`, `stripSuffix?_eq_some_iff`).
* `splitOn`: the pieces of a text between the successive occurrences of a separator, found from
  left to right without overlaps.
* `replaceAll`: the same pieces joined by another text.
-/

namespace ShaderModules.Text

/-- What follows `p` in `s`, when `s` starts with `p`. -/
def stripPrefix? : List Char → List Char → Option (List Char)
  | [], s => some s
  | _ :: _, [] => none
  | a :: p, b :: s => if a = b then stripPrefix? p s else none

/-- What precedes `p` in `s`, when `s` ends with `p`. -/
def stripSuffix? (p s : List Char) : Option (List Char) :=
  (stripPrefix? p.reverse s.reverse).map List.reverse

theorem stripPrefix?_eq_some_iff {p s r : List Char} :
    stripPrefix? p s = some r ↔ s = p ++ r := by
  induction p generalizing s with
  | nil => simp [stripPrefix?]
  | cons a p ih =>
    cases s with
    | nil => simp [stripPrefix?]
    | cons b s =>
      by_cases h : a = b
      · subst h; simp [stripPrefix?, ih]
      · simp [stripPrefix?, h, Ne.symm h]

theorem stripSuffix?_eq_some_iff {p s r : List Char} :
    stripSuffix? p s = some r ↔ s = r ++ p := by
  simp only [stripSuffix?, Option.map_eq_some_iff, stripPrefix?_eq_some_iff]
  constructor
  · rintro ⟨t, ht, rfl⟩
    simpa using congrArg List.reverse ht
  · rintro rfl
    exact ⟨r.reverse, by simp, by simp⟩

theorem stripPrefix?_length {p s r : List Char} (h : stripPrefix? p s = some r) :
    r.length + p.length = s.length := by
  rw [stripPrefix?_eq_some_iff.1 h, List.length_append, Nat.add_comm]

/-- The pieces of a text between the occurrences of `sep`; `piece` is the piece under way, in
reverse. An empty separator splits nothing. -/
def splitFrom (sep : List Char) (piece : List Char) (s : List Char) : List (List Char) :=
  match s with
  | [] => [piece.reverse]
  | c :: rest =>
    match _h : stripPrefix? sep (c :: rest) with
    | some after =>
      if _hs : sep = [] then splitFrom sep (c :: piece) rest
      else piece.reverse :: splitFrom sep [] after
    | none => splitFrom sep (c :: piece) rest
termination_by s.length
decreasing_by
  · simp
  · have := stripPrefix?_length _h
    have : 0 < sep.length := List.length_pos_iff.2 _hs
    simp at *; omega
  · simp

/-- The pieces of a text between the successive occurrences of `sep`. -/
def splitOn (sep s : List Char) : List (List Char) := splitFrom sep [] s

/-- The text with every occurrence of `sep`, found from left to right, replaced by `value`. -/
def replaceAll (sep value s : List Char) : List Char := value.intercalate (splitOn sep s)

/-- `replaceAll` on strings. -/
def replace (s sep value : String) : String :=
  String.ofList (replaceAll sep.toList value.toList s.toList)

/-- What follows `p` in `s`, when `s` starts with `p`. -/
def dropPrefix? (s p : String) : Option String :=
  (stripPrefix? p.toList s.toList).map String.ofList

/-- What precedes `p` in `s`, when `s` ends with `p`. -/
def dropSuffix? (s p : String) : Option String :=
  (stripSuffix? p.toList s.toList).map String.ofList

theorem dropPrefix?_eq_some_iff {s p r : String} : dropPrefix? s p = some r ↔ s = p ++ r := by
  simp only [dropPrefix?, Option.map_eq_some_iff, stripPrefix?_eq_some_iff]
  constructor
  · rintro ⟨t, ht, rfl⟩
    exact String.toList_inj.1 (by simp [ht])
  · rintro rfl
    exact ⟨r.toList, by simp, by simp⟩

theorem dropSuffix?_eq_some_iff {s p r : String} : dropSuffix? s p = some r ↔ s = r ++ p := by
  simp only [dropSuffix?, Option.map_eq_some_iff, stripSuffix?_eq_some_iff]
  constructor
  · rintro ⟨t, ht, rfl⟩
    exact String.toList_inj.1 (by simp [ht])
  · rintro rfl
    exact ⟨r.toList, by simp, by simp⟩

/-- The pieces of a string between the occurrences of a character. -/
def splitAt (sep : Char) (s : List Char) : List (List Char) := splitOn [sep] s

end ShaderModules.Text
