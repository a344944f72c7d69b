import ShaderModules.Json.Skip

/-!
# Lists and objects in JSON text, step by step

* `nextItem`, `nextKey`: from one item or member to the next, or to the closing bracket.
* `closeList`, `closeObject`: past the closing bracket.
* `enclosed`: closes a bracket after its contents, and places a fault that waits for that.
-/

namespace ShaderModules.Json

/-- The step to the next item of a list: whether there is one, and the unread text at the item or
at the closing bracket. -/
def nextItem (first : Bool) (s : List Char) : Except Fault (Bool × List Char) :=
  match skipSpace s with
  | [] => .error (.here .endInList [])
  | c :: r =>
    if c = ']' then .ok (false, c :: r)
    else if first then .ok (true, c :: r)
    else if c = ',' then
      match skipSpace r with
      | [] => .error (.here .endInValue [])
      | d :: r' => if d = ']' then .error (.next .trailingComma (d :: r')) else .ok (true, d :: r')
    else .error (.next .expectedCommaOrBracket (c :: r))

theorem nextItem_length {first more : Bool} {s r : List Char}
    (h : nextItem first s = .ok (more, r)) :
    r.length ≤ s.length ∧ (first = false → more = true → r.length < s.length) := by
  unfold nextItem at h
  have hs := skipSpace_length s
  split at h
  · cases h
  · rename_i c u hu
    rw [hu] at hs
    split at h
    · cases h; exact ⟨hs, by simp⟩
    · split at h
      · rename_i hf; cases h; exact ⟨hs, by simp [hf]⟩
      · split at h
        · have hu' := skipSpace_length u
          split at h
          · cases h
          · rename_i d v hv
            rw [hv] at hu'
            split at h
            · cases h
            · cases h
              simp only [List.length_cons] at *
              omega
        · cases h

/-- The key in front of a member of an object. -/
def keyAt : List Char → Except Fault (Option String × List Char)
  | '"' :: r => (readString r).map fun (k, r) => (some k, r)
  | r => .error (.next .keyNotString r)

/-- The step to the next member of an object: its key and the unread text after it, or no key and
the unread text at the closing bracket. -/
def nextKey (first : Bool) (s : List Char) : Except Fault (Option String × List Char) :=
  match skipSpace s with
  | [] => .error (.here .endInObject [])
  | c :: r =>
    if c = '\x7d' then .ok (none, c :: r)
    else if first then keyAt (c :: r)
    else if c = ',' then
      match skipSpace r with
      | [] => .error (.here .endInValue [])
      | d :: r' =>
        if d = '\x7d' then .error (.next .trailingComma (d :: r')) else keyAt (d :: r')
    else .error (.next .expectedCommaOrBrace (c :: r))

theorem keyAt_length {s r : List Char} {k : Option String} (h : keyAt s = .ok (k, r)) :
    r.length < s.length ∧ k.isSome := by
  unfold keyAt at h
  split at h
  · rename_i u
    cases hu : readString u with
    | error f => simp [hu, Except.map] at h
    | ok p =>
      simp only [hu, Except.map, Except.ok.injEq, Prod.mk.injEq] at h
      have := readString_length hu
      simp [← h.1, ← h.2]
      omega
  · cases h

theorem nextKey_length {first : Bool} {s r : List Char} {k : Option String}
    (h : nextKey first s = .ok (k, r)) :
    r.length ≤ s.length ∧ (k.isSome → r.length < s.length) := by
  unfold nextKey at h
  have hs := skipSpace_length s
  split at h
  · cases h
  · rename_i c u hu
    rw [hu] at hs
    split at h
    · cases h; exact ⟨hs, by simp⟩
    · split at h
      · have := keyAt_length h; omega
      · split at h
        · have hu' := skipSpace_length u
          split at h
          · cases h
          · rename_i d v hv
            rw [hv] at hu'
            split at h
            · cases h
            · have := keyAt_length h
              simp only [List.length_cons] at *
              omega
        · cases h

/-- Passes over the colon after a key. -/
def readColon (s : List Char) : Except Fault (List Char) :=
  match skipSpace s with
  | [] => .error (.here .endInObject [])
  | c :: r => if c = ':' then .ok r else .error (.next .expectedColon (c :: r))

theorem readColon_length {s r : List Char} (h : readColon s = .ok r) : r.length < s.length := by
  unfold readColon at h
  have hs := skipSpace_length s
  split at h
  · cases h
  · rename_i c u hu
    rw [hu] at hs
    split at h
    · cases h; simp only [List.length_cons] at hs; omega
    · cases h

/-- Passes over the bracket that closes a list. -/
def closeList (s : List Char) : Except Fault (List Char) :=
  match skipSpace s with
  | [] => .error (.here .endInList [])
  | ']' :: r => .ok r
  | ',' :: r =>
    match skipSpace r with
    | ']' :: r' => .error (.next .trailingComma (']' :: r'))
    | r' => .error (.next .trailingCharacters r')
  | r => .error (.next .trailingCharacters r)

/-- Passes over the brace that closes an object. -/
def closeObject (s : List Char) : Except Fault (List Char) :=
  match skipSpace s with
  | [] => .error (.here .endInObject [])
  | '\x7d' :: r => .ok r
  | ',' :: r => .error (.next .trailingComma (',' :: r))
  | r => .error (.next .trailingCharacters r)

theorem closeList_length {s r : List Char} (h : closeList s = .ok r) : r.length ≤ s.length := by
  unfold closeList at h
  have hs := skipSpace_length s
  split at h
  · cases h
  · rename_i u hu
    cases h
    rw [hu] at hs
    simp only [List.length_cons] at hs
    omega
  · split at h <;> cases h
  · cases h

theorem closeObject_length {s r : List Char} (h : closeObject s = .ok r) :
    r.length ≤ s.length := by
  unfold closeObject at h
  have hs := skipSpace_length s
  split at h
  · cases h
  · rename_i u hu
    cases h
    rw [hu] at hs
    simp only [List.length_cons] at hs
    omega
  · cases h
  · cases h

/-- Closes a bracket after its contents. A fault that waits for this is placed where the bracket
ends, or where that end is missed. -/
def enclosed {α : Type} (close : List Char → Except Fault (List Char)) :
    Except Fault (α × List Char) → Except Fault (α × List Char)
  | .ok (a, r) => (close r).map fun r => (a, r)
  | .error f =>
    if f.placed then .error f
    else match close f.rest with
      | .ok r => .error ⟨f.reason, r, 0, true⟩
      | .error g => .error ⟨f.reason, g.rest, 0, true⟩

theorem enclosed_length {α : Type} {close : List Char → Except Fault (List Char)}
    (hclose : ∀ {s r : List Char}, close s = .ok r → r.length ≤ s.length)
    {x : Except Fault (α × List Char)} {a : α} {r : List Char}
    (h : enclosed close x = .ok (a, r)) : ∃ r', x = .ok (a, r') ∧ r.length ≤ r'.length := by
  unfold enclosed at h
  split at h
  · rename_i b u
    cases hu : close u with
    | error f => simp [hu, Except.map] at h
    | ok v =>
      simp only [hu, Except.map, Except.ok.injEq, Prod.mk.injEq] at h
      obtain ⟨rfl, rfl⟩ := h
      exact ⟨u, rfl, hclose hu⟩
  · split at h
    · cases h
    · split at h <;> cases h

end ShaderModules.Json
