import ShaderModules.Format
import ShaderModules.Json.Reader

/-!
# Choices and records in JSON text

* `Reader.oneOrMany`: a text or a list of texts.
* `Reader.choice`: one of some named values.
* `Reader.record`: an object with known fields in any order, or a list of their values.

Together with the readers of `ShaderModules.Json.Reader` they make JSON text a `Format`.
-/

namespace ShaderModules.Json.Reader

variable {α : Type}

/-! ## Alternatives -/

/-- The texts of a value that is a text or a list of texts. -/
def texts? : Value → Option (List String)
  | .text t => some [t]
  | .list items => items.mapM fun
    | .text t => some t
    | _ => none
  | _ => none

/-- The contents of a text or a list of texts. -/
def readOneOrMany (s : List Char) : Except Fault (List String × List Char) :=
  match (value maxDepth).run s with
  | .error f => .error f
  | .ok (v, r) =>
    match texts? v with
    | some l => .ok (l, r)
    | none => .error (.pending (.noForm "OneOrMany") r)

/-- A text, or any number of texts in order. -/
def oneOrMany : Reader (List String) where
  run := readOneOrMany
  shrinks {s r l} h := by
    unfold readOneOrMany at h
    split at h
    · cases h
    · rename_i v u hu
      have := (value maxDepth).shrinks hu
      split at h
      · cases h; exact this
      · cases h

/-- The name of a variant. -/
def readVariant (options : List (String × α)) (s : List Char) : Except Fault (α × List Char) :=
  match readText "variant identifier" s with
  | .error f => .error f
  | .ok (name, r) =>
    match options.find? (·.1 == name) with
    | some (_, a) => .ok (a, r)
    | none => .error (.here (.unfit (.unknownVariant name (options.map (·.1)))) r)

/-- The `null` after the name of a variant. -/
def readUnit (s : List Char) : Except Fault (List Char) :=
  match skipSpace s with
  | 'n' :: r => readWord ['u', 'l', 'l'] r
  | r => .error (unexpected "unit" r)

/-- The end of an object with one member. -/
def closeVariant (s : List Char) : Except Fault (List Char) :=
  match skipSpace s with
  | [] => .error (.here .endInObject [])
  | c :: r => if c = '\x7d' then .ok r else .error (.here .expectedValue (c :: r))

/-- A variant as the only member of an object. -/
def readVariantObject (options : List (String × α)) (s : List Char) :
    Except Fault (α × List Char) :=
  match readVariant options s with
  | .error f => .error f
  | .ok (a, r) =>
    match (readColon r).bind readUnit |>.bind closeVariant with
    | .error f => .error f
    | .ok r => .ok (a, r)

/-- The contents of a choice. -/
def readChoice (options : List (String × α)) (s : List Char) : Except Fault (α × List Char) :=
  match skipSpace s with
  | [] => .error (.here .endInValue [])
  | c :: r =>
    if c = '\x7b' then readVariantObject options r
    else if c = '"' then readVariant options (c :: r)
    else .error (.next .expectedValue (c :: r))

theorem readVariant_length {options : List (String × α)} {s r : List Char} {a : α}
    (h : readVariant options s = .ok (a, r)) : r.length ≤ s.length := by
  unfold readVariant at h
  split at h
  · cases h
  · rename_i name u hu
    have := readText_length hu
    split at h
    · cases h; exact this
    · cases h

theorem readUnit_length {s r : List Char} (h : readUnit s = .ok r) : r.length ≤ s.length := by
  unfold readUnit at h
  have hs := skipSpace_length s
  split at h
  · rename_i u hu
    rw [hu] at hs
    have := readWord_length h
    simp only [List.length_cons] at hs
    omega
  · cases h

theorem closeVariant_length {s r : List Char} (h : closeVariant s = .ok r) :
    r.length ≤ s.length := by
  unfold closeVariant at h
  have hs := skipSpace_length s
  split at h
  · cases h
  · rename_i u hu
    rw [hu] at hs
    split at h
    · cases h; simp only [List.length_cons] at hs; omega
    · cases h

theorem readVariantObject_length {options : List (String × α)} {s r : List Char} {a : α}
    (h : readVariantObject options s = .ok (a, r)) : r.length ≤ s.length := by
  unfold readVariantObject at h
  split at h
  · cases h
  · rename_i b u hu
    have h₁ := readVariant_length hu
    split at h
    · cases h
    · rename_i v hv
      cases h
      cases hc : readColon u with
      | error f => simp [hc, Except.bind] at hv
      | ok w =>
        cases hw : readUnit w with
        | error f => simp [hc, hw, Except.bind] at hv
        | ok x =>
          simp only [hc, hw, Except.bind] at hv
          have h₂ := readColon_length hc
          have h₃ := readUnit_length hw
          have h₄ := closeVariant_length hv
          omega

theorem readChoice_length {options : List (String × α)} {s r : List Char} {a : α}
    (h : readChoice options s = .ok (a, r)) : r.length ≤ s.length := by
  unfold readChoice at h
  have hs := skipSpace_length s
  split at h
  · cases h
  · rename_i c u hu
    rw [hu] at hs
    split at h
    · have := readVariantObject_length h
      simp only [List.length_cons] at hs
      omega
    · split at h
      · have := readVariant_length h; omega
      · cases h

/-- One of the named values: its name, or an object with the name as its only key. -/
def choice (options : List (String × α)) : Reader α where
  run := readChoice options
  shrinks := readChoice_length

/-! ## Records -/

/-- The fields given by name, up to the closing brace: `seen` holds the names met so far and
`acc` the record they make. A value under any other name is passed over. -/
def fieldsFrom (fields : List (Field Reader α)) (first : Bool) (seen : List String) (acc : α)
    (s : List Char) : Except Fault ((α × List String) × List Char) :=
  match _h : nextKey first s with
  | .error f => .error f
  | .ok (none, r) => .ok ((acc, seen), r)
  | .ok (some k, r) =>
    match fields.find? (·.name == k) with
    | some field =>
      if k ∈ seen then .error (.pending (.duplicateField k) r)
      else match _hc : readColon r with
        | .error f => .error f
        | .ok r =>
          match _hi : field.update.run r with
          | .error f => .error f
          | .ok (u, r) => fieldsFrom fields false (k :: seen) (u acc) r
    | none =>
      match _hc : readColon r with
      | .error f => .error f
      | .ok r =>
        match _hi : skipValue r with
        | .error f => .error f
        | .ok r => fieldsFrom fields false seen acc r
termination_by s.length
decreasing_by
  · have h₁ := (nextKey_length _h).2 rfl
    have h₂ := readColon_length _hc
    have h₃ := field.update.shrinks _hi
    omega
  · have h₁ := (nextKey_length _h).2 rfl
    have h₂ := readColon_length _hc
    have h₃ := skipValue_length _hi
    omega

/-- The record, when no required field is missing. -/
def complete (fields : List (Field Reader α)) :
    Except Fault ((α × List String) × List Char) → Except Fault (α × List Char)
  | .error f => .error f
  | .ok ((acc, seen), r) =>
    match fields.find? fun f => f.absence = .required && !seen.contains f.name with
    | some f => .error (.pending (.missingField f.name) r)
    | none => .ok (acc, r)

/-- The fields given by position, up to the last field or the closing bracket. -/
def slotsFrom (expected : String) (first : Bool) (index : Nat) (acc : α) (s : List Char) :
    List (Field Reader α) → Except Fault (α × List Char)
  | [] => .ok (acc, s)
  | field :: fields =>
    match nextItem first s with
    | .error f => .error f
    | .ok (false, r) =>
      if field.absence = .defaulted then slotsFrom expected first (index + 1) acc r fields
      else .error (.pending (.wrongLength index expected) r)
    | .ok (true, r) =>
      match field.update.run r with
      | .error f => .error f
      | .ok (u, r) => slotsFrom expected false (index + 1) (u acc) r fields

theorem fieldsFrom_length {fields : List (Field Reader α)} {first : Bool} {seen : List String}
    {acc : α} {s r : List Char} {b : α × List String}
    (h : fieldsFrom fields first seen acc s = .ok (b, r)) : r.length ≤ s.length := by
  fun_induction fieldsFrom fields first seen acc s with
  | case1 => cases h
  | case2 first seen acc s u hn => cases h; exact (nextKey_length hn).1
  | case3 => cases h
  | case4 => cases h
  | case5 => cases h
  | case6 first seen acc s k u hn field hf hk v hc g w hi ih =>
    have h₁ := (nextKey_length hn).1
    have h₂ := readColon_length hc
    have h₃ := field.update.shrinks hi
    have := ih h
    omega
  | case7 => cases h
  | case8 => cases h
  | case9 first seen acc s k u hn hf v hc w hi ih =>
    have h₁ := (nextKey_length hn).1
    have h₂ := readColon_length hc
    have h₃ := skipValue_length hi
    have := ih h
    omega

theorem complete_length {fields : List (Field Reader α)}
    {x : Except Fault ((α × List String) × List Char)} {a : α} {r : List Char}
    (h : complete fields x = .ok (a, r)) : ∃ seen, x = .ok ((a, seen), r) := by
  unfold complete at h
  split at h
  · cases h
  · split at h
    · cases h
    · cases h; exact ⟨_, rfl⟩

theorem slotsFrom_length {expected : String} {first : Bool} {index : Nat} {acc a : α}
    {s r : List Char} {fields : List (Field Reader α)}
    (h : slotsFrom expected first index acc s fields = .ok (a, r)) : r.length ≤ s.length := by
  induction fields generalizing first index acc s with
  | nil => cases h; exact Nat.le_refl _
  | cons field fields ih =>
    simp only [slotsFrom] at h
    split at h
    · cases h
    · rename_i u hu
      have h₁ := (nextItem_length hu).1
      split at h
      · have := ih h; omega
      · cases h
    · rename_i u hu
      have h₁ := (nextItem_length hu).1
      split at h
      · cases h
      · rename_i g v hv
        have h₂ := field.update.shrinks hv
        have := ih h
        omega

/-- The contents of a record, by name or by position. -/
def readRecord (name : String) (blank : α) (fields : List (Field Reader α)) (s : List Char) :
    Except Fault (α × List Char) :=
  match skipSpace s with
  | [] => .error (.here .endInValue [])
  | c :: r =>
    if c = '[' then
      enclosed closeList
        (slotsFrom (recordExpectation name fields.length) true 0 blank r fields)
    else if c = '\x7b' then
      enclosed closeObject (complete fields (fieldsFrom fields true [] blank r))
    else .error (unexpected ("struct " ++ name) (c :: r))

theorem readRecord_length {name : String} {blank : α} {fields : List (Field Reader α)}
    {s r : List Char} {a : α} (h : readRecord name blank fields s = .ok (a, r)) :
    r.length ≤ s.length := by
  unfold readRecord at h
  have hs := skipSpace_length s
  split at h
  · cases h
  · rename_i c u hu
    rw [hu] at hs
    simp only [List.length_cons] at hs
    split at h
    · obtain ⟨v, hv, hle⟩ := enclosed_length closeList_length h
      have := slotsFrom_length hv
      omega
    · split at h
      · obtain ⟨v, hv, hle⟩ := enclosed_length closeObject_length h
        obtain ⟨seen, hseen⟩ := complete_length hv
        have := fieldsFrom_length hseen
        omega
      · cases h

/-- A record, by name or by position. -/
def record (name : String) (blank : α) (fields : List (Field Reader α)) : Reader α where
  run := readRecord name blank fields
  shrinks := readRecord_length

instance : Format Reader where
  text := text
  path := path
  flag := flag
  option := option
  list := list
  table := table
  oneOrMany := oneOrMany
  choice _ := choice
  record := record

end ShaderModules.Json.Reader
