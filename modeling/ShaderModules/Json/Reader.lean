import ShaderModules.Keyed
import ShaderModules.Json.Bracket

/-!
# Typed reading of JSON text

A reader takes the unread text and returns a value with the text that follows. What is read is
checked against the expected type on the way, so that the first complaint or break of the grammar
in the text is the one reported.

* `Reader`: a reader that gives back no more text than it was given.
* `Reader.text`, `Reader.flag`, `Reader.list`, `Reader.members`, `Reader.option`.
* `Reader.value`: any value up to a depth.
* `Reader.parse`: reads a whole text.
-/

namespace ShaderModules.Json

/-- A reader of a value of type `α` from the front of JSON text. -/
structure Reader (α : Type) where
  run : List Char → Except Fault (α × List Char)
  shrinks : ∀ {s r : List Char} {a : α}, run s = .ok (a, r) → r.length ≤ s.length

/-! ## Scalars -/

/-- The fault at a value of a type that is not expected. A scalar is read first and the fault lies
behind it; before a list or an object the fault lies in front. -/
def unexpected (expected : String) (s : List Char) : Fault :=
  let complain (found : Found) (r : List Char) : Fault :=
    .here (.unfit (.wrongType found expected)) r
  let word (letters : List Char) (found : Found) (r : List Char) : Fault :=
    match readWord letters r with
    | .ok r => complain found r
    | .error f => f
  let number (negative : Bool) (r : List Char) : Fault :=
    match readNumber negative r with
    | .ok (n, r) => complain (.number n) r
    | .error f => f
  match s with
  | [] => .here .endInValue []
  | c :: r =>
    if c = 'n' then word ['u', 'l', 'l'] .null r
    else if c = 't' then word ['r', 'u', 'e'] (.flag true) r
    else if c = 'f' then word ['a', 'l', 's', 'e'] (.flag false) r
    else if c = '-' then number true r
    else if c.isDigit then number false s
    else if c = '"' then
      match readString r with
      | .ok (t, r) => complain (.text t) r
      | .error f => f
    else if c = '[' then complain .sequence s
    else if c = '\x7b' then complain .map s
    else .next .expectedValue s

/-- A string, where `expected` is what a complaint calls it. -/
def readText (expected : String) (s : List Char) : Except Fault (String × List Char) :=
  match skipSpace s with
  | '"' :: r => readString r
  | r => .error (unexpected expected r)

theorem readText_length {expected : String} {s r : List Char} {t : String}
    (h : readText expected s = .ok (t, r)) : r.length ≤ s.length := by
  unfold readText at h
  have hs := skipSpace_length s
  split at h
  · rename_i u hu
    rw [hu] at hs
    have := readString_length h
    simp only [List.length_cons] at hs
    omega
  · cases h

/-- A truth value. -/
def readFlag (s : List Char) : Except Fault (Bool × List Char) :=
  match skipSpace s with
  | 't' :: r => (readWord ['r', 'u', 'e'] r).map fun r => (true, r)
  | 'f' :: r => (readWord ['a', 'l', 's', 'e'] r).map fun r => (false, r)
  | r => .error (unexpected "a boolean" r)

theorem map_length {α β : Type} {x : Except Fault α} {f : α → β} {b : β}
    (h : x.map f = .ok b) : ∃ a, x = .ok a ∧ f a = b := by
  cases x with
  | error e => cases h
  | ok a => exact ⟨a, rfl, by simpa [Except.map] using h⟩

theorem readFlag_length {s r : List Char} {b : Bool} (h : readFlag s = .ok (b, r)) :
    r.length ≤ s.length := by
  unfold readFlag at h
  have hs := skipSpace_length s
  split at h
  · rename_i u hu
    obtain ⟨v, hv, heq⟩ := map_length h
    cases heq
    have := readWord_length hv
    rw [hu] at hs
    simp only [List.length_cons] at hs
    omega
  · rename_i u hu
    obtain ⟨v, hv, heq⟩ := map_length h
    cases heq
    have := readWord_length hv
    rw [hu] at hs
    simp only [List.length_cons] at hs
    omega
  · cases h

/-! ## Lists and tables -/

namespace Reader

variable {α β : Type}

/-- The items up to the closing bracket; `read` holds those read so far, in reverse. -/
def itemsFrom (item : Reader α) (first : Bool) (read : List α) (s : List Char) :
    Except Fault (List α × List Char) :=
  match _h : nextItem first s with
  | .error f => .error f
  | .ok (false, r) => .ok (read.reverse, r)
  | .ok (true, r) =>
    match _h' : item.run r with
    | .error f => .error f
    | .ok (a, r') => itemsFrom item false (a :: read) r'
termination_by (s.length, first.toNat)
decreasing_by
  have h₁ := nextItem_length _h
  have h₂ := item.shrinks _h'
  cases first with
  | false => exact Prod.Lex.left _ _ (by have := h₁.2 rfl rfl; omega)
  | true =>
    rcases Nat.lt_or_ge r'.length s.length with hlt | hge
    · exact Prod.Lex.left _ _ hlt
    · have : r'.length = s.length := by omega
      rw [this]
      exact Prod.Lex.right _ (by decide)

theorem itemsFrom_length {item : Reader α} {first : Bool} {read l : List α} {s r : List Char}
    (h : itemsFrom item first read s = .ok (l, r)) : r.length ≤ s.length := by
  fun_induction itemsFrom item first read s with
  | case1 => cases h
  | case2 first read s u hn => cases h; exact (nextItem_length hn).1
  | case3 => cases h
  | case4 first read s u hn a v ha ih =>
    have h₁ := (nextItem_length hn).1
    have h₂ := item.shrinks ha
    have := ih h
    omega

/-- The contents of a list. -/
def readList (item : Reader α) (s : List Char) : Except Fault (List α × List Char) :=
  match skipSpace s with
  | '[' :: r => enclosed closeList (item.itemsFrom true [] r)
  | r => .error (unexpected "a sequence" r)

/-- Any number of items in order. -/
def list (item : Reader α) : Reader (List α) where
  run := readList item
  shrinks {s r l} h := by
    unfold readList at h
    have hs := skipSpace_length s
    split at h
    · rename_i u hu
      obtain ⟨v, hv, hle⟩ := enclosed_length closeList_length h
      have := itemsFrom_length hv
      rw [hu] at hs
      simp only [List.length_cons] at hs
      omega
    · cases h

/-- The members up to the closing brace, each inserted into `read`. -/
def membersFrom (item : Reader α) (first : Bool) (read : List (String × α)) (s : List Char) :
    Except Fault (List (String × α) × List Char) :=
  match _h : nextKey first s with
  | .error f => .error f
  | .ok (none, r) => .ok (read.reverse, r)
  | .ok (some k, r) =>
    match _hc : readColon r with
    | .error f => .error f
    | .ok r =>
      match _hi : item.run r with
      | .error f => .error f
      | .ok (a, r) => membersFrom item false ((k, a) :: read) r
termination_by s.length
decreasing_by
  have h₁ := (nextKey_length _h).2 rfl
  have h₂ := readColon_length _hc
  have h₃ := item.shrinks _hi
  omega

theorem membersFrom_length {item : Reader α} {first : Bool} {read l : List (String × α)}
    {s r : List Char} (h : membersFrom item first read s = .ok (l, r)) :
    r.length ≤ s.length := by
  fun_induction membersFrom item first read s with
  | case1 => cases h
  | case2 first read s u hn => cases h; exact (nextKey_length hn).1
  | case3 => cases h
  | case4 => cases h
  | case5 first read s k u hn v hc a w hi ih =>
    have h₁ := (nextKey_length hn).1
    have h₂ := readColon_length hc
    have h₃ := item.shrinks hi
    have := ih h
    omega

/-- The members of an object in the order given. -/
def readMembers (item : Reader α) (s : List Char) :
    Except Fault (List (String × α) × List Char) :=
  match skipSpace s with
  | '\x7b' :: r => enclosed closeObject (item.membersFrom true [] r)
  | r => .error (unexpected "a map" r)

/-- Values by name, in the order given. -/
def members (item : Reader α) : Reader (List (String × α)) where
  run := readMembers item
  shrinks {s r l} h := by
    unfold readMembers at h
    have hs := skipSpace_length s
    split at h
    · rename_i u hu
      obtain ⟨v, hv, hle⟩ := enclosed_length closeObject_length h
      have := membersFrom_length hv
      rw [hu] at hs
      simp only [List.length_cons] at hs
      omega
    · cases h

/-- Applies a function to what is read. -/
def map (f : α → β) (p : Reader α) : Reader β where
  run s := (p.run s).map fun (a, r) => (f a, r)
  shrinks {s r b} h := by
    obtain ⟨⟨a, r'⟩, hp, heq⟩ := map_length h
    cases heq
    exact p.shrinks hp

instance : Functor Reader where
  map := map

/-- A text. -/
def text : Reader String := ⟨readText "a string", readText_length⟩

/-- A text that names a file. -/
def path : Reader String := ⟨readText "path string", readText_length⟩

/-- A truth value. -/
def flag : Reader Bool := ⟨readFlag, readFlag_length⟩

/-- Texts by name. -/
def table : Reader (Keyed String) := (members text).map Keyed.ofList

/-- The contents of an optional value. -/
def readOption (item : Reader α) (s : List Char) : Except Fault (Option α × List Char) :=
  match skipSpace s with
  | 'n' :: r => (readWord ['u', 'l', 'l'] r).map fun r => (none, r)
  | r => (item.run r).map fun (a, r) => (some a, r)

/-- A value or `null`. -/
def option (item : Reader α) : Reader (Option α) where
  run := readOption item
  shrinks {s r l} h := by
    unfold readOption at h
    have hs := skipSpace_length s
    split at h
    · rename_i u hu
      obtain ⟨v, hv, heq⟩ := map_length h
      cases heq
      have := readWord_length hv
      rw [hu] at hs
      simp only [List.length_cons] at hs
      omega
    · obtain ⟨⟨a, r'⟩, hv, heq⟩ := map_length h
      cases heq
      have := item.shrinks hv
      omega

/-! ## Any value -/

/-- A list read with `item`, or the fault of a list that lies too deep. -/
def readItems (item : Option (Reader α)) (s : List Char) : Except Fault (List α × List Char) :=
  match item with
  | some item => readList item s
  | none => .error (.next .tooDeep s)

/-- An object read with `item`, or the fault of an object that lies too deep. -/
def readObject (item : Option (Reader α)) (s : List Char) :
    Except Fault (List (String × α) × List Char) :=
  match item with
  | some item => readMembers item s
  | none => .error (.next .tooDeep s)

/-- The contents of a value whose parts are read with `item`. -/
def readValue (item : Option (Reader Value)) (s : List Char) : Except Fault (Value × List Char) :=
  match skipSpace s with
  | [] => .error (.here .endInValue [])
  | c :: r =>
    if c = 'n' then (readWord ['u', 'l', 'l'] r).map fun r => (.null, r)
    else if c = 't' then (readWord ['r', 'u', 'e'] r).map fun r => (.flag true, r)
    else if c = 'f' then (readWord ['a', 'l', 's', 'e'] r).map fun r => (.flag false, r)
    else if c = '-' then (readNumber true r).map fun (n, r) => (.number n, r)
    else if c.isDigit then (readNumber false (c :: r)).map fun (n, r) => (.number n, r)
    else if c = '"' then (readString r).map fun (t, r) => (.text t, r)
    else if c = '[' then (readItems item (c :: r)).map fun (l, r) => (.list l, r)
    else if c = '\x7b' then (readObject item (c :: r)).map fun (l, r) => (.object l, r)
    else .error (.next .expectedValue (c :: r))

theorem readValue_length {item : Option (Reader Value)} {s r : List Char} {v : Value}
    (h : readValue item s = .ok (v, r)) : r.length ≤ s.length := by
  unfold readValue at h
  have hs := skipSpace_length s
  split at h
  · cases h
  · rename_i c u hu
    rw [hu] at hs
    simp only [List.length_cons] at hs
    repeat' (split at h)
    · obtain ⟨w, hw, heq⟩ := map_length h; cases heq
      have := readWord_length hw; omega
    · obtain ⟨w, hw, heq⟩ := map_length h; cases heq
      have := readWord_length hw; omega
    · obtain ⟨w, hw, heq⟩ := map_length h; cases heq
      have := readWord_length hw; omega
    · obtain ⟨⟨n, w⟩, hw, heq⟩ := map_length h; cases heq
      have := readNumber_length hw; omega
    · obtain ⟨⟨n, w⟩, hw, heq⟩ := map_length h; cases heq
      have := readNumber_length hw; simp only [List.length_cons] at this; omega
    · obtain ⟨⟨n, w⟩, hw, heq⟩ := map_length h; cases heq
      have := readString_length hw; omega
    · obtain ⟨⟨n, w⟩, hw, heq⟩ := map_length h; cases heq
      cases item with
      | none => cases hw
      | some item => have := (list item).shrinks hw; simp only [List.length_cons] at this; omega
    · obtain ⟨⟨n, w⟩, hw, heq⟩ := map_length h; cases heq
      cases item with
      | none => cases hw
      | some item => have := (members item).shrinks hw; simp only [List.length_cons] at this; omega
    · cases h

/-- Any value with at most `depth` levels of lists and objects. -/
def value : Nat → Reader Value
  | 0 => ⟨readValue none, readValue_length⟩
  | depth + 1 => ⟨readValue (some (value depth)), readValue_length⟩

/-- The greatest number of levels of a value that is kept. -/
def maxDepth : Nat := 127

/-! ## Whole texts -/

/-- Reads a text that holds one value and nothing else but white space. -/
def parseChars (p : Reader α) (s : List Char) : Except Fault α :=
  match p.run s with
  | .error f => .error f
  | .ok (a, r) =>
    match skipSpace r with
    | [] => .ok a
    | r => .error (.next .trailingCharacters r)

/-- Reads a whole text; a refusal is given as its message. -/
def parse (p : Reader α) (s : String) : Except String α :=
  match p.parseChars s.toList with
  | .ok a => .ok a
  | .error f => .error (f.message s.toList)

end Reader

end ShaderModules.Json
