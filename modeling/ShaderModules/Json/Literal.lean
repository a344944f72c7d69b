import ShaderModules.Json.Fault

/-!
# Words and strings in JSON text

Each scanner takes the unread text and returns what it read with the text that follows, or a
fault. None of them gives back more text than it was given (the lemmas `_length`).

* `skipSpace`: the white space between tokens.
* `readWord`: the letters of `null`, `true` and `false`.
* `readString`: the characters of a string, its escapes resolved. Surrogates have to be paired.
* `skipString`: the same without a value. Lone surrogates are let through, and a control character
  does not count towards the place of its fault.
-/

namespace ShaderModules.Json

/-- The unread text after white space. -/
def skipSpace (s : List Char) : List Char :=
  s.dropWhile fun c => c == ' ' || c == '\n' || c == '\t' || c == '\r'

theorem skipSpace_length (s : List Char) : (skipSpace s).length ≤ s.length :=
  (List.dropWhile_sublist _).length_le

/-- The letters `word` and nothing else. -/
def readWord : List Char → List Char → Except Fault (List Char)
  | [], s => .ok s
  | _ :: _, [] => .error (.here .endInValue [])
  | w :: word, c :: s => if w = c then readWord word s else .error (.next .expectedWord (c :: s))

theorem readWord_length {word s r : List Char} (h : readWord word s = .ok r) :
    r.length ≤ s.length := by
  induction word generalizing s with
  | nil => cases h; exact Nat.le_refl _
  | cons w word ih =>
    cases s with
    | nil => cases h
    | cons c s =>
      simp only [readWord] at h
      split at h
      · have := ih h; simp; omega
      · cases h

/-! ## Strings -/


/-- The value of a hexadecimal digit. -/
def hexValue? (c : Char) : Option Nat :=
  let n := c.toNat
  if 48 ≤ n && n ≤ 57 then some (n - 48)
  else if 97 ≤ n && n ≤ 102 then some (n - 87)
  else if 65 ≤ n && n ≤ 70 then some (n - 55)
  else none

/-- The fault of an escape without four hexadecimal digits. Four bytes are taken, of whatever
characters. -/
def badHex (s : List Char) : Fault :=
  if byteCount s < 4 then .here .endInString [] else ⟨.badEscape, s, 4, true⟩

/-- The four hexadecimal digits of an escape. -/
def readHex (s : List Char) : Except Fault (Nat × List Char) :=
  match s with
  | a :: b :: c :: d :: r =>
    match hexValue? a, hexValue? b, hexValue? c, hexValue? d with
    | some a, some b, some c, some d => .ok (((a * 16 + b) * 16 + c) * 16 + d, r)
    | _, _, _, _ => .error (badHex s)
  | _ => .error (badHex s)

/-- A code unit that starts a surrogate pair. -/
def isLeading (n : Nat) : Bool := 0xD800 ≤ n && n ≤ 0xDBFF

/-- A code unit that ends a surrogate pair. -/
def isTrailing (n : Nat) : Bool := 0xDC00 ≤ n && n ≤ 0xDFFF

/-- The character of a surrogate pair. -/
def pairedChar (n m : Nat) : Char := Char.ofNat (0x10000 + (n - 0xD800) * 0x400 + (m - 0xDC00))

/-- The character of an escape by code units, after the letter `u`. -/
def readUnits (s : List Char) : Except Fault (Char × List Char) :=
  match readHex s with
  | .error f => .error f
  | .ok (n, r) =>
    if isTrailing n then .error (.here .loneSurrogate r)
    else if !isLeading n then .ok (Char.ofNat n, r)
    else match r with
      | [] => .error (.here .endInString [])
      | '\\' :: [] => .error (.here .endInString [])
      | '\\' :: 'u' :: r =>
        match readHex r with
        | .error f => .error f
        | .ok (m, r) =>
          if isTrailing m then .ok (pairedChar n m, r)
          else .error (.here .loneSurrogate r)
      | '\\' :: r => .error (.next .endOfHexEscape r)
      | r => .error (.next .endOfHexEscape r)

/-- The character that a one-letter escape stands for. -/
def escapeValue? : Char → Option Char
  | '"' => some '"'
  | '\\' => some '\\'
  | '/' => some '/'
  | 'b' => some '\x08'
  | 'f' => some '\x0c'
  | 'n' => some '\n'
  | 'r' => some '\r'
  | 't' => some '\t'
  | _ => none

/-- The character of an escape, after the backslash. -/
def readEscape : List Char → Except Fault (Char × List Char)
  | [] => .error (.here .endInString [])
  | 'u' :: r => readUnits r
  | c :: r =>
    match escapeValue? c with
    | some d => .ok (d, r)
    | none => .error (.next .badEscape (c :: r))

theorem readHex_length {s r : List Char} {n : Nat} (h : readHex s = .ok (n, r)) :
    r.length < s.length := by
  unfold readHex at h
  split at h
  · split at h
    · cases h; simp; omega
    · cases h
  · cases h

theorem readUnits_length {s r : List Char} {c : Char} (h : readUnits s = .ok (c, r)) :
    r.length < s.length := by
  unfold readUnits at h
  split at h
  · cases h
  · rename_i n r₁ h₁
    have hlt := readHex_length h₁
    split at h
    · cases h
    · split at h
      · injection h with h
        injection h with _ h
        exact h ▸ hlt
      · split at h
        · cases h
        · cases h
        · split at h
          · cases h
          · rename_i h₂
            have := readHex_length h₂
            split at h
            · injection h with h
              injection h with _ h
              subst h
              simp only [List.length_cons] at hlt
              omega
            · cases h
        · cases h
        · cases h

theorem readEscape_length {s r : List Char} {c : Char} (h : readEscape s = .ok (c, r)) :
    r.length < s.length := by
  unfold readEscape at h
  split at h
  · cases h
  · have := readUnits_length h; simp; omega
  · split at h
    · cases h; simp
    · cases h

/-- The characters of a string after its opening mark; `read` holds those read so far, in
reverse. -/
def readStringFrom (read : List Char) (s : List Char) : Except Fault (List Char × List Char) :=
  match s with
  | [] => .error (.here .endInString [])
  | c :: r =>
    if c = '"' then .ok (read.reverse, r)
    else if c = '\\' then
      match _h : readEscape r with
      | .ok (d, r') => readStringFrom (d :: read) r'
      | .error f => .error f
    else if c.toNat < 0x20 then .error (.here .controlCharacter r)
    else readStringFrom (c :: read) r
termination_by s.length
decreasing_by
  · have := readEscape_length _h; simp; omega
  · simp

/-- The characters of a string after its opening mark. -/
def readString (s : List Char) : Except Fault (String × List Char) :=
  (readStringFrom [] s).map fun (cs, r) => (String.ofList cs, r)

theorem readStringFrom_length {read s cs r : List Char}
    (h : readStringFrom read s = .ok (cs, r)) : r.length < s.length := by
  fun_induction readStringFrom read s with
  | case1 => cases h
  | case2 => cases h; simp
  | case3 read r d r' he _ ih =>
    have := ih h; have := readEscape_length he; simp; omega
  | case4 => cases h
  | case5 => cases h
  | case6 read c r _ _ _ ih => have := ih h; simp; omega

theorem readString_length {s r : List Char} {t : String} (h : readString s = .ok (t, r)) :
    r.length < s.length := by
  unfold readString at h
  cases h' : readStringFrom [] s with
  | error f => simp [h', Except.map] at h
  | ok p =>
    simp only [h', Except.map, Except.ok.injEq, Prod.mk.injEq] at h
    exact h.2 ▸ readStringFrom_length h'

/-- Passes over an escape, after the backslash. -/
def skipEscape : List Char → Except Fault (List Char)
  | [] => .error (.here .endInString [])
  | 'u' :: r => (readHex r).map (·.2)
  | c :: r => if (escapeValue? c).isSome then .ok r else .error (.next .badEscape (c :: r))

theorem skipEscape_length {s r : List Char} (h : skipEscape s = .ok r) :
    r.length < s.length := by
  unfold skipEscape at h
  split at h
  · cases h
  · rename_i r₀
    cases h' : readHex r₀ with
    | error f => simp [h', Except.map] at h
    | ok p =>
      simp only [h', Except.map, Except.ok.injEq] at h
      have := readHex_length h'
      simp [← h]; omega
  · split at h
    · cases h; simp
    · cases h

/-- Passes over a string after its opening mark. -/
def skipString (s : List Char) : Except Fault (List Char) :=
  match s with
  | [] => .error (.here .endInString [])
  | c :: r =>
    if c = '"' then .ok r
    else if c = '\\' then
      match _h : skipEscape r with
      | .ok r' => skipString r'
      | .error f => .error f
    else if c.toNat < 0x20 then .error (.here .controlCharacter (c :: r))
    else skipString r
termination_by s.length
decreasing_by
  · have := skipEscape_length _h; simp; omega
  · simp

theorem skipString_length {s r : List Char} (h : skipString s = .ok r) :
    r.length < s.length := by
  fun_induction skipString s with
  | case1 => cases h
  | case2 => cases h; simp
  | case3 r r' he _ ih => have := ih h; have := skipEscape_length he; simp; omega
  | case4 => cases h
  | case5 => cases h
  | case6 c r _ _ _ ih => have := ih h; simp; omega

end ShaderModules.Json
