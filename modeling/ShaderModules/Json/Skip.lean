import ShaderModules.Json.Numeral

/-!
# Skipping a value in JSON text

* `skipScalar`: passes over a word, a string or a number.
* `skipFrom`: passes over the rest of a value inside given brackets; no depth is too deep.
* `skipValue`: passes over a whole value.
-/

namespace ShaderModules.Json

/-- Passes over a value that is neither a list nor an object. -/
def skipScalar (s : List Char) : Except Fault (List Char) :=
  match s with
  | [] => .error (.here .endInValue [])
  | c :: r =>
    if c = 'n' then readWord ['u', 'l', 'l'] r
    else if c = 't' then readWord ['r', 'u', 'e'] r
    else if c = 'f' then readWord ['a', 'l', 's', 'e'] r
    else if c = '"' then skipString r
    else if c = '-' then skipNumber r
    else if c.isDigit then skipNumber s
    else .error (.next .expectedValue s)

theorem skipScalar_length {s r : List Char} (h : skipScalar s = .ok r) :
    r.length < s.length := by
  unfold skipScalar at h
  split at h
  · cases h
  · repeat' (split at h)
    · have := readWord_length h; simp; omega
    · have := readWord_length h; simp; omega
    · have := readWord_length h; simp; omega
    · have := skipString_length h; simp; omega
    · have := skipNumber_length h; simp; omega
    · exact skipNumber_length h
    · cases h

/-- Passes over a key and its colon. -/
def skipKey (s : List Char) : Except Fault (List Char) :=
  match skipSpace s with
  | [] => .error (.here .endInObject [])
  | '"' :: r =>
    match skipString r with
    | .error f => .error f
    | .ok r =>
      match skipSpace r with
      | ':' :: r => .ok r
      | [] => .error (.here .endInObject [])
      | r => .error (.next .expectedColon r)
  | r => .error (.next .keyNotString r)

theorem skipKey_length {s r : List Char} (h : skipKey s = .ok r) : r.length < s.length := by
  unfold skipKey at h
  have h₀ := skipSpace_length s
  split at h
  · cases h
  · rename_i u hu
    rw [hu] at h₀
    split at h
    · cases h
    · rename_i v hv
      have h₁ := skipString_length hv
      have h₂ := skipSpace_length v
      split at h
      · rename_i w hw
        cases h
        rw [hw] at h₂
        simp at *
        omega
      · cases h
      · cases h
  · cases h

/-- The brackets that enclose a value. -/
inductive Bracket where
  | list
  | object
  deriving DecidableEq

/-- The fault at the end of the text inside a bracket. -/
def Bracket.ended : Bracket → Fault
  | .list => .here .endInList []
  | .object => .here .endInObject []

/-- The fault at a character that is neither a comma nor the end of the bracket. -/
def Bracket.unclosed : Bracket → List Char → Fault
  | .list, s => .next .expectedCommaOrBracket s
  | .object, s => .next .expectedCommaOrBrace s

/-- The character that ends a bracket. -/
def Bracket.closing : Bracket → Char
  | .list => ']'
  | .object => '\x7d'

/-- Passes over the key in front of a value inside a bracket. -/
def Bracket.skipLabel : Bracket → List Char → Except Fault (List Char)
  | .list, s => .ok s
  | .object, s => skipKey s

theorem Bracket.skipLabel_length {b : Bracket} {s r : List Char} (h : b.skipLabel s = .ok r) :
    r.length ≤ s.length := by
  cases b with
  | list => cases h; exact Nat.le_refl _
  | object => exact Nat.le_of_lt (skipKey_length h)

/-- The bracket that a character opens. -/
def Bracket.opened? (c : Char) : Option Bracket :=
  if c = '[' then some .list else if c = '\x7b' then some .object else none

/-- Passes over the rest of a value inside the brackets `opened`, innermost first: from the start
of a value when `atValue`, else from the end of one. -/
def skipFrom (atValue : Bool) (opened : List Bracket) (s : List Char) :
    Except Fault (List Char) :=
  if atValue then
    match _hs : skipSpace s with
    | [] => .error (.here .endInValue [])
    | c :: r =>
      match Bracket.opened? c with
      | some b =>
        match _hr : skipSpace r with
        | [] => .error b.ended
        | d :: r' =>
          if d = b.closing then skipFrom false opened r'
          else match _hl : b.skipLabel (d :: r') with
            | .ok r'' => skipFrom true (b :: opened) r''
            | .error f => .error f
      | none =>
        match _hc : skipScalar (c :: r) with
        | .ok r' => skipFrom false opened r'
        | .error f => .error f
  else
    match opened with
    | [] => .ok s
    | b :: outer =>
      match _hs : skipSpace s with
      | [] => .error b.ended
      | c :: r =>
        if c = ',' then
          match _hl : b.skipLabel r with
          | .ok r' => skipFrom true (b :: outer) r'
          | .error f => .error f
        else if c = b.closing then skipFrom false outer r
        else .error (b.unclosed (c :: r))
termination_by s.length
decreasing_by
  all_goals
    have := congrArg List.length _hs
    have := skipSpace_length s
    try have := congrArg List.length _hr
    try have := skipSpace_length r
    try have := Bracket.skipLabel_length _hl
    try have := skipScalar_length _hc
    simp only [List.length_cons] at *
    omega

/-- Passes over a value. -/
def skipValue (s : List Char) : Except Fault (List Char) := skipFrom true [] s

theorem skipFrom_length {atValue : Bool} {opened : List Bracket} {s r : List Char}
    (h : skipFrom atValue opened s = .ok r) : r.length ≤ s.length := by
  fun_induction skipFrom atValue opened s with
  | case1 => cases h
  | case2 => cases h
  | case3 opened s c r hs b _ r' hr ih =>
    have h₁ := ih h
    have h₂ := congrArg List.length hs
    have h₃ := congrArg List.length hr
    have h₄ := skipSpace_length s
    have h₅ := skipSpace_length r
    simp only [List.length_cons] at *
    omega
  | case4 opened s c r hs b _ d r' hr _ r'' hl ih =>
    have h₁ := ih h
    have h₂ := congrArg List.length hs
    have h₃ := congrArg List.length hr
    have h₄ := skipSpace_length s
    have h₅ := skipSpace_length r
    have h₆ := Bracket.skipLabel_length hl
    simp only [List.length_cons] at *
    omega
  | case5 => cases h
  | case6 opened s c r hs _ r' hc ih =>
    have h₁ := ih h
    have h₂ := congrArg List.length hs
    have h₄ := skipSpace_length s
    have h₅ := skipScalar_length hc
    simp only [List.length_cons] at *
    omega
  | case7 => cases h
  | case8 => cases h; exact Nat.le_refl _
  | case9 => cases h
  | case10 _ s _ b outer _ _ hl hs ih =>
    have h₁ := ih h
    have h₂ := congrArg List.length hs
    have h₄ := skipSpace_length s
    have h₅ := Bracket.skipLabel_length hl
    simp only [List.length_cons] at *
    omega
  | case11 => cases h
  | case12 _ s _ b outer _ hs _ ih =>
    have h₁ := ih h
    have h₂ := congrArg List.length hs
    have h₄ := skipSpace_length s
    simp only [List.length_cons] at *
    omega
  | case13 => cases h

theorem skipValue_length {s r : List Char} (h : skipValue s = .ok r) : r.length ≤ s.length :=
  skipFrom_length h

end ShaderModules.Json
