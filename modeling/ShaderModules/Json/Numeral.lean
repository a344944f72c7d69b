import ShaderModules.Json.Literal

/-!
# Numbers in JSON text

* `readNumber`: a number with its value. Digits are kept exactly as long as they fit 64 bits; a
  number with more digits, a fraction or an exponent is the product or quotient of two
  floating-point numbers, and out of range when that is infinite.
* `skipNumber`: the same grammar without a value, so that no number is out of range.
-/

namespace ShaderModules.Json

/-- The value of a digit. -/
def digitValue (c : Char) : Nat := c.toNat - 48

/-- Appends digits to the number `n` as long as the value stays at or below `limit`; returns the
value and the text that follows. -/
def extend (limit n : Nat) : List Char → Nat × List Char
  | [] => (n, [])
  | c :: r =>
    if c.isDigit && n * 10 + digitValue c ≤ limit then extend limit (n * 10 + digitValue c) r
    else (n, c :: r)

theorem extend_length (limit n : Nat) (s : List Char) :
    (extend limit n s).2.length ≤ s.length := by
  induction s generalizing n with
  | nil => simp [extend]
  | cons c r ih =>
    simp only [extend]
    split
    · have := ih (n * 10 + digitValue c); simp; omega
    · simp

/-- The unread text after digits. -/
def skipDigits (s : List Char) : List Char := s.dropWhile Char.isDigit

theorem skipDigits_length (s : List Char) : (skipDigits s).length ≤ s.length :=
  (List.dropWhile_sublist _).length_le

/-- Divides by `10 ^ 308` until the exponent is at least `-308`; zero stays zero. -/
def scaleUp (x : Float) (e : Int) : Float :=
  if e < -308 then if x == 0 then x else scaleUp (x / 1e308) (e + 308)
  else x / Float.ofScientific (Nat.pow 10 (-e).toNat) false 0
termination_by (-e).toNat
decreasing_by omega

/-- `n · 10 ^ e`, rounded after each of its steps; nothing when it is too large. -/
def scale? (n : Nat) (e : Int) : Option Float :=
  let x := Float.ofScientific n false 0
  if e < 0 then some (scaleUp x e)
  else if 308 < e then if n == 0 then some x else none
  else
    let y := x * Float.ofScientific (Nat.pow 10 e.toNat) false 0
    if y.isInf then none else some y

/-- The number `n · 10 ^ e` with its sign. -/
def scaled (negative : Bool) (n : Nat) (e : Int) (r : List Char) :
    Except Fault (Number × List Char) :=
  match scale? n e with
  | some x => .ok (.float (if negative then -x else x), r)
  | none => .error (.here .numberOutOfRange r)

/-- The sign of an exponent: whether it is negative. -/
def exponentSign : List Char → Bool × List Char
  | '+' :: r => (false, r)
  | '-' :: r => (true, r)
  | r => (false, r)

/-- The number `n · 10 ^ (e ± k)` when no digit of the exponent is left, else zero or a fault:
such an exponent is beyond every limit. -/
def readLargeExponent (negative down : Bool) (n : Nat) (e : Int) (k : Nat) (s : List Char) :
    Except Fault (Number × List Char) :=
  match s with
  | d :: r =>
    if d.isDigit then
      if n != 0 && !down then .error (.here .numberOutOfRange r)
      else .ok (.float (if negative then -0.0 else 0.0), skipDigits r)
    else scaled negative n (if down then e - k else e + k) s
  | [] => scaled negative n (if down then e - k else e + k) s

/-- The greatest exponent that is read digit by digit. -/
def maxExponent : Nat := 2147483647

/-- The exponent of a number after the letter `e`: `n · 10 ^ e` is read so far. -/
def readExponent (negative : Bool) (n : Nat) (e : Int) (s : List Char) :
    Except Fault (Number × List Char) :=
  match (exponentSign s).2 with
  | [] => .error (.here .endInValue [])
  | c :: r =>
    if c.isDigit then
      let k := extend maxExponent (digitValue c) r
      readLargeExponent negative (exponentSign s).1 n e k.1 k.2
    else .error (.next .badNumber (c :: r))

/-- What follows the digits of a number: an exponent or nothing. -/
def readScale (negative : Bool) (n : Nat) (e : Int) (s : List Char) :
    Except Fault (Number × List Char) :=
  match s with
  | c :: r => if c == 'e' || c == 'E' then readExponent negative n e r else scaled negative n e s
  | [] => scaled negative n e s

/-- The digits of a fraction after the point: `n · 10 ^ e` is read so far. -/
def readFraction (negative : Bool) (n : Nat) (e : Int) (s : List Char) :
    Except Fault (Number × List Char) :=
  let (m, r) := extend maxNatural n s
  let taken := s.length - r.length
  match r with
  | c :: r' =>
    if c.isDigit then readScale negative m (e - taken) (skipDigits r')
    else if taken == 0 then .error (.next .badNumber r)
    else readScale negative m (e - taken) r
  | [] => if taken == 0 then .error (.here .endInValue []) else readScale negative m (e - taken) r

/-- A whole number that fits, with its sign. -/
def wholeNumber (negative : Bool) (n : Nat) : Number :=
  if !negative then .natural n
  else if n == 0 || maxNegative < n then .float (-(Float.ofScientific n false 0))
  else .negative n

/-- What follows the whole digits `n` of a number, `dropped` of which did not fit. -/
def readAfterWhole (negative : Bool) (n dropped : Nat) (s : List Char) :
    Except Fault (Number × List Char) :=
  match s with
  | c :: r =>
    if c == '.' then readFraction negative n dropped r
    else if c == 'e' || c == 'E' then readExponent negative n dropped r
    else if dropped == 0 then .ok (wholeNumber negative n, s)
    else scaled negative n dropped s
  | [] => if dropped == 0 then .ok (wholeNumber negative n, s) else scaled negative n dropped s

/-- A number after its sign. -/
def readNumber (negative : Bool) (s : List Char) : Except Fault (Number × List Char) :=
  match s with
  | [] => .error (.here .endInValue [])
  | c :: r =>
    if c == '0' then
      match r with
      | d :: _ => if d.isDigit then .error (.next .badNumber r) else readAfterWhole negative 0 0 r
      | [] => readAfterWhole negative 0 0 r
    else if c.isDigit then
      let (n, r) := extend maxNatural (digitValue c) r
      let after := skipDigits r
      readAfterWhole negative n (r.length - after.length) after
    else .error (.next .badNumber s)

theorem scaled_length {negative : Bool} {n : Nat} {e : Int} {s r : List Char} {x : Number}
    (h : scaled negative n e s = .ok (x, r)) : r.length ≤ s.length := by
  unfold scaled at h
  split at h
  · cases h; exact Nat.le_refl _
  · cases h

theorem exponentSign_length (s : List Char) : (exponentSign s).2.length ≤ s.length := by
  unfold exponentSign
  split <;> simp

theorem readLargeExponent_length {negative down : Bool} {n k : Nat} {e : Int} {s r : List Char}
    {x : Number} (h : readLargeExponent negative down n e k s = .ok (x, r)) :
    r.length ≤ s.length := by
  unfold readLargeExponent at h
  split at h
  · rename_i d u
    by_cases hd : d.isDigit = true
    · simp only [hd, if_true] at h
      split at h
      · cases h
      · simp only [Except.ok.injEq, Prod.mk.injEq] at h
        have := skipDigits_length u
        simp [← h.2]
        omega
    · simp only [hd] at h
      exact scaled_length h
  · exact scaled_length h

theorem readExponent_length {negative : Bool} {n : Nat} {e : Int} {s r : List Char} {x : Number}
    (h : readExponent negative n e s = .ok (x, r)) : r.length ≤ s.length := by
  unfold readExponent at h
  have hs := exponentSign_length s
  split at h
  · cases h
  · rename_i c u hu
    rw [hu] at hs
    split at h
    · have := readLargeExponent_length h
      have := extend_length maxExponent (digitValue c) u
      simp only [List.length_cons] at hs
      omega
    · cases h

theorem readScale_length {negative : Bool} {n : Nat} {e : Int} {s r : List Char} {x : Number}
    (h : readScale negative n e s = .ok (x, r)) : r.length ≤ s.length := by
  unfold readScale at h
  split at h
  · split at h
    · have := readExponent_length h; simp; omega
    · exact scaled_length h
  · exact scaled_length h

theorem readFraction_length {negative : Bool} {n : Nat} {e : Int} {s r : List Char} {x : Number}
    (h : readFraction negative n e s = .ok (x, r)) : r.length ≤ s.length := by
  unfold readFraction at h
  have hk := extend_length maxNatural n s
  dsimp only at h
  split at h
  · rename_i c v hv
    rw [hv] at hk
    simp only [List.length_cons] at hk
    split at h
    · have := readScale_length h; have := skipDigits_length v; omega
    · split at h
      · cases h
      · have := readScale_length h; rw [hv] at this; simp at this; omega
  · split at h
    · cases h
    · have := readScale_length h; omega

theorem readAfterWhole_length {negative : Bool} {n dropped : Nat} {s r : List Char} {x : Number}
    (h : readAfterWhole negative n dropped s = .ok (x, r)) : r.length ≤ s.length := by
  unfold readAfterWhole at h
  split at h
  · split at h
    · have := readFraction_length h; simp; omega
    · split at h
      · have := readExponent_length h; simp; omega
      · split at h
        · cases h; exact Nat.le_refl _
        · exact scaled_length h
  · split at h
    · cases h; exact Nat.le_refl _
    · exact scaled_length h

theorem readNumber_length {negative : Bool} {s r : List Char} {x : Number}
    (h : readNumber negative s = .ok (x, r)) : r.length < s.length := by
  unfold readNumber at h
  split at h
  · cases h
  · rename_i c t
    split at h
    · split at h
      · split at h
        · cases h
        · have := readAfterWhole_length h; simp at *; omega
      · have := readAfterWhole_length h; simp at *; omega
    · split at h
      · have h₁ := readAfterWhole_length h
        have h₂ := skipDigits_length (extend maxNatural (digitValue c) t).2
        have h₃ := extend_length maxNatural (digitValue c) t
        simp only [List.length_cons]
        omega
      · cases h

/-! ## Skipping -/

/-- Passes over an exponent, after the letter `e`. -/
def skipExponent (s : List Char) : Except Fault (List Char) :=
  let s := match s with
    | '+' :: r => r
    | '-' :: r => r
    | r => r
  match s with
  | [] => .error (.here .badNumber [])
  | c :: r => if c.isDigit then .ok (skipDigits r) else .error (.next .badNumber (c :: r))

/-- Passes over what follows the digits of a skipped number. -/
def skipScale (s : List Char) : Except Fault (List Char) :=
  match s with
  | c :: r => if c == 'e' || c == 'E' then skipExponent r else .ok s
  | [] => .ok s

/-- Passes over what follows the whole digits of a skipped number. -/
def skipAfterWhole (s : List Char) : Except Fault (List Char) :=
  match s with
  | '.' :: r =>
    match r with
    | d :: _ => if d.isDigit then skipScale (skipDigits r) else .error (.next .badNumber r)
    | [] => .error (.here .badNumber [])
  | s => skipScale s

/-- Passes over a number after its sign. -/
def skipNumber (s : List Char) : Except Fault (List Char) :=
  match s with
  | [] => .error (.here .badNumber [])
  | c :: r =>
    if c == '0' then
      match r with
      | d :: _ => if d.isDigit then .error (.next .badNumber r) else skipAfterWhole r
      | [] => skipAfterWhole r
    else if c.isDigit then skipAfterWhole (skipDigits r)
    else .error (.next .badNumber s)

theorem skipExponent_length {s r : List Char} (h : skipExponent s = .ok r) :
    r.length ≤ s.length := by
  unfold skipExponent at h
  dsimp only at h
  split at h
  · cases h
  · rename_i t c u ht
    have : (c :: u).length ≤ s.length := by
      rw [← ht]; split <;> simp
    split at h
    · cases h
      have := skipDigits_length u
      simp at *
      omega
    · cases h

theorem skipScale_length {s r : List Char} (h : skipScale s = .ok r) : r.length ≤ s.length := by
  unfold skipScale at h
  split at h
  · split at h
    · have := skipExponent_length h; simp; omega
    · cases h; exact Nat.le_refl _
  · cases h; exact Nat.le_refl _

theorem skipAfterWhole_length {s r : List Char} (h : skipAfterWhole s = .ok r) :
    r.length ≤ s.length := by
  unfold skipAfterWhole at h
  split at h
  · split at h
    · rename_i d u
      split at h
      · have := skipScale_length h
        have := skipDigits_length (d :: u)
        simp at *
        omega
      · cases h
    · cases h
  · exact skipScale_length h

theorem skipNumber_length {s r : List Char} (h : skipNumber s = .ok r) :
    r.length < s.length := by
  unfold skipNumber at h
  split at h
  · cases h
  · rename_i c u
    split at h
    · split at h
      · split at h
        · cases h
        · have := skipAfterWhole_length h; simp at *; omega
      · have := skipAfterWhole_length h; simp at *; omega
    · split at h
      · have := skipAfterWhole_length h
        have := skipDigits_length u
        simp
        omega
      · cases h

end ShaderModules.Json
