import ShaderModules.Decimal.Numeral
import ShaderModules.Text.Search
import ShaderModules.Toml.Value

/-!
# Numbers, dates and words in TOML

* `integer?`, `float?`: numbers. Digits may be grouped by underscores that stand between two of
  them.
* `moment?`: dates and times of the calendar.
* `scalarOf?`: the value of a run of characters without quotation marks.
-/

namespace ShaderModules.Toml

/-! ## Numbers -/

/-- Digits without the underscores between them; `after` says whether a digit came before. -/
def groupedFrom (isDigit : Char → Bool) (after : Bool) : List Char → Option (List Char)
  | [] => if after then some [] else none
  | c :: rest =>
    if c = '_' then if after then groupedFrom isDigit false rest else none
    else if isDigit c then (groupedFrom isDigit true rest).map (c :: ·)
    else none

/-- Digits without the underscores between them. -/
def grouped? (isDigit : Char → Bool) (s : List Char) : Option (List Char) :=
  groupedFrom isDigit false s

/-- Whether a character is a digit to a base. -/
def isDigitOf (base : Nat) (c : Char) : Bool :=
  if base = 16 then c.isDigit || ('a' ≤ c && c ≤ 'f') || ('A' ≤ c && c ≤ 'F')
  else c.isDigit && c.toNat - '0'.toNat < base

/-- The value of a digit. -/
def digitOf (c : Char) : Nat :=
  if c.isDigit then c.toNat - '0'.toNat
  else c.toLower.toNat - 'a'.toNat + 10

/-- The number that grouped digits spell to a base. -/
def grouping? (base : Nat) (s : List Char) : Option Nat :=
  (grouped? (isDigitOf base) s).map fun digits => digits.foldl (fun n c => n * base + digitOf c) 0

/-- Decimal digits of a whole number, which has no leading zeros. -/
def wholeDigits? (s : List Char) : Option (List Char) :=
  match grouped? Char.isDigit s with
  | some ('0' :: _ :: _) => none
  | r => r

/-- A whole number of 64 bits. -/
def inRange (n : Int) : Option Int :=
  if -Decimal.halfWord ≤ n ∧ n < Decimal.halfWord then some n else none

/-- The whole number that a text spells. -/
def integer? (s : List Char) : Option Int :=
  match s with
  | '0' :: 'x' :: rest => (grouping? 16 rest).bind fun n => inRange n
  | '0' :: 'o' :: rest => (grouping? 8 rest).bind fun n => inRange n
  | '0' :: 'b' :: rest => (grouping? 2 rest).bind fun n => inRange n
  | s =>
    let (negative, digits) := Decimal.splitSign s
    (wholeDigits? digits).bind fun digits =>
      let n := Decimal.naturalOf digits
      inRange (if negative then -n else n)

/-- Whether a character belongs to grouped digits. -/
def isGroupChar (c : Char) : Bool := c.isDigit || c == '_'

/-- The fraction at the start of a text, if it has one, and what follows it. -/
def fraction? (s : List Char) : Option (List Char × List Char) :=
  match s with
  | '.' :: rest =>
    let text := rest.takeWhile isGroupChar
    (grouped? Char.isDigit text).map fun digits => (digits, rest.drop text.length)
  | s => some ([], s)

/-- The exponent that a text spells, if there is text. -/
def exponent? (s : List Char) : Option Int :=
  match s with
  | [] => some 0
  | c :: rest =>
    if c = 'e' || c = 'E' then
      let (negative, digits) := Decimal.splitSign rest
      (grouped? Char.isDigit digits).map fun digits =>
        let n := Decimal.naturalOf digits
        if negative then -(n : Int) else n
    else none

/-- The floating-point number that a text spells. It has a fraction or an exponent and is not too
large. -/
def float? (s : List Char) : Option Float := do
  let (negative, s) := Decimal.splitSign s
  match String.ofList s with
  | "inf" => return if negative then -(1 / 0) else 1 / 0
  | "nan" => return 0 / 0
  | _ =>
    let text := s.takeWhile isGroupChar
    let whole ← wholeDigits? text
    let after := s.drop text.length
    if after.isEmpty then none
    let (fraction, rest) ← fraction? after
    let e ← exponent? rest
    let x := Decimal.ofScientific (Decimal.naturalOf (whole ++ fraction)) (e - fraction.length)
    if x.isInf && !negative then none
    return if negative then -x else x

/-! ## Dates and times -/

/-- A number of exactly `count` digits between two bounds, and what follows it. -/
def number? (count lo hi : Nat) (s : List Char) : Option (Nat × List Char) :=
  let digits := s.take count
  let n := Decimal.naturalOf digits
  if digits.length = count && digits.all Char.isDigit && lo ≤ n && n ≤ hi then
    some (n, s.drop count)
  else none

/-- What follows a character. -/
def char? (c : Char) (s : List Char) : Option (List Char) := Text.stripPrefix? [c] s

/-- The number of days of a month. -/
def daysOf (year month : Nat) : Nat :=
  if month = 2 then
    if year % 4 = 0 && (year % 100 ≠ 0 || year % 400 = 0) then 29 else 28
  else if [4, 6, 9, 11].contains month then 30 else 31

/-- A date, and what follows it. -/
def date? (s : List Char) : Option (Date × List Char) := do
  let (year, s) ← number? 4 0 9999 s
  let (month, s) ← number? 2 1 12 (← char? '-' s)
  let (day, s) ← number? 2 1 (daysOf year month) (← char? '-' s)
  return (⟨year, month, day⟩, s)

/-- A time, and what follows it. Of a fraction of a second nine digits count. -/
def time? (s : List Char) : Option (Time × List Char) := do
  let (hour, s) ← number? 2 0 23 s
  let (minute, s) ← number? 2 0 59 (← char? ':' s)
  let (second, s) ← number? 2 0 60 (← char? ':' s)
  match s with
  | '.' :: rest =>
    let digits := rest.takeWhile Char.isDigit
    if digits.isEmpty then none
    let kept := digits.take 9
    let nanosecond := Decimal.naturalOf kept * Nat.pow 10 (9 - kept.length)
    return (⟨hour, minute, second, nanosecond⟩, rest.drop digits.length)
  | s => return (⟨hour, minute, second, 0⟩, s)

/-- The offset that a text spells, if there is text. -/
def offset? (s : List Char) : Option (Option Offset) :=
  match s with
  | [] => some none
  | ['Z'] => some (some .universal)
  | ['z'] => some (some .universal)
  | c :: rest =>
    if c = '+' || c = '-' then do
      let (hours, s) ← number? 2 0 23 rest
      let (minutes, s) ← number? 2 0 59 (← char? ':' s)
      if !s.isEmpty then none
      let n : Int := hours * 60 + minutes
      return some (.minutes (if c = '-' then -n else n))
    else none

/-- The date, the time or both that a text spells. -/
def moment? (s : List Char) : Option Moment :=
  match date? s with
  | some (date, []) => some { date := date }
  | some (date, c :: rest) =>
    if c = 'T' || c = 't' || c = ' ' then do
      let (time, rest) ← time? rest
      let offset ← offset? rest
      return ⟨date, time, offset⟩
    else none
  | none =>
    match time? s with
    | some (time, []) => some { time := time }
    | _ => none

/-! ## Words -/

/-- Whether a character may belong to a value without quotation marks. -/
def isScalarChar (c : Char) : Bool := c.isAlphanum || "+-_.:".toList.contains c

/-- The value of a run of characters. -/
def scalarOf? (s : List Char) : Option Value :=
  match String.ofList s with
  | "true" => some (.flag true)
  | "false" => some (.flag false)
  | _ =>
    match moment? s, integer? s, float? s with
    | some m, _, _ => some (.moment m)
    | none, some n, _ => some (.integer n)
    | none, none, some x => some (.float x)
    | none, none, none => none

/-- A value without quotation marks, and what follows it. A time may follow its date behind a
space. -/
def readScalar? (s : List Char) : Option (Value × List Char) :=
  let run := s.takeWhile isScalarChar
  let rest := s.drop run.length
  match date? run, rest with
  | some (_, []), ' ' :: c :: more =>
    if c.isDigit then
      let time := (c :: more).takeWhile isScalarChar
      (scalarOf? (run ++ ' ' :: time)).map fun v => (v, (c :: more).drop time.length)
    else (scalarOf? run).map fun v => (v, rest)
  | _, _ => (scalarOf? run).map fun v => (v, rest)

end ShaderModules.Toml
