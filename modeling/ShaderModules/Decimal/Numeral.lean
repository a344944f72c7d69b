/-!
# Reading decimal numbers

* `Decimal.natural?`: the unsigned number that a text spells.
* `Decimal.ofScientific`: the number nearest to a whole number scaled by a power of ten.
* `Decimal.float?`: the number that a text spells, with a sign, a point and an exponent.
-/

namespace ShaderModules.Decimal

/-- The value of a run of decimal digits. -/
def naturalOf (digits : List Char) : Nat :=
  digits.foldl (fun n c => n * 10 + (c.toNat - '0'.toNat)) 0

/-- The unsigned number that a text spells; a plus sign may be in front. -/
def natural? (limit : Nat) (s : List Char) : Option Nat :=
  let digits := match s with
    | '+' :: rest => rest
    | s => s
  if !digits.isEmpty && digits.all Char.isDigit && naturalOf digits < limit then
    some (naturalOf digits)
  else none

/-- The number of values of a word of the machine. -/
def wordLimit : Nat := 18446744073709551616

/-- Half of `wordLimit`: the number of negative values of a signed word. -/
def halfWord : Nat := 9223372036854775808

/-- Powers of ten from which on every number is infinite, or zero when they divide. -/
def exponentBound : Int := 400

/-- The floating-point number nearest to `m · 10 ^ e`. -/
def ofScientific (m : Nat) (e : Int) : Float :=
  let top := (Nat.toDigits 10 m).length + e
  if m = 0 || top < -exponentBound then 0
  else if exponentBound < top then 1 / 0
  else Float.ofScientific m (e < 0) e.natAbs

/-- A text without its sign, and whether the sign is negative. -/
def splitSign : List Char → Bool × List Char
  | '-' :: rest => (true, rest)
  | '+' :: rest => (false, rest)
  | s => (false, s)

/-- The exponent that a text spells; without any text it is zero. -/
def exponent? : List Char → Option Int
  | [] => some 0
  | c :: rest =>
    if c = 'e' || c = 'E' then
      let (negative, digits) := splitSign rest
      if !digits.isEmpty && digits.all Char.isDigit then
        some (if negative then -(naturalOf digits : Int) else naturalOf digits)
      else none
    else none

/-- The number that a text spells: digits with or without a point, at least one of them, and an
exponent that may be missing. -/
def float? (s : List Char) : Option Float :=
  let (negative, s) := splitSign s
  let whole := s.takeWhile Char.isDigit
  let s := s.drop whole.length
  let fraction := match s with
    | '.' :: rest => rest.takeWhile Char.isDigit
    | _ => []
  let s := match s with
    | '.' :: rest => rest.drop fraction.length
    | s => s
  if whole.isEmpty && fraction.isEmpty then none
  else (exponent? s).map fun e =>
    let x := ofScientific (naturalOf (whole ++ fraction)) (e - fraction.length)
    if negative then -x else x

end ShaderModules.Decimal
