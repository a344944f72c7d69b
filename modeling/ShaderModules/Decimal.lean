/-!
# Decimal text of binary floating-point numbers

A finite number is `m · 2 ^ q`. Every decimal inside the interval of reals that round to it reads
back as the same number; the text of the number is a decimal of the interval with the fewest
digits, and of those the nearest.

* `Binary.ofFloat`: sign, `m` and `q` of a finite number.
* `Binary.shortest`: the digits and the power of ten of its shortest decimal.
* `plainText`: all digits written out. `jsonText`: as a JSON number, with a point or an exponent.
-/

namespace ShaderModules.Decimal

/-- A finite binary number: `mantissa · 2 ^ exponent`, negative when `negative`. -/
structure Binary where
  negative : Bool
  mantissa : Nat
  exponent : Int
  deriving Repr, DecidableEq

/-- The leading bit of a mantissa, which is not stored. -/
def leadingBit : Nat := 4503599627370496

/-- The parts of a finite number: a sign bit, eleven bits of the exponent and 52 bits of the
mantissa. -/
def Binary.ofFloat (x : Float) : Binary :=
  let bits := x.toBits.toNat
  let biased : Nat := bits / leadingBit % 2048
  let fraction := bits % leadingBit
  { negative := bits / (leadingBit * 2048) == 1
    mantissa := if biased == 0 then fraction else fraction + leadingBit
    exponent := (if biased == 0 then 1 else (biased : Int)) - 1075 }

/-- A decimal: `digits · 10 ^ exponent`. -/
structure Shifted where
  digits : Nat
  exponent : Int
  deriving Repr, DecidableEq

/-- Whether the gap below `m · 2 ^ q` is half the gap above it: at a power of two that is not the
least normal number. -/
def Binary.narrowBelow (b : Binary) : Bool := b.mantissa == leadingBit && b.exponent != -1074

/-- The number of decimal digits of `n`. -/
def digitCount (n : Nat) : Nat := (Nat.toDigits 10 n).length

/-- The exponent of the leading decimal digit of `num / den`. -/
def leadingExponent (num den : Nat) : Int :=
  if den ≤ num then (digitCount (num / den) : Int) - 1
  else
    let d := digitCount (den / num)
    if num * Nat.pow 10 (d - 1) == den then -((d : Int) - 1) else -(d : Int)

/-- The decimal with exponent `e` that is nearest to the number, when it lies in the interval of
reals that round to the number. Quarters of the last binary place are the unit, so that both ends
of the interval are whole. -/
def Binary.onGrid? (b : Binary) (e : Int) : Option Shifted :=
  let unit := b.exponent - 2
  let scale := Nat.pow 2 unit.toNat * Nat.pow 10 (-e).toNat
  let step := Nat.pow 2 (-unit).toNat * Nat.pow 10 e.toNat
  let here := 4 * b.mantissa * scale
  let low := (4 * b.mantissa - (if b.narrowBelow then 1 else 2)) * scale
  let high := (4 * b.mantissa + 2) * scale
  let inside (k : Nat) : Bool :=
    if b.mantissa % 2 == 0 then low ≤ k * step && k * step ≤ high
    else low < k * step && k * step < high
  let below := here / step
  let nearBelow := here - below * step ≤ (below + 1) * step - here
  match inside below, inside (below + 1) with
  | true, true => some ⟨if nearBelow then below else below + 1, e⟩
  | true, false => some ⟨below, e⟩
  | false, true => some ⟨below + 1, e⟩
  | false, false => none

/-- The shortest decimal that reads back as the number: grids with one, two, … seventeen digits
are tried in this order. -/
def Binary.shortest (b : Binary) : Shifted :=
  if b.mantissa == 0 then ⟨0, 0⟩
  else
    let top :=
      leadingExponent (b.mantissa * Nat.pow 2 b.exponent.toNat) (Nat.pow 2 (-b.exponent).toNat)
    ((List.range 17).findSome? fun (i : Nat) => b.onGrid? (top - i)).getD ⟨b.mantissa, 0⟩

/-- The digits of a decimal without trailing zeros, and the exponent of the last of them. -/
def Shifted.normalized (d : Shifted) : List Char × Int :=
  let all := Nat.toDigits 10 d.digits
  let kept := (all.reverse.dropWhile (· == '0')).reverse
  if kept.isEmpty then (['0'], 0) else (kept, d.exponent + (all.length - kept.length : Nat))

/-- Digits with exponent `e` written out in full; `point` says whether a whole number ends
in `.0`. -/
def positional (digits : List Char) (e : Int) (point : Bool) : List Char :=
  if 0 ≤ e then
    digits ++ List.replicate e.toNat '0' ++ (if point then ['.', '0'] else [])
  else
    let places := (-e).toNat
    if places < digits.length then
      digits.take (digits.length - places) ++ '.' :: digits.drop (digits.length - places)
    else '0' :: '.' :: List.replicate (places - digits.length) '0' ++ digits

/-- Digits with exponent `e` written with one digit before the point and a signed exponent. -/
def scientific (digits : List Char) (e : Int) : List Char :=
  let lead := e + (digits.length : Int) - 1
  let fraction := match digits with
    | d :: [] => [d]
    | d :: more => d :: '.' :: more
    | [] => []
  fraction ++ ['e', if lead < 0 then '-' else '+'] ++ Nat.toDigits 10 lead.natAbs

/-- The sign of a number in front of its digits. -/
def signed (negative : Bool) (body : List Char) : String :=
  String.ofList (if negative then '-' :: body else body)

/-- A number with all its digits and nothing else: `1`, `0.5`, `NaN`, `inf`. -/
def plainText (x : Float) : String :=
  if x.isNaN then "NaN"
  else if x.isInf then if x < 0 then "-inf" else "inf"
  else
    let b := Binary.ofFloat x
    let (digits, e) := b.shortest.normalized
    signed b.negative (positional digits e false)

/-- A finite number as a JSON number that is recognisably not a whole number: with a point from
`0.00001` to below ten to the sixteenth, else with an exponent. -/
def jsonText (x : Float) : String :=
  let b := Binary.ofFloat x
  let (digits, e) := b.shortest.normalized
  let lead := e + (digits.length : Int) - 1
  signed b.negative
    (if -5 ≤ lead && lead < 16 then positional digits e true else scientific digits e)

end ShaderModules.Decimal
