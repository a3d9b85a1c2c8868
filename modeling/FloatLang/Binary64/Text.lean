import FloatLang.Binary64.Decimal

/-! # Text of a Double

  How a value is written: in positional notation with at least one digit on
  either side of the point, or in scientific notation where the positional
  form would be long. The digits are those of the shortest decimal.

  - `42.0`, `0.1`, `-0.0`, `0.0001`, `1234567890123456.0`
  - `1e16`, `1.2345678901234568e16`, `1e-5`, `5e-324`
  - `inf`, `-inf`, `NaN`
-/

namespace FloatLang

namespace Decimal

/-- Positional notation. The point stands among the digits, or before them
    with zeros between, or after them with zeros before it. -/
def positional (d : Decimal) : List Char :=
  let digits := d.digits
  if d.point ≤ 0 then
    ['0', '.'] ++ List.replicate (-d.point).toNat '0' ++ digits
  else if d.point < digits.length then
    digits.take d.point.toNat ++ ['.'] ++ digits.drop d.point.toNat
  else
    digits ++ List.replicate (d.point.toNat - digits.length) '0' ++ ['.', '0']

/-- Scientific notation: one digit before the point, which is left out with
    nothing to follow it, and an exponent without padding or plus sign. -/
def scientific (d : Decimal) : List Char :=
  let digits := d.digits
  let fraction := digits.drop 1
  digits.take 1 ++ (if fraction.isEmpty then [] else '.' :: fraction)
    ++ ['e'] ++ (toString (d.point - 1)).toList

end Decimal

namespace Binary64

/-- The least positive value in positional notation: one ten-thousandth. -/
def leastPositional : Binary64 := ofRatio 1 10000

/-- The least value past positional notation: ten to the sixteenth. -/
def positionalBound : Binary64 := ofRatio (Nat.pow 10 16) 1

/-- Whether a finite value is written in positional notation. -/
def isPositional (v : Binary64) : Bool :=
  v.isZero
    || (leastPositional.magnitude ≤ v.magnitude && v.magnitude < positionalBound.magnitude)

/-- The text of the size of a value that is a number. -/
def sizeText (v : Binary64) : List Char :=
  if v.isInfinite then ['i', 'n', 'f']
  else if v.isZero then ['0', '.', '0']
  else if v.isPositional then (shortest v.units).positional
  else (shortest v.units).scientific

/-- The text of a value. The sign is written for every number, zero included;
    what is not a number has none. -/
def text (v : Binary64) : String :=
  if v.isNaN then "NaN"
  else String.ofList ((if v.isNegative then ['-'] else []) ++ v.sizeText)

end Binary64

end FloatLang
