import FloatLang.Binary64.Rounding

/-! # Shortest Decimals

  The decimal that stands for a finite double in print: of the decimals that
  read back as the double, one with the fewest digits, and of those the
  nearest.

  For one, two, ... seventeen digits the candidates are the two neighbours of
  the value on the grid of decimals with that many digits. Whether a candidate
  will do is asked of the reader itself, `Decimal.nearest`. Every finite
  double has a finite decimal expansion, which is the answer of last resort,
  so that the result reads back by construction.
-/

namespace FloatLang

/-- The number `coefficient * 10 ^ exponent`. -/
structure Decimal where
  /-- The digits. -/
  coefficient : Nat
  /-- The power of ten that the last digit counts. -/
  exponent : Int
  deriving DecidableEq, Inhabited

namespace Decimal

/-- The double nearest to the decimal. -/
def nearest (d : Decimal) : Binary64 :=
  if 0 ≤ d.exponent then
    .ofRatio (d.coefficient * Nat.pow 10 d.exponent.toNat) 1
  else
    .ofRatio d.coefficient (Nat.pow 10 (-d.exponent).toNat)

/-- Whether the decimal reads back as the value of `u` units. -/
def readsBack (u : Nat) (d : Decimal) : Bool :=
  d.nearest.units == u

/-- The digits of the decimal without the zeros at their end. -/
def digits (d : Decimal) : List Char :=
  ((Nat.toDigits 10 d.coefficient).reverse.dropWhile (· == '0')).reverse

/-- How many digits stand before the decimal point; zeros follow the point
    when this is negative. -/
def point (d : Decimal) : Int :=
  (Nat.toDigits 10 d.coefficient).length + d.exponent

end Decimal

namespace Binary64

/-- Decimal places enough to give the least positive double nineteen digits. -/
def finePlaces : Nat := 342

/-- The value of `u` units in steps of the last of `finePlaces` places, as a
    fraction over `unitsPerOne`. -/
def fineSteps (u : Nat) : Nat :=
  u * Nat.pow 10 finePlaces

/-- The number of digits of the value of `u` units down to the last of
    `finePlaces` places. -/
def fineDigits (u : Nat) : Nat :=
  (Nat.toDigits 10 (fineSteps u / unitsPerOne)).length

/-- A decimal that reads back as the value of `u` units, if one lies on the
    grid that leaves out the last `places` of the fine places. Of two the
    nearer is taken, and the upper one of two equally near. -/
def onGrid? (u places : Nat) : Option Decimal :=
  let step := unitsPerOne * Nat.pow 10 places
  let below := fineSteps u / step
  let rest := fineSteps u % step
  let lower : Decimal := ⟨below, places - (finePlaces : Int)⟩
  let upper : Decimal := ⟨below + 1, places - (finePlaces : Int)⟩
  if lower.readsBack u && (2 * rest < step || !upper.readsBack u) then some lower
  else if upper.readsBack u then some upper
  else none

/-- The full decimal expansion of the value of `u` units. -/
def expansion (u : Nat) : Decimal :=
  ⟨u * Nat.pow 5 1074, -1074⟩

/-- The shortest decimal for the value of `u` units: of one digit if there is
    one, of seventeen at most. -/
def shortest (u : Nat) : Decimal :=
  let size := fineDigits u
  ((List.range' 1 17).findSome? fun n => onGrid? u (size - n)).getD (expansion u)

end Binary64

end FloatLang
