import FloatLang.Binary64.Basic

/-! # Rounding

  The double nearest to a quotient of whole numbers, with ties to the even
  significand.

  The quotient is taken in units of `2^-1074`. A quotient below `2^53` units
  is rounded to a whole number of them, which is exact spacing there. A larger
  one drops as many low bits as leave fifty-three. The magnitude is then
  `shift * 2^52 + significand`, in which a significand that rounds up to
  `2^53` carries into the exponent by itself. What passes the largest finite
  magnitude becomes infinity.

  All of it is arithmetic of `Nat`, so the size of the operands has no limit.
-/

namespace FloatLang

/-- The whole number nearest to `n / d`, a tie going to the even one. -/
def roundQuotient (n d : Nat) : Nat :=
  let quotient := n / d
  let rest := n % d
  if 2 * rest < d then quotient
  else if d < 2 * rest then quotient + 1
  else quotient + quotient % 2

namespace Binary64

/-- How many of the least positive value make one. -/
def unitsPerOne : Nat := Nat.pow 2 1074

/-- The low bits that a quotient of `q` units loses so that at most
    fifty-three are left. -/
def excessBits (q : Nat) : Nat :=
  q.log2 - 52

/-- The double nearest to `n / d`. -/
def ofRatio (n d : Nat) : Binary64 :=
  let scaled := n * unitsPerOne
  let shift := excessBits (scaled / d)
  let significand := roundQuotient scaled (d * Nat.pow 2 shift)
  ofMagnitude (min (shift * exponentPlace + significand) infinityMagnitude)

end Binary64

end FloatLang
