/-! # Binary64

  The values of the language: double-precision floats, held as their 64 bits.
  One bit of sign, eleven of biased exponent and fifty-two of fraction.

  Without its sign bit a pattern is a *magnitude*, and magnitudes are ordered
  as the numbers they stand for:

  - **below `infinityMagnitude`**: a finite number, `units` times `2^-1074`.
  - **at `infinityMagnitude`**: infinity.
  - **above it**: not a number, whatever the payload.

  Core Lean only; no Mathlib.
-/

namespace FloatLang

/-- A double-precision float. Two values are equal when all their bits are;
    `Binary64.same` is the equality of the language. -/
structure Binary64 where
  /-- The sign, exponent and fraction, from the highest bit down. -/
  bits : UInt64
  deriving DecidableEq, Inhabited

namespace Binary64

/-- The weight of the sign bit. -/
def signPlace : Nat := Nat.pow 2 63

/-- The weight of the lowest exponent bit. -/
def exponentPlace : Nat := Nat.pow 2 52

/-- The magnitude of infinity: an exponent of ones over a zero fraction. -/
def infinityMagnitude : Nat := 2047 * exponentPlace

/-- All bits but the sign. -/
def magnitude (v : Binary64) : Nat :=
  v.bits.toNat % signPlace

/-- Whether the sign bit is set. -/
def isNegative (v : Binary64) : Bool :=
  signPlace ≤ v.bits.toNat

/-- The non-negative value of magnitude `m`. -/
def ofMagnitude (m : Nat) : Binary64 :=
  ⟨UInt64.ofNat m⟩

/-- Positive zero. -/
def zero : Binary64 := ofMagnitude 0

/-- Positive infinity. -/
def infinity : Binary64 := ofMagnitude infinityMagnitude

/-- The one value that stands for all that are not a number. -/
def notANumber : Binary64 := ofMagnitude (infinityMagnitude + exponentPlace / 2)

/-! ## Classes -/

/-- Not a number. -/
def isNaN (v : Binary64) : Bool :=
  infinityMagnitude < v.magnitude

/-- Infinity of either sign. -/
def isInfinite (v : Binary64) : Bool :=
  v.magnitude == infinityMagnitude

/-- Zero of either sign. -/
def isZero (v : Binary64) : Bool :=
  v.magnitude == 0

/-- The size of a finite value in units of `2^-1074`, the least positive one.
    Every finite value is a whole number of them: an exponent field of zero
    leaves the fraction as it is, and each step above one doubles the unit of
    the significand `2^52 + fraction`. -/
def units (v : Binary64) : Nat :=
  let exponent := v.magnitude / exponentPlace
  let fraction := v.magnitude % exponentPlace
  if exponent = 0 then fraction else (exponentPlace + fraction) * Nat.pow 2 (exponent - 1)

/-! ## Equality of the language

  The language compares and hashes its values through a wrapper around floats. The
  three functions below are what such a wrapper documents: an equality under which
  every value equals itself, and words that equal values share. That it does so is
  an assumption here.
-/

/-- The comparison of numbers: the zeros are equal, and what is not a number
    equals nothing. -/
def numericallyEqual (a b : Binary64) : Bool :=
  !a.isNaN && !b.isNaN && (a == b || (a.isZero && b.isZero))

/-- The equality of values, as it is assumed of the wrapper: as numbers, save that all
    that is not a number is one value. So every value is the same as itself. -/
def same (a b : Binary64) : Bool :=
  if a.isNaN then b.isNaN else a.numericallyEqual b

/-- The representative of a value: one pattern for all that is not a number,
    and positive zero for both zeros. -/
def canonical (v : Binary64) : Binary64 :=
  if v.isNaN then notANumber else if v.isZero then zero else v

/-- A word that a hasher may be fed for a value. Values that are the same give the
    same word; that is all that is assumed of the wrapper. -/
def hashWord (v : Binary64) : Nat :=
  v.canonical.bits.toNat

end Binary64

end FloatLang
