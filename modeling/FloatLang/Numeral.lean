import FloatLang.Text.CharClass
import FloatLang.Binary64.Rounding

/-! # Numerals

  The value of a run of digits and points. The run is read permissively: the
  longest start of it that is a literal, `digits` or `digits . digits`, is
  converted and the rest is ignored. So `1.2.3` is `1.2`, and a lone point,
  which has no digit, is zero.
-/

namespace FloatLang

/-- A literal: the digits before and after its point. Either may be empty. -/
structure Numeral where
  /-- The digits before the point. -/
  whole : List Char
  /-- The digits after the point. -/
  fraction : List Char
  deriving DecidableEq, Inhabited

namespace Numeral

/-- The literal that `cs` starts with. -/
def ofChars (cs : List Char) : Numeral where
  whole := cs.takeWhile Char.isDigit
  fraction :=
    match cs.dropWhile Char.isDigit with
    | '.' :: rest => rest.takeWhile Char.isDigit
    | _ => []

/-- All digits of the literal. -/
def digits (n : Numeral) : List Char :=
  n.whole ++ n.fraction

/-- The double nearest to the literal, and zero for one without digits. -/
def value (n : Numeral) : Binary64 :=
  if n.digits.isEmpty then .zero
  else .ofRatio (Nat.ofDigitChars 10 n.digits 0) (Nat.pow 10 n.fraction.length)

end Numeral

/-- The value of a text of digits and points. -/
def numeralValue (cs : List Char) : Binary64 :=
  (Numeral.ofChars cs).value

end FloatLang
