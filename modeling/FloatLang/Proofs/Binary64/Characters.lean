import FloatLang.Binary64.Text
import FloatLang.Proofs.Text.Digits

/-! # Characters of a Decimal

  A decimal in print has no characters but those of a numeral, apart from the exponent
  behind an `e`. So the text of a double has nothing in it but letters, digits, points
  and signs.

  - **Digits** (`exists_zeros`): those in print are all that there are but for zeros at
    their end.
  - **Mantissa** (`mantissa`): what stands before the exponent in scientific notation.

  Main statements: `isNumeral_of_mem_positional`, `isNumeral_of_mem_mantissa` and
  `not_mem_text`.
-/

namespace FloatLang

namespace Decimal

variable (d : Decimal)

/-- All digits of a decimal are its digits in print and zeros. -/
theorem exists_zeros :
    ∃ zeros, Nat.toDigits 10 d.coefficient = d.digits ++ zeros ∧ ∀ c ∈ zeros, c = '0' := by
  refine ⟨((Nat.toDigits 10 d.coefficient).reverse.takeWhile (· == '0')).reverse, ?_, ?_⟩
  · rw [digits, ← List.reverse_append, List.takeWhile_append_dropWhile, List.reverse_reverse]
  · intro c hc
    have hzero := List.all_eq_true.mp List.all_takeWhile c (List.mem_reverse.mp hc)
    exact beq_iff_eq.mp hzero

theorem isDigit_of_mem_digits {c : Char} (hc : c ∈ d.digits) : c.isDigit = true := by
  obtain ⟨zeros, hdigits, _⟩ := d.exists_zeros
  have hmem : c ∈ Nat.toDigits 10 d.coefficient := by
    rw [hdigits]
    exact List.mem_append_left _ hc
  exact Nat.isDigit_of_mem_toDigits (by decide) (by decide) hmem

theorem isNumeral_of_mem_digits {c : Char} (hc : c ∈ d.digits) : isNumeral c = true := by
  rw [isNumeral, d.isDigit_of_mem_digits hc, Bool.true_or]

/-- The digits of scientific notation, with the point that there is behind the first one. -/
def mantissa : List Char :=
  d.digits.take 1 ++ if (d.digits.drop 1).isEmpty then [] else '.' :: d.digits.drop 1

theorem scientific_eq : d.scientific = d.mantissa ++ 'e' :: (d.point - 1).repr.toList := by
  rw [scientific, mantissa, List.append_assoc]
  rfl

/-- Positional notation has digits and a point. -/
theorem isNumeral_of_mem_positional {c : Char} (hc : c ∈ d.positional) : isNumeral c = true := by
  have hzeros {n : Nat} : c ∈ List.replicate n '0' → isNumeral c = true := by
    intro hmem
    rw [List.eq_of_mem_replicate hmem]
    decide
  have hpoint : c = '.' → isNumeral c = true := by
    rintro rfl
    decide
  have hzero : c = '0' → isNumeral c = true := by
    rintro rfl
    decide
  rw [positional] at hc
  split at hc
  · simp only [List.mem_append, List.mem_cons, List.not_mem_nil, or_false] at hc
    rcases hc with ((h | h) | h) | h
    · exact hzero h
    · exact hpoint h
    · exact hzeros h
    · exact d.isNumeral_of_mem_digits h
  · split at hc
    · simp only [List.mem_append, List.mem_singleton] at hc
      rcases hc with (h | h) | h
      · exact d.isNumeral_of_mem_digits (List.mem_of_mem_take h)
      · exact hpoint h
      · exact d.isNumeral_of_mem_digits (List.mem_of_mem_drop h)
    · simp only [List.mem_append, List.mem_cons, List.not_mem_nil, or_false] at hc
      rcases hc with (h | h) | h | h
      · exact d.isNumeral_of_mem_digits h
      · exact hzeros h
      · exact hpoint h
      · exact hzero h

/-- So has what stands before the exponent in scientific notation. -/
theorem isNumeral_of_mem_mantissa {c : Char} (hc : c ∈ d.mantissa) : isNumeral c = true := by
  rw [mantissa] at hc
  rcases List.mem_append.mp hc with h | h
  · exact d.isNumeral_of_mem_digits (List.mem_of_mem_take h)
  · split at h
    · cases h
    · rcases List.mem_cons.mp h with rfl | h
      · decide
      · exact d.isNumeral_of_mem_digits (List.mem_of_mem_drop h)

end Decimal

/-! ## Other characters -/

section others
variable {c : Char} (hword : c.isAlphanum = false) (hpoint : c ≠ '.')
include hword hpoint

/-- What is neither a letter, nor a digit, nor a point is in no numeral. -/
theorem not_mem_of_isNumeral {cs : List Char} (hcs : ∀ d ∈ cs, isNumeral d = true) : c ∉ cs := by
  intro hc
  have hnumeral := hcs c hc
  rw [isNumeral, Bool.or_eq_true, beq_iff_eq] at hnumeral
  rcases hnumeral with hdigit | hdot
  · rw [Char.isAlphanum, hdigit, Bool.or_true] at hword
    cases hword
  · exact hpoint hdot

theorem Decimal.not_mem_scientific (hsign : c ≠ '-') (d : Decimal) : c ∉ d.scientific := by
  have hmantissa : c ∉ d.mantissa :=
    not_mem_of_isNumeral hword hpoint fun _ hc => d.isNumeral_of_mem_mantissa hc
  have hmark : c ≠ 'e' := by
    rintro rfl
    exact absurd hword (by decide)
  simp [scientific_eq, hmantissa, hmark, not_mem_repr hword hsign]

/-- **The text of a double** has letters, digits, points and signs. -/
theorem Binary64.not_mem_text (hsign : c ≠ '-') (v : Binary64) : c ∉ v.text.toList := by
  have hletters {cs : List Char} (hcs : cs.all Char.isAlphanum = true) : c ∉ cs := by
    intro hc
    rw [List.all_eq_true.mp hcs c hc] at hword
    cases hword
  have hsize : c ∉ v.sizeText := by
    unfold sizeText
    split
    · exact hletters (by decide)
    split
    · exact not_mem_of_isNumeral hword hpoint (List.all_eq_true.mp (by decide))
    split
    · exact not_mem_of_isNumeral hword hpoint fun _ hc => Decimal.isNumeral_of_mem_positional _ hc
    · exact Decimal.not_mem_scientific hword hpoint hsign _
  unfold text
  split
  · exact hletters (by decide)
  · rw [String.toList_ofList, List.mem_append, not_or]
    refine ⟨?_, hsize⟩
    split
    · rwa [List.mem_singleton]
    · exact List.not_mem_nil

end others

end FloatLang
