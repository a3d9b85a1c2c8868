import FloatLang.Proofs.Binary64.Text
import FloatLang.Proofs.Equality
import FloatLang.Proofs.Text.Quoted

/-! # Tokens in Words

  The words for a token tell which token it is. They do so for every token that a text
  can have: its number is a number and has no sign, so that neither a payload nor a
  signed zero is lost in the words or in the equality of tokens.

  - **Plain** (`Token.Plain`): a token with such a number, or with none.

  Main statements: `same_iff_eq` and `describe_eq_iff`.
-/

namespace FloatLang

/-- Whatever is read as a numeral, its value is a number without a sign. -/
theorem numeralValue_unsigned (run : List Char) :
    (numeralValue run).isNaN = false ∧ (numeralValue run).isNegative = false := by
  rw [numeralValue]
  by_cases hdigits : (Numeral.ofChars run).digits = []
  · rw [Numeral.value, if_pos (List.isEmpty_iff.mpr hdigits)]
    decide
  · have hrounded := Numeral.rounded_value hdigits
    exact ⟨hrounded.isNumber, hrounded.unsigned⟩

namespace Binary64

/-- Without a sign there is one zero, and a number represents itself. -/
theorem canonical_of_unsigned {v : Binary64} (hnumber : v.isNaN = false)
    (hunsigned : v.isNegative = false) : v.canonical = v := by
  cases hzero : v.isZero with
  | true =>
    have hmagnitude : v.magnitude = 0 := beq_iff_eq.mp hzero
    rw [(canonical_eq_zero_iff hnumber).mpr hzero, zero, ← hmagnitude,
      ofMagnitude_magnitude hunsigned]
  | false => exact canonical_of_number hnumber hzero

end Binary64

namespace Token

/-- The number that the token holds, if it holds one, is a number and has no sign. -/
def Plain (t : Token) : Prop :=
  ∀ v, t = .number v → v.isNaN = false ∧ v.isNegative = false

/-- Every token of a text is plain. -/
theorem plain_ofLexeme (lexeme : List Char) : (ofLexeme lexeme).Plain := by
  intro v hv
  cases lexeme with
  | nil => cases hv
  | cons c rest =>
    rw [ofLexeme] at hv
    split at hv
    · unfold ofWord at hv
      split at hv <;> cases hv
    · split at hv
      · cases hv
        exact numeralValue_unsigned _
      · cases hv

variable {a b : Token}

theorem Plain.canonical_eq (h : a.Plain) : a.canonical = a := by
  cases a with
  | number v =>
    obtain ⟨hnumber, hunsigned⟩ := h v rfl
    exact congrArg number (Binary64.canonical_of_unsigned hnumber hunsigned)
  | _ => rfl

/-- Plain tokens are the same only if they are one. -/
theorem same_iff_eq (ha : a.Plain) (hb : b.Plain) : a.same b = true ↔ a = b := by
  rw [same_iff, ha.canonical_eq, hb.canonical_eq]

/-- The first letter of the words for a token. -/
def initial : Token → Char
  | .endOfInput => 'e'
  | .keyword _ => 'k'
  | .identifier _ => 'i'
  | .number _ => 'n'
  | .symbol _ => 's'

theorem head?_describe (t : Token) : t.describe.toList.head? = some t.initial := by
  cases t <;> simp [describe, initial]

/-- **The words tell the token.** Its kind is told by the first letter already. -/
theorem describe_eq_iff (ha : a.Plain) (hb : b.Plain) : a.describe = b.describe ↔ a = b := by
  refine ⟨fun h => ?_, congrArg describe⟩
  have hinitial : a.initial = b.initial := by
    have hhead := head?_describe a
    rw [h, head?_describe b] at hhead
    exact (Option.some.inj hhead).symm
  cases a with
  | endOfInput =>
    cases b with
    | endOfInput => rfl
    | _ => exact absurd hinitial (by simp [initial])
  | keyword k =>
    cases b with
    | keyword l =>
      have hword := (String.append_right_inj _).mp h
      have hspelled := Keyword.ofWord?_eq_some_iff.mpr hword
      rw [Keyword.ofWord?_eq_some_iff.mpr rfl] at hspelled
      exact congrArg keyword (Option.some.inj hspelled)
    | _ => exact absurd hinitial (by simp [initial])
  | identifier name =>
    cases b with
    | identifier other => exact congrArg identifier ((String.append_right_inj _).mp h)
    | _ => exact absurd hinitial (by simp [initial])
  | number v =>
    cases b with
    | number w =>
      have htext := (String.append_right_inj _).mp h
      exact congrArg number (Binary64.eq_of_text_eq (ha v rfl).1 (hb w rfl).1 htext)
    | _ => exact absurd hinitial (by simp [initial])
  | symbol c =>
    cases b with
    | symbol d => exact congrArg symbol (quotedChar_inj ((String.append_right_inj _).mp h))
    | _ => exact absurd hinitial (by simp [initial])

end Token

end FloatLang
