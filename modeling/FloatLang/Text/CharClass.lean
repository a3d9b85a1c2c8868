/-! # Character Classes

  The lexical classes of the language, as the lexer of streams tells them:

  - **blank** (`isBlank`): separates tokens and carries no meaning.
  - **letter, digit**: core's `Char.isAlpha`, `Char.isDigit` and
    `Char.isAlphanum`, which admit ASCII alone. A word is made of these.
  - **numeral** (`isNumeral`): a digit or a point.
  - **line end** (`endsLine`): closes a comment and starts a new line.
  - **comment mark**: the one character `#`.
  - **operator** (`isOperator`): every other character. Each stands for itself.

  Core Lean only; no Mathlib.
-/

namespace FloatLang

/-- The six blanks of ASCII: space, tab, line feed, vertical tab, form feed
    and carriage return. No other character separates tokens, so a no-break
    space is an operator. -/
def isBlank (c : Char) : Bool :=
  c == ' ' || c == '\t' || c == '\n' || c == '\x0b' || c == '\x0c' || c == '\r'

/-- A line feed or a carriage return. -/
def endsLine (c : Char) : Bool :=
  c == '\n' || c == '\r'

/-- A character of a numeral: an ASCII digit or a point. -/
def isNumeral (c : Char) : Bool :=
  c.isDigit || c == '.'

/-- The character that opens a comment. -/
def commentMark : Char := '#'

/-- A character that a comment goes on over. -/
def inComment (c : Char) : Bool := !endsLine c

/-- A character that is a token of its own: it starts no word, no numeral
    and no comment, and is no blank. -/
def isOperator (c : Char) : Bool :=
  !(isBlank c || c.isAlpha || isNumeral c || c == commentMark)

/-! ## How the classes meet -/

/-- Every line end is a blank. -/
theorem isBlank_of_endsLine {c : Char} (h : endsLine c = true) : isBlank c = true := by
  simp only [endsLine, Bool.or_eq_true, beq_iff_eq] at h
  rcases h with rfl | rfl <;> decide

/-- A letter goes on as it starts: it is alphanumeric. -/
theorem isAlphanum_of_isAlpha {c : Char} (h : c.isAlpha = true) : c.isAlphanum = true := by
  simp [Char.isAlphanum, h]

/-- A letter is no digit and no point. -/
theorem isNumeral_of_isAlpha {c : Char} (h : c.isAlpha = true) : isNumeral c = false := by
  rw [Bool.eq_false_iff]
  intro hnumeral
  rw [isNumeral, Bool.or_eq_true, beq_iff_eq] at hnumeral
  rcases hnumeral with hdigit | rfl
  · delta Char.isAlpha Char.isUpper Char.isLower at h
    delta Char.isDigit at hdigit
    simp only [Bool.or_eq_true, Bool.and_eq_true, decide_eq_true_eq, ge_iff_le,
      UInt32.le_iff_toNat_le] at h hdigit
    simp at h hdigit
    omega
  · exact absurd h (by decide)

/-- A character of a numeral is no letter. -/
theorem not_isAlpha_of_isNumeral {c : Char} (h : isNumeral c = true) : ¬ c.isAlpha = true := by
  intro halpha
  rw [isNumeral_of_isAlpha halpha] at h
  cases h

/-- The comment mark does not end a line, so it belongs to its own comment. -/
theorem endsLine_commentMark : endsLine commentMark = false := by decide

end FloatLang
