import FloatLang.Lexer.Basic

/-! # Lexer Runs

  Every token up to the end of input.

  - `collect`: the tokens before the end of input.
  - `tokens`: the tokens up to and including the end of input, each with the
    position of its first character.
  - `tokenize`: the tokens of a text.
-/

namespace FloatLang

namespace Lexer

variable {σ : Type} [CharStream σ]

/-- The tokens up to and including the end of input, each with the position of
    its first character. -/
def tokens (l : Lexer σ) : List (Token × Position) × Lexer σ :=
  match _ : l.next with
  | (token, l') =>
    if _ : token = .endOfInput then ([(token, l'.lexemeStart)], l')
    else
      let entry := (token, l'.lexemeStart)
      let (rest, l'') := tokens l'
      (entry :: rest, l'')
termination_by l.budget
decreasing_by
  next hnext hend => exact budget_lt_of_next hnext hend

/-- The tokens before the end of input. -/
def collect (l : Lexer σ) : List Token × Lexer σ :=
  match _ : l.next? with
  | (none, l') => ([], l')
  | (some token, l') =>
    let (rest, l'') := collect l'
    (token :: rest, l'')
termination_by l.budget
decreasing_by
  next hnext => exact budget_lt_of_next? hnext

end Lexer

/-- The tokens of a text, which end with a single end of input. -/
def tokenize (text : String) : List Token :=
  (Lexer.ofStream text.toList).collect.1 ++ [.endOfInput]

end FloatLang
