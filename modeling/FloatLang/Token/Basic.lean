import FloatLang.Text.Quoted
import FloatLang.Binary64.Text
import FloatLang.Token.Keyword
import FloatLang.Numeral

/-! # Tokens

  The smallest meaningful pieces of a program. Any character that starts no
  other token is one of its own, whether or not a parser has a use for it.

  - `describe`: the token in words, as listings show it.
  - `inspect`: the token as the term that builds it.
-/

namespace FloatLang

/-- A lexical token. -/
inductive Token where
  /-- No more characters remain. -/
  | endOfInput
  /-- A reserved word. -/
  | keyword (reserved : Keyword)
  /-- A word that is not reserved. -/
  | identifier (name : String)
  /-- A numeral, by its value. -/
  | number (value : Binary64)
  /-- A single character of any other kind. -/
  | symbol (character : Char)
  deriving DecidableEq, Inhabited

namespace Token

/-- The token that a word is: its keyword, or else an identifier. -/
def ofWord (word : List Char) : Token :=
  match Keyword.ofWord? (String.ofList word) with
  | some reserved => .keyword reserved
  | none => .identifier (String.ofList word)

/-- The token that a run of digits and points is. -/
def ofNumeral (run : List Char) : Token :=
  .number (numeralValue run)

/-- The token in words. -/
def describe : Token → String
  | .endOfInput => "end of input"
  | .keyword k => "keyword " ++ k.word
  | .identifier name => "identifier " ++ name
  | .number value => "number " ++ value.text
  | .symbol c => "symbol " ++ quotedChar c

/-- The token as the term that builds it. -/
def inspect : Token → String
  | .endOfInput => "EndOfInput"
  | .keyword k => "Keyword(" ++ k.inspect ++ ")"
  | .identifier name => "Identifier(" ++ quotedName name ++ ")"
  | .number value => "Number(" ++ value.text ++ ")"
  | .symbol c => "Symbol(" ++ quotedChar c ++ ")"

/-! ## Words -/

/-- A word spelled like a keyword is the keyword. -/
theorem ofWord_of_eq {word : List Char} {k : Keyword} (h : word = k.word.toList) :
    ofWord word = .keyword k := by
  have hspelled : Keyword.ofWord? (String.ofList word) = some k := by
    rw [Keyword.ofWord?_eq_some_iff, h, String.ofList_toList]
  simp only [ofWord, hspelled]

/-- Any other word is an identifier. -/
theorem ofWord_of_ne {word : List Char} (h : ∀ k : Keyword, word ≠ k.word.toList) :
    ofWord word = .identifier (String.ofList word) := by
  cases hspelled : Keyword.ofWord? (String.ofList word) with
  | none => simp only [ofWord, hspelled]
  | some k =>
    rw [Keyword.ofWord?_eq_some_iff] at hspelled
    have hword := congrArg String.toList hspelled
    rw [String.toList_ofList] at hword
    exact absurd hword (h k)

end Token

end FloatLang
