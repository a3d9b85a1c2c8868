import FloatLang.Lexeme.Located
import FloatLang.Text.Position

/-! # Listings

  The lines that the command prints, one for each token: the place of the
  token in columns of fixed width, then the token in words. What is wider than
  its column is not cut.
-/

namespace FloatLang.Command

/-- `text` with blanks before it up to `width` characters. -/
def alignRight (width : Nat) (text : String) : String :=
  String.ofList (text.toList.leftpad width ' ')

/-- The line of a token at a position. -/
def positionLine (entry : Token × Position) : String :=
  alignRight 8 entry.2.describe ++ " " ++ entry.1.describe ++ "\n"

/-- The line of a token with its span and line number. -/
def spanLine (entry : Located) : String :=
  alignRight 4 (toString entry.line) ++ " " ++ alignRight 10 entry.span.describe ++ " "
    ++ entry.token.describe ++ "\n"

/-- The listing of tokens with positions. -/
def positionListing (entries : List (Token × Position)) : String :=
  String.join (entries.map positionLine)

/-- The listing of tokens with spans. -/
def spanListing (entries : List Located) : String :=
  String.join (entries.map spanLine)

end FloatLang.Command
