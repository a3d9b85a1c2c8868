import FloatLang.Lexeme.Piece
import FloatLang.Token.Equality

/-! # Located Tokens

  A whole text in memory as tokens, each with the bytes it covers and the line
  it starts on. The text is cut into pieces; a matched piece is a token, and
  every character of an unmatched one is a symbol. The last token is the end
  of input, with the empty span at the end of the text.
-/

namespace FloatLang

/-- A token with the place where it was found. -/
structure Located where
  /-- The token. -/
  token : Token
  /-- The bytes it covers. -/
  span : Span
  /-- The line it starts on, counted from one. -/
  line : Nat
  deriving DecidableEq, Inhabited

namespace Located

/-- The token with its place, each field named. -/
def inspect (s : Located) : String :=
  "Spanned \x7b token: " ++ s.token.inspect ++ ", span: " ++ s.span.describe
    ++ ", line: " ++ toString s.line ++ " \x7d"

/-- The same token at the same place. -/
def same (a b : Located) : Bool :=
  a.token.same b.token && a.span = b.span && a.line = b.line

/-- The representative of a token with its place under `same`. -/
def canonical (s : Located) : Located :=
  { s with token := s.token.canonical }

/-- The words that a hasher is fed for a token with its place, when `word` gives
    the word of a number. -/
def hashWordsBy (word : Binary64 → Nat) (s : Located) : List Nat :=
  s.token.hashWordsBy word ++ [s.span.start, s.span.stop, s.line]

/-- The words that a hasher is fed for a token with its place. -/
def hashWords (s : Located) : List Nat :=
  s.hashWordsBy Binary64.hashWord

/-! ## From pieces to tokens -/

/-- The characters before byte `stop` of a text that starts at byte `start`, as
    symbols on line `line`. -/
def symbols (line start stop : Nat) : List Char → List Located
  | [] => []
  | c :: rest =>
    if stop ≤ start then []
    else
      ⟨.symbol c, ⟨start, start + c.utf8Size⟩, line⟩
        :: symbols line (start + c.utf8Size) stop rest

/-- The tokens of pieces of `text`. Every symbol so far ends at byte
    `symbolsEnd` or before it; an unmatched piece that starts before that byte
    has been dealt with. -/
def ofPieces (text : List Char) (symbolsEnd : Nat) : List Piece → List Located
  | [] => []
  | piece :: pieces =>
    match piece.token? with
    | some token => ⟨token, piece.span, piece.line⟩ :: ofPieces text symbolsEnd pieces
    | none =>
      if piece.span.start < symbolsEnd then ofPieces text symbolsEnd pieces
      else
        let run := symbols piece.line piece.span.start piece.span.stop
          (Utf8.dropBytes piece.span.start text)
        run ++ ofPieces text (run.getLast?.elim symbolsEnd fun s => s.span.stop) pieces

/-- The tokens of a text that was cut into `pieces` and ends on line
    `lastLine`. -/
def ofCut (text : List Char) (pieces : List Piece) (lastLine : Nat) : List Located :=
  ofPieces text 0 pieces
    ++ [⟨.endOfInput, ⟨Utf8.width text, Utf8.width text⟩, lastLine⟩]

/-- The tokens of a text, each with its place. -/
def ofText (text : String) : List Located :=
  let (pieces, lastLine) := Piece.cut 0 1 text.toList
  ofCut text.toList pieces lastLine

end Located

end FloatLang
