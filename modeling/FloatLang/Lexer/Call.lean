import FloatLang.Lexer.Basic

/-! # Calls on a Lexer

  Whatever can be asked of a lexer, in any order. Two of the calls reach past
  the lexer to its stream: they take a character that the lexer then never
  sees, or the error that the stream holds.
-/

namespace FloatLang.Lexer

/-- What can be asked of a lexer. -/
inductive Call where
  /-- The next token. -/
  | next
  /-- The next token, or none at the end of input. -/
  | next?
  /-- Where the last lexeme starts. -/
  | lexemeStart
  /-- The stream as it is. -/
  | stream
  /-- A character from behind the lexer's back. -/
  | pullBehind
  /-- The error that the stream holds. -/
  | releaseError
  deriving DecidableEq, Repr, Inhabited

/-- The answer to a call. -/
inductive Answer (σ : Type) where
  /-- A token and the position of its first character. -/
  | token (answer : Token) (position : Position)
  /-- A token, or none at the end of input. -/
  | token? (answer : Option Token)
  /-- A position. -/
  | position (answer : Position)
  /-- The stream. -/
  | stream (answer : σ)
  /-- A character, or none where the stream has ended. -/
  | char? (answer : Option Char)
  /-- An error, or none where the stream holds none. -/
  | error? (answer : Option StreamError)
  deriving DecidableEq

variable {σ : Type} [CharStream σ]

/-- Answers a call. -/
def answer (l : Lexer σ) : Call → Answer σ × Lexer σ
  | .next =>
    let (token, l') := l.next
    (.token token l'.lexemeStart, l')
  | .next? =>
    let (token?, l') := l.next?
    (.token? token?, l')
  | .lexemeStart => (.position l.lexemeStart, l)
  | .stream => (.stream l.stream, l)
  | .pullBehind =>
    let (c?, l') := l.pullBehind
    (.char? c?, l')
  | .releaseError =>
    let (error?, l') := l.releaseError
    (.error? error?, l')

/-- Answers calls one after the other. -/
def run (l : Lexer σ) : List Call → List (Answer σ) × Lexer σ
  | [] => ([], l)
  | call :: calls =>
    let (first, l') := l.answer call
    let (rest, l'') := l'.run calls
    (first :: rest, l'')

end FloatLang.Lexer
