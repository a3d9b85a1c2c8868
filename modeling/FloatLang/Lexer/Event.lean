import FloatLang.Stream.Error
import FloatLang.Text.Position
import FloatLang.Token.Basic

/-! # Lexer Events

  What is worth a record while a stream is lexed: every token returned, every
  comment skipped, and the error of a stream that stops early. Tokens are
  traced; the other two are of use to whoever debugs a program.
-/

namespace FloatLang

/-- How much detail a record adds. -/
inductive Level where
  /-- Of use when something goes wrong. -/
  | debug
  /-- Every step. -/
  | trace
  deriving DecidableEq, Repr, Inhabited

/-- A record of a lexer run. -/
inductive Event where
  /-- The token was returned; its first character is at `position`. -/
  | returned (token : Token) (position : Position)
  /-- The comment whose mark is at `position` was skipped. -/
  | skipped (position : Position)
  /-- The stream met an error and stopped. -/
  | stopped (error : StreamError)
  deriving DecidableEq, Inhabited

namespace Event

/-- The detail of a record. -/
def level : Event → Level
  | .returned _ _ => .trace
  | .skipped _ => .debug
  | .stopped _ => .debug

/-- The record in words. -/
def message : Event → String
  | .returned token position => token.describe ++ " at " ++ position.describe
  | .skipped position => "skipped comment starting at " ++ position.describe
  | .stopped error => "character source stopped: " ++ error.message

end Event

end FloatLang
