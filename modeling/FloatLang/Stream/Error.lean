/-! # Stream Errors

  Why a character stream stops before its real end.

  - `ReadFailure`: a failed read, by its kind and perhaps words of its own.
  - `StreamError`: the failure of a read, or bytes that are no character, with
    the byte offset at which it struck.

  Core Lean only; no Mathlib.
-/

namespace FloatLang

/-! ## Failed reads -/

/-- The kinds of failed reads. A system may know more of them: those differ in the words
    of `describe` only, and are left out. -/
inductive FailureKind where
  | notFound
  | permissionDenied
  | connectionReset
  | brokenPipe
  | wouldBlock
  | invalidData
  | timedOut
  /-- The read was cut short by a signal; it may be tried again. -/
  | interrupted
  | unexpectedEnd
  | other
  deriving DecidableEq, Repr, Inhabited

/-- What is said of a failure that brings no words of its own. -/
def FailureKind.describe : FailureKind → String
  | .notFound => "entity not found"
  | .permissionDenied => "permission denied"
  | .connectionReset => "connection reset"
  | .brokenPipe => "broken pipe"
  | .wouldBlock => "operation would block"
  | .invalidData => "invalid data"
  | .timedOut => "timed out"
  | .interrupted => "operation interrupted"
  | .unexpectedEnd => "unexpected end of file"
  | .other => "other error"

/-- A failed read. -/
structure ReadFailure where
  /-- The kind of failure. -/
  kind : FailureKind
  /-- The failure's own words, if it has any. They may be empty. -/
  words? : Option String := none
  deriving DecidableEq, Inhabited

/-- The failure in words: its own if it has any. -/
def ReadFailure.describe (f : ReadFailure) : String :=
  f.words?.getD f.kind.describe

/-! ## Errors of a stream -/

/-- An error that ended a stream early. -/
inductive StreamError where
  /-- The read at byte `offset` failed. -/
  | unreadable (failure : ReadFailure) (offset : Nat)
  /-- The bytes from `offset` on are no character in UTF-8. -/
  | malformed (bytes : List UInt8) (offset : Nat)
  deriving DecidableEq, Inhabited

/-- A byte as two lower-case hexadecimal digits. -/
def hexByte (b : UInt8) : String :=
  String.ofList [Nat.digitChar (b.toNat / 16), Nat.digitChar (b.toNat % 16)]

namespace StreamError

/-- The byte offset at which the stream failed. -/
def offset : StreamError → Nat
  | .unreadable _ offset => offset
  | .malformed _ offset => offset

/-- The failed read behind the error, if there is one. -/
def cause? : StreamError → Option ReadFailure
  | .unreadable failure _ => some failure
  | .malformed _ _ => none

/-- What went wrong, without the place. -/
def reason : StreamError → String
  | .unreadable failure _ => "Failed to read input: " ++ failure.describe
  | .malformed bytes _ =>
    "Input is not valid UTF-8: [" ++ ", ".intercalate (bytes.map hexByte) ++ "]"

/-- The error in words. -/
def message (e : StreamError) : String :=
  "Error at byte " ++ toString e.offset ++ ": " ++ e.reason ++ "."

end StreamError

end FloatLang
