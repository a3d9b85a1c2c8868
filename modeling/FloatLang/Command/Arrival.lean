import FloatLang.Command.Run

/-! # Programs That Arrive in Parts

  Standard input may arrive in parts, such as the lines that somebody types. A token
  is listed as soon as the parts so far settle it: the lexer has found it without
  asking for more than has arrived. Where it did ask for more, it goes back to where
  it was before the call, and waits for the next part.

  Only the reading and the printing are left to the entry point.
-/

namespace FloatLang

/-- Whether the stream has ended for want of outcomes. With further ones it might not
    have. -/
def Utf8Reader.isDry (r : Utf8Reader) : Bool :=
  r.closed && r.events.isEmpty

/-- The lexer with further outcomes for its reader. -/
def Lexer.extend (l : Lexer Utf8Reader) (events : List ReadEvent) : Lexer Utf8Reader :=
  { l with stream := l.stream.extend events }

namespace Command

/-- The outcome with `lines` printed before it. -/
def Outcome.after (lines : String) (o : Outcome) : Outcome :=
  { o with stdout := lines ++ o.stdout }

/-- How far a program is listed that has arrived in part. -/
inductive Progress where
  /-- Up to what the lexer has still to read, with these lines. -/
  | waiting (lines : String) (l : Lexer Utf8Reader)
  /-- To its end. -/
  | finished (outcome : Outcome)

namespace Progress

/-- The progress with `line` printed before it. -/
def after (line : String) : Progress → Progress
  | .waiting lines l => .waiting (line ++ lines) l
  | .finished outcome => .finished (outcome.after line)

end Progress

/-- Lists the tokens that are settled by what has arrived. -/
def listSettled (l : Lexer Utf8Reader) : Progress :=
  match _ : l.next with
  | (token, l') =>
    if l'.stream.isDry then .waiting "" l
    else if _ : token = .endOfInput then .finished (listFrom l)
    else (listSettled l').after (positionLine (token, l'.lexemeStart))
termination_by l.budget
decreasing_by
  next hnext _ hend => exact Lexer.budget_lt_of_next hnext hend

/-- Lists the positions of a program that arrives in parts, each as soon as it is
    settled. An error may settle all before the last part. -/
def listParts (l : Lexer Utf8Reader) : List (List ReadEvent) → Outcome
  | [] => listFrom l
  | part :: parts =>
    match listSettled (l.extend part) with
    | .waiting lines l' => (listParts l' parts).after lines
    | .finished outcome => outcome

end Command

end FloatLang
