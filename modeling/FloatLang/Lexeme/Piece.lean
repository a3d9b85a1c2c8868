import FloatLang.Lexeme.Rule
import FloatLang.Text.Utf8

/-! # Pieces of a Text

  A text in memory is cut into pieces from left to right, each the longest
  that a rule matches. Pieces of blanks and comments are passed over, and of
  them only the line ends are counted.

  Where no rule matches, the piece is **unmatched**. How many characters such a
  piece takes is up to whoever cuts: one at least, and none at which a rule
  would match. `Cutting` relates a text to every way of cutting it, and `cut`
  is the way that takes unmatched characters one by one.

  A text is cut by a scanner that is generated from the rules. That it takes the
  longest match, and of equally long ones that of the rule declared first, is what
  such a scanner documents, and an assumption here.
-/

namespace FloatLang

/-- A range of bytes, from `start` up to but not including `stop`. The text is held in
    memory, so that no offset in it overflows a machine word; here they have no bound. -/
structure Span where
  /-- The first byte. -/
  start : Nat
  /-- The byte past the last. -/
  stop : Nat
  deriving DecidableEq, Repr, Inhabited

/-- The span as `start..stop`. -/
def Span.describe (s : Span) : String :=
  toString s.start ++ ".." ++ toString s.stop

/-- A piece that is not passed over. -/
structure Piece where
  /-- The token of the piece, and none where no rule matches. -/
  token? : Option Token
  /-- The bytes that the piece covers. -/
  span : Span
  /-- The line that the piece starts on, counted from one. -/
  line : Nat
  deriving DecidableEq, Inhabited

namespace Piece

/-- `Cutting offset line text pieces lastLine`: the text, which starts at byte
    `offset` on line `line`, can be cut into `pieces`, and ends on line
    `lastLine`. -/
inductive Cutting : Nat → Nat → List Char → List Piece → Nat → Prop where
  /-- Nothing is left to cut. -/
  | done {offset line : Nat} : Cutting offset line [] [] line
  /-- The longest match is a token. -/
  | token {offset line lastLine n : Nat} {text : List Char} {pieces : List Piece}
      {rule : Rule} {token : Token} :
      Rule.longest? text = some (rule, n) → rule.token? (text.take n) = some token →
      Cutting (offset + Utf8.width (text.take n)) line (text.drop n) pieces lastLine →
      Cutting offset line text
        (⟨some token, ⟨offset, offset + Utf8.width (text.take n)⟩, line⟩ :: pieces) lastLine
  /-- The longest match is passed over. -/
  | skipped {offset line lastLine n : Nat} {text : List Char} {pieces : List Piece} {rule : Rule} :
      Rule.longest? text = some (rule, n) → rule.token? (text.take n) = none →
      Cutting (offset + Utf8.width (text.take n)) (line + rule.lines) (text.drop n) pieces
        lastLine →
      Cutting offset line text pieces lastLine
  /-- No rule matches at any character of `run`. -/
  | unmatched {offset line lastLine : Nat} {run rest : List Char} {pieces : List Piece} :
      run ≠ [] → (∀ before after, run = before ++ after → after ≠ [] →
        Rule.longest? (after ++ rest) = none) →
      Cutting (offset + Utf8.width run) line rest pieces lastLine →
      Cutting offset line (run ++ rest)
        (⟨none, ⟨offset, offset + Utf8.width run⟩, line⟩ :: pieces) lastLine

/-- The pieces of `text`, which starts at byte `offset` on line `line`, and the
    line that it ends on. Unmatched characters are pieces one by one. -/
def cut (offset line : Nat) (text : List Char) : List Piece × Nat :=
  match text with
  | [] => ([], line)
  | c :: rest =>
    match _ : Rule.longest? (c :: rest) with
    | none =>
      let (pieces, lastLine) := cut (offset + c.utf8Size) line rest
      (⟨none, ⟨offset, offset + c.utf8Size⟩, line⟩ :: pieces, lastLine)
    | some (rule, n) =>
      let lexeme := (c :: rest).take n
      let stop := offset + Utf8.width lexeme
      match rule.token? lexeme with
      | some token =>
        let (pieces, lastLine) := cut stop line ((c :: rest).drop n)
        (⟨some token, ⟨offset, stop⟩, line⟩ :: pieces, lastLine)
      | none => cut stop (line + rule.lines) ((c :: rest).drop n)
termination_by text.length
decreasing_by
  · simp
  all_goals
    have := Rule.longest?_pos (by assumption)
    simp only [List.length_drop, List.length_cons]
    omega

end Piece

end FloatLang
