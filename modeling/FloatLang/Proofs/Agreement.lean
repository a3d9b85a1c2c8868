import FloatLang.Proofs.Lexeme.Places
import FloatLang.Proofs.Lexer.Places

/-! # The Two Lexers Agree

  A whole text in memory and the same text as a stream give the same tokens at
  the same places, however the text in memory is cut into pieces: both go
  through the places that the grammar has for the text.

  - **Tokens and lines** are equal one by one.
  - **Columns** of the stream are those that counting gives at the first byte
    of the token in memory.

  Main statement: `located_agrees_with_tokens`.
-/

namespace FloatLang

/-- The located tokens are those that a lexer returns over `text`. -/
structure Agrees (text : List Char) (located : List Located) : Prop where
  /-- There are as many. -/
  length_eq : located.length = (Lexer.ofStream text).tokens.1.length
  /-- They are the same tokens. -/
  token_eq : ∀ k (h : k < located.length) (h' : k < (Lexer.ofStream text).tokens.1.length),
    located[k].token = (Lexer.ofStream text).tokens.1[k].1
  /-- They are on the same lines. -/
  line_eq : ∀ k (h : k < located.length) (h' : k < (Lexer.ofStream text).tokens.1.length),
    located[k].line = (Lexer.ofStream text).tokens.1[k].2.line
  /-- They are in the columns that counting gives. -/
  column_eq : ∀ k (h : k < located.length) (h' : k < (Lexer.ofStream text).tokens.1.length),
    (Lexer.ofStream text).tokens.1[k].2.column
      = columnAt Char.utf8Size text located[k].span.start

/-- The tokens at the places of a text agree with its lexer. -/
theorem agrees_places (text : List Char) : Agrees text ((places [] text).map Place.located) := by
  have htokens := Lexer.tokens_ofStream text
  have htiled : Tiled text [] (places [] text) := tiled_places rfl
  constructor
  case length_eq => simp [htokens]
  case token_eq =>
    intro k h h'
    simp [htokens, Place.located, Place.positioned]
  case line_eq =>
    intro k h h'
    simp [htokens, Place.located, Place.positioned]
  case column_eq =>
    intro k h h'
    have hk : k < (places [] text).length := by simpa using h
    -- no place cuts a line terminator in two, so a cursor and counting agree there
    obtain ⟨after, hfits⟩ := htiled.fits (List.getElem_mem hk)
    have hcolumn := congrArg Position.column hfits.position
    simpa [htokens, Place.located, Place.positioned] using hcolumn

/-- **The two lexers agree** on every text, and however it is cut. -/
theorem located_agrees_with_tokens :
    (∀ text : String, Agrees text.toList (Located.ofText text)) ∧
    (∀ {text : List Char} {pieces : List Piece} {lastLine : Nat},
      Piece.Cutting 0 1 text pieces lastLine →
      Agrees text (Located.ofCut text pieces lastLine)) :=
  Located.of_places agrees_places

/-- Two operators in one piece, and a line terminator of two characters. -/
theorem located_agrees_with_tokens_run :
    Piece.Cutting 0 1 ['a', '+', 'é', '\r', '\n', '1']
      [⟨some (.identifier "a"), ⟨0, 1⟩, 1⟩, ⟨none, ⟨1, 4⟩, 1⟩,
        ⟨some (.ofNumeral ['1']), ⟨6, 7⟩, 2⟩] 2 ∧
    Agrees ['a', '+', 'é', '\r', '\n', '1']
      [⟨.identifier "a", ⟨0, 1⟩, 1⟩, ⟨.symbol '+', ⟨1, 2⟩, 1⟩, ⟨.symbol 'é', ⟨2, 4⟩, 1⟩,
        ⟨.ofNumeral ['1'], ⟨6, 7⟩, 2⟩, ⟨.endOfInput, ⟨7, 7⟩, 2⟩] := by
  have hend : Piece.Cutting 7 2 [] [] 2 := .done
  have hnumeral : Piece.Cutting 6 2 ['1'] [⟨some (.ofNumeral ['1']), ⟨6, 7⟩, 2⟩] 2 :=
    .token (show Rule.longest? _ = some (.numeral, 1) by decide) rfl hend
  have hline : Piece.Cutting 4 1 ['\r', '\n', '1'] [⟨some (.ofNumeral ['1']), ⟨6, 7⟩, 2⟩] 2 :=
    .skipped (show Rule.longest? _ = some (.lineEnd, 2) by decide) rfl hnumeral
  have hrun : Piece.Cutting 1 1 (['+', 'é'] ++ ['\r', '\n', '1'])
      [⟨none, ⟨1, 4⟩, 1⟩, ⟨some (.ofNumeral ['1']), ⟨6, 7⟩, 2⟩] 2 := by
    refine .unmatched (List.cons_ne_nil _ _) ?_ hline
    intro before after heq hne
    obtain rfl | rfl : after = ['+', 'é'] ∨ after = ['é'] := by
      match before, heq with
      | [], heq => exact .inl heq.symm
      | [_], heq => exact .inr (List.cons.inj heq).2.symm
      | [_, _], heq => exact absurd (List.cons.inj (List.cons.inj heq).2).2.symm hne
      | _ :: _ :: _ :: _, heq => simp at heq
    · decide
    · decide
  have hcut : Piece.Cutting 0 1 ['a', '+', 'é', '\r', '\n', '1']
      [⟨some (.identifier "a"), ⟨0, 1⟩, 1⟩, ⟨none, ⟨1, 4⟩, 1⟩,
        ⟨some (.ofNumeral ['1']), ⟨6, 7⟩, 2⟩] 2 :=
    .token (show Rule.longest? _ = some (.word, 1) by decide) rfl hrun
  exact ⟨hcut, located_agrees_with_tokens.2 hcut⟩

end FloatLang
