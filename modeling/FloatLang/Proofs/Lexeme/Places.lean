import FloatLang.Lexeme.Located
import FloatLang.Proofs.Grammar.Positions
import FloatLang.Proofs.Lexeme.Matching

/-! # Located Tokens Stand at Places

  However a text in memory is cut into pieces, its located tokens are those of
  the places that the grammar has for it.

  The pieces are followed from left to right. `Reached before rest offset line`
  says what holds between two of them: `offset` and `line` are those of the text
  before, and no line terminator is cut in two.

  - `Piece.Cutting.ofPieces_eq`: what a cutting gives from any place on.
  - `ofCut_eq_places`: what it gives for a whole text.
  - `Piece.cutting_cut`: the pieces of `cut` are a cutting.
-/

namespace FloatLang

/-- The token that stands at a place, with its bytes and its line. -/
def Place.located (p : Place) : Located where
  token := .ofLexeme p.lexeme
  span := ⟨Utf8.width p.before, Utf8.width p.before + Utf8.width p.lexeme⟩
  line := (Cursor.start.pastAll p.before).position.line

/-! ## Lines and columns -/

/-- Counted in bytes a text is as long as it is wide. -/
theorem endOffset_utf8Size (offset : Nat) (text : List Char) :
    endOffset Char.utf8Size offset text = offset + Utf8.width text := by
  induction text generalizing offset with
  | nil => rfl
  | cons c rest ih => rw [endOffset, ih, Utf8.width_cons, Nat.add_assoc]

/-- The cursor at a place has the line and column that counting gives at its
    first byte. -/
theorem Place.Fits.position {whole after : List Char} {p : Place} (h : p.Fits whole after) :
    (Cursor.start.pastAll p.before).position
      = ⟨lineAt Char.utf8Size whole (Utf8.width p.before),
          columnAt Char.utf8Size whole (Utf8.width p.before)⟩ := by
  have hcount := h.counted Char.utf8Size_pos
  rwa [endOffset_utf8Size, Nat.zero_add] at hcount

/-! ## Between two pieces -/

/-- Between two pieces: what is before ends at byte `offset` on line `line`, and
    no line terminator is cut in two. -/
structure Reached (before rest : List Char) (offset line : Nat) : Prop where
  /-- The bytes before. -/
  bytes : offset = Utf8.width before
  /-- The lines before. -/
  lines : line = (Cursor.start.pastAll before).position.line
  /-- A carriage return before is not completed behind. -/
  seam : (Cursor.start.pastAll before).afterReturn = true → rest.head? ≠ some '\n'

namespace Reached

variable {before rest piece : List Char} {offset line : Nat}

theorem start (text : List Char) : Reached [] text 0 1 :=
  ⟨rfl, rfl, fun h => absurd h (by decide)⟩

/-- Past a piece within a line. -/
theorem inLine (h : Reached before (piece ++ rest) offset line)
    (hpiece : ∀ c ∈ piece, endsLine c = false) (hne : piece ≠ []) :
    Reached (before ++ piece) rest (offset + Utf8.width piece) line := by
  obtain ⟨hline, hreturn⟩ := Cursor.line_pastAll hpiece (Cursor.start.pastAll before)
  refine ⟨by rw [h.bytes, Utf8.width_append], ?_, ?_⟩
  · rw [Cursor.pastAll_append, hline, h.lines]
  · intro hafter
    rw [Cursor.pastAll_append, hreturn hne] at hafter
    cases hafter

/-- Past a whole line terminator. -/
theorem lineEnd (h : Reached before (piece ++ rest) offset line)
    (hpiece : piece = ['\r', '\n'] ∨ piece = ['\n'] ∨
      piece = ['\r'] ∧ rest.head? ≠ some '\n') :
    Reached (before ++ piece) rest (offset + Utf8.width piece) (line + 1) := by
  have hcursor : Cursor.start.pastAll (before ++ piece)
      = ⟨⟨line + 1, 1⟩, decide (piece = ['\r'])⟩ := by
    rw [Cursor.pastAll_append, h.lines]
    rcases hpiece with rfl | rfl | ⟨rfl, _⟩
    · rw [Cursor.pastAll_cons, Cursor.past_endsLine (by decide) (fun _ => by decide)]
      rfl
    · -- no carriage return is before, or the line feed would complete it
      have hfeed : (Cursor.start.pastAll before).afterReturn = true → '\n' ≠ '\n' := by
        intro hafter
        exact absurd rfl (h.seam hafter)
      rw [Cursor.pastAll_cons, Cursor.past_endsLine (by decide) hfeed]
      rfl
    · rw [Cursor.pastAll_cons, Cursor.past_endsLine (by decide) (fun _ => by decide)]
      rfl
  refine ⟨by rw [h.bytes, Utf8.width_append], by rw [hcursor], ?_⟩
  intro hafter
  rw [hcursor] at hafter
  rcases hpiece with rfl | rfl | ⟨rfl, hrest⟩
  · simp at hafter
  · simp at hafter
  · exact hrest

/-- Past a lexeme. -/
theorem lexeme {text : List Char} (h : Reached before text offset line)
    (hlexeme : IsLexeme (firstLexeme text)) :
    Reached (before ++ firstLexeme text) (text.drop (firstLexeme text).length)
      (offset + Utf8.width (firstLexeme text)) line := by
  apply inLine ?_ (fun c hc => hlexeme.endsLine_eq_false hc) hlexeme.ne_nil
  rwa [firstLexeme_append_drop]

/-- Past operators. -/
theorem operators (h : Reached before (piece ++ rest) offset line)
    (hpiece : ∀ c ∈ piece, isOperator c = true) (hne : piece ≠ []) :
    Reached (before ++ piece) rest (offset + Utf8.width piece) line := by
  apply inLine h ?_ hne
  intro c hc
  exact (IsLexeme.operator (hpiece c hc)).endsLine_eq_false (List.mem_singleton.mpr rfl)

end Reached

/-! ## Runs of operators -/

namespace Located

variable {before run rest text : List Char} {offset line : Nat}

/-- No symbol of a run ends behind the run. -/
theorem stop_le_of_mem_symbols {s : Located}
    (h : s ∈ symbols line offset (offset + Utf8.width run) (run ++ rest)) :
    s.span.stop ≤ offset + Utf8.width run := by
  induction run generalizing offset with
  | nil => cases rest <;> simp [symbols] at h
  | cons c run ih =>
    rw [Utf8.width_cons, List.cons_append, symbols] at h
    rw [Utf8.width_cons]
    split at h
    · simp at h
    · rcases List.mem_cons.mp h with rfl | hmem
      · show offset + c.utf8Size ≤ _
        omega
      · rw [← Nat.add_assoc] at hmem
        have := ih hmem
        omega

/-- Operators stand at places one by one, and are symbols one by one. -/
theorem places_operators (hrun : ∀ c ∈ run, isOperator c = true)
    (hreached : Reached before (run ++ rest) offset line) :
    (places before (run ++ rest)).map Place.located
      = symbols line offset (offset + Utf8.width run) (run ++ rest)
        ++ (places (before ++ run) rest).map Place.located := by
  induction run generalizing before offset with
  | nil => cases rest <;> simp [symbols]
  | cons c run ih =>
    obtain ⟨htrivia, halpha, hnumeral⟩ := not_of_isOperator (hrun c (by simp))
    have hfirst : firstLexeme (c :: (run ++ rest)) = [c] := by
      rw [firstLexeme, if_neg halpha, if_neg hnumeral]
    -- the first operator is a place by itself
    have hnext : Reached (before ++ [c]) (run ++ rest) (offset + Utf8.width [c]) line :=
      Reached.operators hreached (by simp [hrun]) (List.cons_ne_nil _ _)
    have htail : ∀ d ∈ run, isOperator d = true := by
      intro d hd
      exact hrun d (List.mem_cons_of_mem c hd)
    have hrest := ih htail hnext
    have hplace : Place.located ⟨before, [c]⟩
        = ⟨.symbol c, ⟨offset, offset + c.utf8Size⟩, line⟩ := by
      rw [Place.located, Token.ofLexeme, if_neg halpha, if_neg hnumeral, ← hreached.bytes,
        ← hreached.lines]
      rfl
    have hwithin : ¬ offset + Utf8.width (c :: run) ≤ offset := by
      have hpos := Utf8.width_pos (List.cons_ne_nil c run)
      omega
    rw [List.cons_append, places_lexeme (c := c) rfl htrivia, hfirst, List.map_cons, hplace,
      symbols, if_neg hwithin, List.cons_append]
    have hdrop : (c :: (run ++ rest)).drop [c].length = run ++ rest := rfl
    have hwidth : offset + Utf8.width [c] = offset + c.utf8Size := rfl
    rw [hwidth, List.append_assoc, Nat.add_assoc] at hrest
    rw [hdrop, hrest]
    rfl

/-- An unmatched piece gives the symbols of its run, and they end where it
    does. -/
theorem ofPieces_unmatched {whole : List Char} {symbolsEnd : Nat} (pieces : List Piece)
    (hreached : Reached before (run ++ rest) offset line) (hwhole : whole = before ++ (run ++ rest))
    (hsymbols : symbolsEnd ≤ offset) :
    ∃ symbolsEnd', symbolsEnd' ≤ offset + Utf8.width run ∧
      ofPieces whole symbolsEnd (⟨none, ⟨offset, offset + Utf8.width run⟩, line⟩ :: pieces)
        = symbols line offset (offset + Utf8.width run) (run ++ rest)
          ++ ofPieces whole symbolsEnd' pieces := by
  have hdrop : Utf8.dropBytes offset whole = run ++ rest := by
    rw [hwhole, hreached.bytes, Utf8.dropBytes_width]
  -- no symbol before reaches into the run
  have hfresh : ¬ offset < symbolsEnd := Nat.not_lt.mpr hsymbols
  refine ⟨_, ?_, by simp only [ofPieces, if_neg hfresh, hdrop]; rfl⟩
  cases hlast : (symbols line offset (offset + Utf8.width run) (run ++ rest)).getLast? with
  | none => exact Nat.le_trans hsymbols (Nat.le_add_right _ _)
  | some s => exact stop_le_of_mem_symbols (List.mem_of_getLast? hlast)

end Located

/-! ## Whole texts -/

namespace Piece

open Located

/-- **What a cutting gives**: from any place on, the located tokens of the pieces
    are those of the places that follow. -/
theorem Cutting.ofPieces_eq {offset line lastLine : Nat} {text : List Char} {pieces : List Piece}
    (h : Cutting offset line text pieces lastLine) {before whole : List Char} {symbolsEnd : Nat}
    (hreached : Reached before text offset line) (hwhole : whole = before ++ text)
    (hsymbols : symbolsEnd ≤ offset) :
    ofPieces whole symbolsEnd pieces
        ++ [⟨.endOfInput, ⟨Utf8.width whole, Utf8.width whole⟩, lastLine⟩]
      = (places before text).map Place.located := by
  induction h generalizing before symbolsEnd with
  | done =>
    rw [List.append_nil] at hwhole
    rw [hwhole, places_nil, hreached.lines]
    rfl
  | @token offset line lastLine n text pieces rule token hlongest htoken _ ih =>
    obtain ⟨c, hc, hstop, rfl, rfl⟩ := Rule.firstLexeme_of_longest? hlongest htoken
    rw [Rule.take_firstLexeme] at ih ⊢
    have hlexeme : IsLexeme (firstLexeme text) := by
      obtain ⟨rest, rfl⟩ := List.head?_eq_some_iff.mp hc
      exact isLexeme_firstLexeme hstop
    -- the other pieces go on behind the lexeme
    have hrest := ih (hreached.lexeme hlexeme)
      (by rw [hwhole, List.append_assoc, firstLexeme_append_drop])
      (Nat.le_trans hsymbols (Nat.le_add_right _ _))
    rw [places_lexeme hc hstop, List.map_cons, ← hrest, Place.located, ← hreached.bytes,
      ← hreached.lines]
    rfl
  | @skipped offset line lastLine n text pieces rule hlongest htoken _ ih =>
    obtain ⟨piece, rest, rfl, rfl, hne, htrivia, hlines⟩ :=
      Rule.trivia_of_longest? hlongest htoken
    -- a piece that is passed over holds no place
    rw [List.take_left, List.drop_left] at ih
    rw [places_trivia htrivia]
    apply ih ?_ (by rw [hwhole, List.append_assoc]) (Nat.le_trans hsymbols (Nat.le_add_right _ _))
    rcases hlines with ⟨hnone, hpiece⟩ | ⟨hone, hpiece⟩
    · rw [hnone]
      exact hreached.inLine hpiece hne
    · rw [hone]
      exact hreached.lineEnd hpiece
  | @unmatched offset line lastLine run rest pieces hne hnone _ ih =>
    -- no rule matches at any character of the run, so each is an operator
    have hrun : ∀ c ∈ run, isOperator c = true := by
      intro c hc
      obtain ⟨a, b, rfl⟩ := List.append_of_mem hc
      exact Rule.isOperator_of_longest? (hnone a (c :: b) rfl (List.cons_ne_nil _ _))
    obtain ⟨symbolsEnd', hend, hpieces⟩ := ofPieces_unmatched pieces hreached hwhole hsymbols
    have hrest := ih (hreached.operators hrun hne) (by rw [hwhole, List.append_assoc]) hend
    rw [hpieces, places_operators hrun hreached, ← hrest, List.append_assoc]

/-- Operators can be one unmatched piece. -/
theorem Cutting.operators {offset line lastLine : Nat} {run rest : List Char} {pieces : List Piece}
    (hrun : ∀ c ∈ run, isOperator c = true) (hne : run ≠ [])
    (h : Cutting (offset + Utf8.width run) line rest pieces lastLine) :
    Cutting offset line (run ++ rest)
      (⟨none, ⟨offset, offset + Utf8.width run⟩, line⟩ :: pieces) lastLine := by
  refine .unmatched hne ?_ h
  intro before after heq hafter
  obtain ⟨c, tail, rfl⟩ := List.exists_cons_of_ne_nil hafter
  apply Rule.longest?_of_isOperator
  apply hrun c
  rw [heq]
  exact List.mem_append_right before List.mem_cons_self

/-- The pieces of `cut` are a cutting. -/
theorem cutting_cut (offset line : Nat) (text : List Char) :
    Cutting offset line text (cut offset line text).1 (cut offset line text).2 := by
  fun_induction cut offset line text with
  | case1 => exact .done
  | case2 offset line c rest hnone pieces lastLine hcut ih =>
    rw [hcut] at ih
    have hunmatched : ∀ before after, [c] = before ++ after → after ≠ [] →
        Rule.longest? (after ++ rest) = none := by
      intro before after heq hne
      obtain rfl : after = [c] := by
        cases before with
        | nil => exact heq.symm
        | cons d before => simp_all
      exact hnone
    exact .unmatched (List.cons_ne_nil c []) hunmatched ih
  | case3 offset line c rest rule n hlongest lexeme stop token htoken pieces lastLine hcut ih =>
    rw [hcut] at ih
    exact .token hlongest htoken ih
  | case4 offset line c rest rule n hlongest lexeme stop htoken ih =>
    exact .skipped hlongest htoken ih

end Piece

/-- The located tokens of a whole text, however it is cut, are those of its
    places. -/
theorem Located.ofCut_eq_places {text : List Char} {pieces : List Piece} {lastLine : Nat}
    (h : Piece.Cutting 0 1 text pieces lastLine) :
    ofCut text pieces lastLine = (places [] text).map Place.located :=
  h.ofPieces_eq (.start text) rfl (Nat.le_refl 0)

/-- What holds of the tokens at the places of a text holds of its located tokens,
    however it is cut. -/
theorem Located.of_places {P : List Char → List Located → Prop}
    (h : ∀ text, P text ((places [] text).map Place.located)) :
    (∀ text : String, P text.toList (ofText text)) ∧
    (∀ {text : List Char} {pieces : List Piece} {lastLine : Nat},
      Piece.Cutting 0 1 text pieces lastLine → P text (ofCut text pieces lastLine)) := by
  have hcut {text : List Char} {pieces : List Piece} {lastLine : Nat}
      (hcutting : Piece.Cutting 0 1 text pieces lastLine) :
      P text (ofCut text pieces lastLine) := by
    rw [ofCut_eq_places hcutting]
    exact h text
  exact ⟨fun text => hcut (Piece.cutting_cut 0 1 text.toList), hcut⟩

end FloatLang
