import FloatLang.Proofs.Grammar.Seam
import FloatLang.Proofs.Lexeme.Places
import FloatLang.Proofs.Lexer.Places

/-! # Line by Line

  Behind a line feed a lexer is as good as new, whatever came before it: an open
  comment, half a word, a carriage return. So two texts with a line feed between
  them have the tokens of the first and then the tokens of the second, further
  down by the lines of the first.

  - **A cursor starts over** (`Cursor.pastAll_lineFeed`): past a line feed it
    differs from a fresh one in its line only.
  - **Joined** (`Joined`): a run over two texts, told by the runs over each.

  Main statement: `joined_lineFeed`.
-/

namespace FloatLang

/-! ## Further down -/

/-- The position `n` lines further down. -/
def Position.down (n : Nat) (p : Position) : Position :=
  { p with line := p.line + n }

/-- The cursor `n` lines further down. -/
def Cursor.down (n : Nat) (k : Cursor) : Cursor :=
  { k with position := k.position.down n }

/-- The token `n` lines further down and `w` bytes further on. -/
def Located.down (n w : Nat) (s : Located) : Located where
  token := s.token
  span := ⟨s.span.start + w, s.span.stop + w⟩
  line := s.line + n

/-- The number of line terminators of a text. -/
def terminatorCount (text : List Char) : Nat :=
  (terminatorEnds (fun _ => 1) 0 text).length

/-! ## Cursors -/

namespace Cursor

variable (n : Nat) (k : Cursor)

theorem past_down (c : Char) : (k.down n).past c = (k.past c).down n := by
  unfold past
  by_cases hfeed : (c == '\n' && k.afterReturn) = true
  · rw [if_pos hfeed, if_pos (show (c == '\n' && (k.down n).afterReturn) = true from hfeed)]
    rfl
  · rw [if_neg hfeed, if_neg (show ¬ (c == '\n' && (k.down n).afterReturn) = true from hfeed)]
    by_cases hends : endsLine c = true
    · rw [if_pos hends, if_pos hends]
      simp only [down, Position.down, Nat.add_right_comm]
    · rw [if_neg hends, if_neg hends]
      rfl

/-- A cursor moves in the same way further down. -/
theorem pastAll_down (cs : List Char) : (k.down n).pastAll cs = (k.pastAll cs).down n := by
  induction cs generalizing k with
  | nil => rfl
  | cons c cs ih => rw [pastAll_cons, pastAll_cons, past_down, ih]

/-- Behind a carriage return a line starts. -/
theorem column_of_afterReturn {k : Cursor} (hk : k.afterReturn = true → k.position.column = 1)
    (cs : List Char) :
    (k.pastAll cs).afterReturn = true → (k.pastAll cs).position.column = 1 := by
  induction cs generalizing k with
  | nil => exact hk
  | cons c cs ih =>
    apply ih
    unfold past
    split
    · exact fun h => absurd h Bool.false_ne_true
    · split
      · exact fun _ => rfl
      · exact fun h => absurd h Bool.false_ne_true

/-- Past a text the line is one more than it has terminators. -/
theorem line_pastAll_start (text : List Char) :
    (start.pastAll text).position.line = 1 + terminatorCount text := by
  -- every terminator of a text ends in it, so all are counted
  have hupTo : endsUpTo (fun _ => 1) 0 text (endOffset (fun _ => 1) 0 text)
      = terminatorEnds (fun _ => 1) 0 text := by
    rw [endsUpTo, List.filter_eq_self]
    intro e he
    exact decide_eq_true (le_of_mem_terminatorEnds he)
  have hcount : (start.pastAll text).position.line
      = lineAt (fun _ => 1) (text ++ []) (endOffset (fun _ => 1) 0 text) :=
    congrArg Position.line (position_pastAll (fun _ => Nat.one_pos) (by simp))
  rw [hcount, List.append_nil, lineAt, hupTo, terminatorCount]

/-- **A cursor starts over** behind a line feed. -/
theorem pastAll_lineFeed (a : List Char) :
    start.pastAll (a ++ ['\n']) = start.down (terminatorCount (a ++ ['\n'])) := by
  have hcolumn : (start.pastAll (a ++ ['\n'])).position.column = 1 ∧
      (start.pastAll (a ++ ['\n'])).afterReturn = false := by
    rw [pastAll_append, pastAll_cons, pastAll_nil, past]
    split
    · next hfeed =>
      -- the feed completes the terminator that the return before it has counted
      have hreturn : (start.pastAll a).afterReturn = true := (Bool.and_eq_true_iff.mp hfeed).2
      exact ⟨column_of_afterReturn (fun _ => rfl) a hreturn, rfl⟩
    · exact ⟨rfl, rfl⟩
  calc start.pastAll (a ++ ['\n'])
      = ⟨⟨(start.pastAll (a ++ ['\n'])).position.line,
          (start.pastAll (a ++ ['\n'])).position.column⟩,
          (start.pastAll (a ++ ['\n'])).afterReturn⟩ := rfl
    _ = start.down (terminatorCount (a ++ ['\n'])) := by
      rw [line_pastAll_start, hcolumn.1, hcolumn.2]
      rfl

end Cursor

/-! ## Two texts -/

/-- The tokens of two texts with a line feed between them: those of the first
    without its end of input, and then those of the second, moved. -/
structure Joined {α : Type} (token : α → Token) (move : α → α) (first second whole : List α) :
    Prop where
  /-- The last token of the first is its end of input. -/
  ended : first.getLast?.map token = some .endOfInput
  /-- All others come first, as they are. -/
  joined : whole = first.dropLast ++ second.map move

/-- What is read off the places of texts is joined if it moves with them. -/
theorem joined_places {α : Type} {token : α → Token} {move : α → α} {a : List Char}
    (f : Place → α) (htoken : ∀ p, token (f p) = .ofLexeme p.lexeme)
    (hmove : ∀ p, f (p.behind (a ++ ['\n'])) = move (f p)) (b : List Char) :
    Joined token move ((places [] a).map f) ((places [] b).map f)
      ((places [] (a ++ '\n' :: b)).map f) := by
  have hbehind := places_behind (a ++ ['\n']) [] b
  rw [List.append_nil] at hbehind
  constructor
  case ended =>
    rw [List.getLast?_map, getLast?_places, Option.map_some, Option.map_some, htoken]
    rfl
  case joined =>
    rw [places_lineFeed, List.nil_append, hbehind, List.map_append, List.map_dropLast,
      List.map_map, List.map_map]
    congr 2
    funext p
    exact hmove p

/-- Where a token stands moves with its place. -/
theorem Place.positioned_behind (a : List Char) (p : Place) :
    (p.behind (a ++ ['\n'])).positioned
      = (p.positioned.1, p.positioned.2.down (terminatorCount (a ++ ['\n']))) := by
  have hcursor : Cursor.start.pastAll (p.behind (a ++ ['\n'])).before
      = (Cursor.start.pastAll p.before).down (terminatorCount (a ++ ['\n'])) := by
    rw [← Cursor.pastAll_down, ← Cursor.pastAll_lineFeed]
    exact Cursor.pastAll_append _ _ _
  rw [positioned, hcursor]
  rfl

/-- So do its bytes and its line. -/
theorem Place.located_behind (a : List Char) (p : Place) :
    (p.behind (a ++ ['\n'])).located
      = p.located.down (terminatorCount (a ++ ['\n'])) (Utf8.width a + 1) := by
  have hline := congrArg (fun t => t.2.line) (p.positioned_behind a)
  have hwidth : Utf8.width (p.behind (a ++ ['\n'])).before
      = Utf8.width p.before + (Utf8.width a + 1) := by
    show Utf8.width (a ++ ['\n'] ++ p.before) = _
    rw [Utf8.width_append, Utf8.width_append, Nat.add_comm]
    rfl
  have hstop : Utf8.width p.before + (Utf8.width a + 1) + Utf8.width p.lexeme
      = Utf8.width p.before + Utf8.width p.lexeme + (Utf8.width a + 1) := Nat.add_right_comm _ _ _
  simp only [located, Located.down, Located.mk.injEq, Span.mk.injEq, hwidth, true_and]
  exact ⟨rfl, hstop, hline⟩

/-- The located tokens of two texts, however they are cut. -/
theorem joined_ofCut {a b : List Char} {first second whole : List Piece} {m n k : Nat}
    (hfirst : Piece.Cutting 0 1 a first m) (hsecond : Piece.Cutting 0 1 b second n)
    (hwhole : Piece.Cutting 0 1 (a ++ '\n' :: b) whole k) :
    Joined Located.token (Located.down (terminatorCount (a ++ ['\n'])) (Utf8.width a + 1))
      (Located.ofCut a first m) (Located.ofCut b second n)
      (Located.ofCut (a ++ '\n' :: b) whole k) := by
  rw [Located.ofCut_eq_places hfirst, Located.ofCut_eq_places hsecond,
    Located.ofCut_eq_places hwhole]
  exact joined_places Place.located (fun _ => rfl) (Place.located_behind a) b

/-- **Line by line**: whatever two texts are, with a line feed between them they have
    the tokens of the first, where they were, and then those of the second, further
    down by the terminators and further on by the bytes of the first and the line
    feed. This holds of a stream and of a text in memory, however it is cut. -/
theorem joined_lineFeed :
    (∀ a b : String,
      Joined id id (tokenize a) (tokenize b) (tokenize (a ++ "\n" ++ b)) ∧
      Joined Prod.fst (fun t => (t.1, t.2.down (terminatorCount (a ++ "\n").toList)))
        (Lexer.ofStream a.toList).tokens.1 (Lexer.ofStream b.toList).tokens.1
        (Lexer.ofStream (a ++ "\n" ++ b).toList).tokens.1 ∧
      Joined Located.token
        (Located.down (terminatorCount (a ++ "\n").toList) (Utf8.width a.toList + 1))
        (Located.ofText a) (Located.ofText b) (Located.ofText (a ++ "\n" ++ b))) ∧
    (∀ {a b : List Char} {first second whole : List Piece} {m n k : Nat},
      Piece.Cutting 0 1 a first m → Piece.Cutting 0 1 b second n →
      Piece.Cutting 0 1 (a ++ '\n' :: b) whole k →
      Joined Located.token (Located.down (terminatorCount (a ++ ['\n'])) (Utf8.width a + 1))
        (Located.ofCut a first m) (Located.ofCut b second n)
        (Located.ofCut (a ++ '\n' :: b) whole k)) := by
  refine ⟨?_, joined_ofCut⟩
  intro a b
  have hfeed : (a ++ "\n").toList = a.toList ++ ['\n'] := String.toList_append
  have hwhole : (a ++ "\n" ++ b).toList = a.toList ++ '\n' :: b.toList := by
    rw [String.toList_append, hfeed, List.append_assoc]
    rfl
  refine ⟨?_, ?_, ?_⟩
  · rw [tokenize_eq_places, tokenize_eq_places, tokenize_eq_places, hwhole]
    exact joined_places (fun p => Token.ofLexeme p.lexeme) (fun _ => rfl) (fun _ => rfl) b.toList
  · rw [Lexer.tokens_ofStream, Lexer.tokens_ofStream, Lexer.tokens_ofStream, hwhole, hfeed]
    exact joined_places Place.positioned (fun _ => rfl) (Place.positioned_behind a.toList) b.toList
  · have hjoined := joined_ofCut (Piece.cutting_cut 0 1 a.toList) (Piece.cutting_cut 0 1 b.toList)
      (Piece.cutting_cut 0 1 (a.toList ++ '\n' :: b.toList))
    rwa [← hwhole, ← hfeed] at hjoined

/-- Two operators, in memory in one piece, and a carriage return that the line feed
    completes. -/
theorem joined_lineFeed_return :
    (∃ first second whole : List (Token × Position),
      first = [(.symbol '+', ⟨1, 1⟩), (.symbol 'é', ⟨1, 2⟩), (.endOfInput, ⟨2, 1⟩)] ∧
      second = [(.ofNumeral ['1'], ⟨1, 1⟩), (.endOfInput, ⟨1, 2⟩)] ∧
      whole = [(.symbol '+', ⟨1, 1⟩), (.symbol 'é', ⟨1, 2⟩), (.ofNumeral ['1'], ⟨2, 1⟩),
        (.endOfInput, ⟨2, 2⟩)] ∧
      (Lexer.ofStream "+é\r".toList).tokens.1 = first ∧
      (Lexer.ofStream "1".toList).tokens.1 = second ∧
      (Lexer.ofStream ("+é\r" ++ "\n" ++ "1").toList).tokens.1 = whole ∧
      Joined Prod.fst (fun t => (t.1, t.2.down 1)) first second whole ∧
      Joined id id (first.map Prod.fst) (second.map Prod.fst) (whole.map Prod.fst)) ∧
    Piece.Cutting 0 1 ['+', 'é', '\r'] [⟨none, ⟨0, 3⟩, 1⟩] 2 ∧
    Piece.Cutting 0 1 ['1'] [⟨some (.ofNumeral ['1']), ⟨0, 1⟩, 1⟩] 1 ∧
    Piece.Cutting 0 1 ['+', 'é', '\r', '\n', '1']
      [⟨none, ⟨0, 3⟩, 1⟩, ⟨some (.ofNumeral ['1']), ⟨5, 6⟩, 2⟩] 2 ∧
    Joined Located.token (Located.down 1 5)
      [⟨.symbol '+', ⟨0, 1⟩, 1⟩, ⟨.symbol 'é', ⟨1, 3⟩, 1⟩, ⟨.endOfInput, ⟨4, 4⟩, 2⟩]
      [⟨.ofNumeral ['1'], ⟨0, 1⟩, 1⟩, ⟨.endOfInput, ⟨1, 1⟩, 1⟩]
      [⟨.symbol '+', ⟨0, 1⟩, 1⟩, ⟨.symbol 'é', ⟨1, 3⟩, 1⟩, ⟨.ofNumeral ['1'], ⟨5, 6⟩, 2⟩,
        ⟨.endOfInput, ⟨6, 6⟩, 2⟩] := by
  have hstream := joined_lineFeed.1 "+é\r" "1"
  have htokens : tokenize "+é\r" = [.symbol '+', .symbol 'é', .endOfInput] ∧
      tokenize "1" = [.ofNumeral ['1'], .endOfInput] ∧
      tokenize ("+é\r" ++ "\n" ++ "1")
        = [.symbol '+', .symbol 'é', .ofNumeral ['1'], .endOfInput] := by
    decide +kernel
  have hpositions : (Lexer.ofStream "+é\r".toList).tokens.1
        = [(.symbol '+', ⟨1, 1⟩), (.symbol 'é', ⟨1, 2⟩), (.endOfInput, ⟨2, 1⟩)] ∧
      (Lexer.ofStream "1".toList).tokens.1
        = [(.ofNumeral ['1'], ⟨1, 1⟩), (.endOfInput, ⟨1, 2⟩)] ∧
      (Lexer.ofStream ("+é\r" ++ "\n" ++ "1").toList).tokens.1
        = [(.symbol '+', ⟨1, 1⟩), (.symbol 'é', ⟨1, 2⟩), (.ofNumeral ['1'], ⟨2, 1⟩),
          (.endOfInput, ⟨2, 2⟩)] := by
    decide +kernel
  have hcount : terminatorCount ("+é\r" ++ "\n").toList = 1 := by decide +kernel
  obtain ⟨hjoined, hjoined', _⟩ := hstream
  rw [htokens.1, htokens.2.1, htokens.2.2] at hjoined
  rw [hpositions.1, hpositions.2.1, hpositions.2.2, hcount] at hjoined'
  have hrun : ∀ c ∈ ['+', 'é'], isOperator c = true := List.all_eq_true.mp (by decide)
  have hnumeral : ∀ offset line, Piece.Cutting offset line ['1']
      [⟨some (.ofNumeral ['1']), ⟨offset, offset + 1⟩, line⟩] line := by
    intro offset line
    exact .token (show Rule.longest? _ = some (.numeral, 1) by decide) rfl .done
  have hreturn : Piece.Cutting 3 1 ['\r'] [] 2 :=
    .skipped (show Rule.longest? _ = some (.lineEnd, 1) by decide) rfl .done
  have hpair : Piece.Cutting 3 1 ['\r', '\n', '1'] [⟨some (.ofNumeral ['1']), ⟨5, 6⟩, 2⟩] 2 :=
    .skipped (show Rule.longest? _ = some (.lineEnd, 2) by decide) rfl (hnumeral 5 2)
  have hfirst : Piece.Cutting 0 1 ['+', 'é', '\r'] [⟨none, ⟨0, 3⟩, 1⟩] 2 :=
    hreturn.operators hrun (List.cons_ne_nil _ _)
  have hwhole : Piece.Cutting 0 1 ['+', 'é', '\r', '\n', '1']
      [⟨none, ⟨0, 3⟩, 1⟩, ⟨some (.ofNumeral ['1']), ⟨5, 6⟩, 2⟩] 2 :=
    hpair.operators hrun (List.cons_ne_nil _ _)
  exact ⟨⟨_, _, _, rfl, rfl, rfl, hpositions.1, hpositions.2.1, hpositions.2.2, hjoined', hjoined⟩,
    hfirst, hnumeral 0 1, hwhole, joined_lineFeed.2 hfirst (hnumeral 0 1) hwhole⟩

end FloatLang
