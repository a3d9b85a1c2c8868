import Mathlib.Data.List.Forall2
import Mathlib.Data.List.TakeWhile
import FloatLang.Proofs.Rendering
import FloatLang.Proofs.Lexeme.Places
import FloatLang.Proofs.Text.LineStyle

/-! # Line Endings

  How the lines of a program end makes no difference. With all line terminators in the
  same style a program has the same tokens, on the same lines and in the same columns.
  Its bytes move by what the terminators before them have gained.

  - **Restyled places** (`places_restyle`): the lexemes of a text stay what they are.
    Only what is before them is restyled.
  - **Moved** (`Moved`): a token of a text in memory, and the same token in the
    restyled text.

  Main statement: `tokens_restyle`.
-/

namespace FloatLang

namespace LineStyle

variable (style : LineStyle)

/-! ## Stretches of a text -/

/-- A text is restyled by going on with what is behind its first part. -/
theorem restyle_append (a b : List Char) :
    style.restyle (a ++ b) = style.restyle a ++ style.writeAll (returnedPast false a) b := by
  rw [restyle_eq_writeAll, restyle_eq_writeAll, writeAll_append]

section inLine
variable {run : List Char} (hrun : ∀ c ∈ run, endsLine c = false) (hne : run ≠ [])
include hrun hne

/-- Past a stretch within a line there is no return to complete. -/
theorem returnedPast_inLine (returned : Bool) (before : List Char) :
    returnedPast returned (before ++ run) = false := by
  have hlast := hrun (run.getLast hne) (List.getLast_mem hne)
  rw [returnedPast, List.getLast?_append, List.getLast?_eq_some_getLast hne]
  exact not_return hlast

/-- Behind such a stretch streaming is as good as new. -/
theorem writeAll_inLine_append (returned : Bool) (rest : List Char) :
    style.writeAll returned (run ++ rest) = run ++ style.writeAll false rest := by
  have hpast := returnedPast_inLine hrun hne returned []
  rw [List.nil_append] at hpast
  rw [writeAll_append, style.writeAll_inLine returned hrun, hpast]

end inLine

/-- A stretch within a line is the same in any style. -/
theorem restyle_append_inLine {run : List Char} (hrun : ∀ c ∈ run, endsLine c = false)
    (before : List Char) : style.restyle (before ++ run) = style.restyle before ++ run := by
  rw [restyle_append, style.writeAll_inLine _ hrun]

/-- What is written for a blank is blank. -/
theorem isBlank_of_mem_write {returned : Bool} {c d : Char} (hc : isBlank c = true)
    (hd : d ∈ style.write returned c) : isBlank d = true := by
  unfold write at hd
  split at hd
  · cases hd
  · split at hd
    · have hends : ∀ e ∈ style.terminator, endsLine e = true := by
        cases style <;> exact List.all_eq_true.mp (by decide)
      exact isBlank_of_endsLine (hends d hd)
    · rwa [List.mem_singleton.mp hd]

/-- A text starts as it did, or with a line end. -/
theorem head?_writeAll (text : List Char) :
    (style.writeAll false text).head? = text.head? ∨
      (∀ c, text.head? = some c → endsLine c = true) ∧
        ∀ d, (style.writeAll false text).head? = some d → endsLine d = true := by
  cases text with
  | nil => exact .inl rfl
  | cons c rest =>
    by_cases hends : endsLine c = true
    · have hwrite : style.write false c = style.terminator :=
        style.write_endsLine false hends fun h => absurd h Bool.false_ne_true
      refine .inr ⟨?_, ?_⟩
      · intro d hd
        rwa [← Option.some.inj hd]
      · intro d hd
        rw [writeAll, hwrite] at hd
        cases style <;> (cases hd; decide)
    · rw [writeAll, style.write_inLine false (Bool.eq_false_iff.mpr hends)]
      exact .inl rfl

/-- A lexeme stays the first one when what is behind it is restyled. -/
theorem firstLexeme_writeAll {lexeme rest : List Char} (hlexeme : IsLexeme lexeme)
    (hfirst : firstLexeme (lexeme ++ rest) = lexeme) :
    firstLexeme (lexeme ++ style.writeAll false rest) = lexeme := by
  rcases style.head?_writeAll rest with hhead | ⟨_, hends⟩
  · exact firstLexeme_replace hhead.symm hfirst
  · apply hlexeme.firstLexeme_append
    intro d hd
    have htrivia : StartsTrivia d := .inl (isBlank_of_endsLine (hends d hd))
    exact htrivia.goesOn_eq_false _

end LineStyle

/-! ## Places -/

/-- The place in a restyled text. -/
def Place.restyled (style : LineStyle) (p : Place) : Place :=
  { p with before := style.restyle p.before }

/-- The lexemes of a restyled text are those of the text. -/
theorem places_writeAll (style : LineStyle) (before text : List Char) :
    places (style.restyle before) (style.writeAll (LineStyle.returnedPast false before) text)
      = (places before text).map (Place.restyled style) := by
  fun_induction places before text with
  | case1 before => exact places_nil _
  | case2 before c rest hblank ih =>
    have hpast : LineStyle.returnedPast false (before ++ [c]) = (c == '\r') := by
      rw [LineStyle.returnedPast, List.getLast?_concat]
      rfl
    have hblanks : ∀ d ∈ style.write (LineStyle.returnedPast false before) c, isBlank d = true :=
      fun d hd => style.isBlank_of_mem_write hblank hd
    rw [style.restyle_append, hpast, LineStyle.writeAll, LineStyle.writeAll, List.append_nil] at ih
    rw [LineStyle.writeAll, places_trivia (trivia_of_isBlank hblanks), ih]
  | case3 before rest hmark ih =>
    have hbody : ∀ c ∈ rest.takeWhile inComment, endsLine c = false := by
      intro c hc
      simpa [inComment] using List.mem_takeWhile_imp hc
    have hrun : ∀ c ∈ commentMark :: rest.takeWhile inComment, endsLine c = false :=
      List.forall_mem_cons.mpr ⟨endsLine_commentMark, hbody⟩
    -- the comment is closed by a line end in either style
    have hclosed : ∀ d, (style.writeAll false (rest.dropWhile inComment)).head? = some d →
        endsLine d = true := by
      rcases style.head?_writeAll (rest.dropWhile inComment) with hhead | ⟨_, hends⟩
      · intro d hd
        have hout := List.head?_dropWhile_not inComment rest
        rw [← hhead, hd] at hout
        simpa [inComment] using hout
      · exact hends
    rw [LineStyle.returnedPast_inLine hrun (List.cons_ne_nil _ _),
      style.restyle_append_inLine hrun] at ih
    have hsplit : commentMark :: rest
        = commentMark :: rest.takeWhile inComment ++ rest.dropWhile inComment := by
      rw [List.cons_append, List.takeWhile_append_dropWhile]
    rw [hsplit, style.writeAll_inLine_append hrun (List.cons_ne_nil _ _),
      places_trivia (trivia_of_comment hbody hclosed), ih]
  | case4 before c rest hblank hmark ih =>
    have hstarts : ¬ StartsTrivia c := by simp [StartsTrivia, hblank, hmark]
    have hlexeme : IsLexeme (firstLexeme (c :: rest)) := isLexeme_firstLexeme hstarts
    have hsplit := firstLexeme_append_drop (c :: rest)
    have hfirst : firstLexeme (firstLexeme (c :: rest)
        ++ (c :: rest).drop (firstLexeme (c :: rest)).length) = firstLexeme (c :: rest) := by
      rw [hsplit]
    generalize (c :: rest).drop (firstLexeme (c :: rest)).length = tail at hsplit hfirst ih ⊢
    generalize firstLexeme (c :: rest) = lexeme at hlexeme hsplit hfirst ih ⊢
    have hrun : ∀ d ∈ lexeme, endsLine d = false := fun d hd => hlexeme.endsLine_eq_false hd
    -- the lexeme is the first one as before, and starts with the same character
    have hfirst' := style.firstLexeme_writeAll hlexeme hfirst
    have hhead : (lexeme ++ style.writeAll false tail).head? = some c := by
      obtain ⟨d, run, rfl⟩ := List.exists_cons_of_ne_nil hlexeme.ne_nil
      rw [List.cons_append] at hsplit
      rw [(List.cons.inj hsplit).1]
      rfl
    rw [LineStyle.returnedPast_inLine hrun hlexeme.ne_nil, style.restyle_append_inLine hrun] at ih
    rw [← hsplit, style.writeAll_inLine_append hrun hlexeme.ne_nil, places_lexeme hhead hstarts,
      hfirst', List.drop_left, ih]
    rfl

/-- **Restyled places**: in a restyled text stand the same lexemes. -/
theorem places_restyle (style : LineStyle) (text : List Char) :
    places [] (style.restyle text) = (places [] text).map (Place.restyled style) := by
  rw [style.restyle_eq_writeAll]
  exact places_writeAll style [] text

/-! ## Lines, columns and bytes -/

/-- A token of a text in memory, and the same token when the text is restyled: it is on
    the same line, and its bytes have moved by what the terminators before them gain. -/
structure Moved (style : LineStyle) (text : List Char) (a b : Located) : Prop where
  /-- It is the same token. -/
  token : b.token = a.token
  /-- It starts on the same line. -/
  line : b.line = a.line
  /-- Its first byte has moved. -/
  start : (b.span.start : Int) = a.span.start + style.growthUpTo text a.span.start
  /-- So has the byte past its last. -/
  stop : (b.span.stop : Int) = a.span.stop + style.growthUpTo text a.span.stop

namespace Place

variable {whole after : List Char} {p : Place}

/-- A lexeme stands within a line. -/
theorem Fits.inLine (h : p.Fits whole after) : ∀ c ∈ p.lexeme, endsLine c = false := by
  intro c hc
  obtain ⟨d, run, hrun⟩ := List.exists_cons_of_ne_nil (List.ne_nil_of_mem hc)
  have hstarts : ¬ StartsTrivia d := by
    apply h.stops d
    rw [hrun]
    rfl
  have hlexeme : IsLexeme p.lexeme := by
    rw [← h.first, hrun]
    exact isLexeme_firstLexeme hstarts
  exact hlexeme.endsLine_eq_false hc

/-- No terminator is cut in two where a lexeme ends. -/
theorem Fits.seam_stop (h : p.Fits whole after) :
    (p.before ++ p.lexeme).getLast? = some '\r' → after.head? ≠ some '\n' := by
  intro hlast
  by_cases hnil : p.lexeme = []
  · have hstart := h.seam_start
    rw [hnil, List.append_nil] at hlast
    rw [hnil] at hstart
    exact hstart hlast
  · -- the last character is one of the lexeme, and ends no line
    rw [List.getLast?_append, List.getLast?_eq_some_getLast hnil] at hlast
    have hreturn : p.lexeme.getLast hnil = '\r' := Option.some.inj hlast
    have hends := h.inLine _ (List.getLast_mem hnil)
    rw [hreturn] at hends
    exact absurd hends (by decide)

/-- A lexeme has the same position in any style. -/
theorem positioned_restyled (style : LineStyle) (p : Place) :
    (p.restyled style).positioned = p.positioned := by
  unfold positioned restyled
  rw [style.position_restyle]

/-- It moves by what the terminators before it gain. -/
theorem moved_restyled (style : LineStyle) (h : p.Fits whole after) :
    Moved style whole p.located (p.restyled style).located := by
  have hstart := style.width_restyle h.seam_start
  have hstop := style.width_restyle h.seam_stop
  rw [← h.split] at hstart
  rw [List.append_assoc, ← h.split, style.restyle_append_inLine h.inLine, Utf8.width_append,
    Utf8.width_append, Int.natCast_add] at hstop
  exact ⟨rfl, congrArg Position.line (style.position_restyle p.before), hstart, hstop⟩

end Place

/-- The tokens at the places of a text move. -/
theorem moved_places (style : LineStyle) (text : List Char) :
    List.Forall₂ (Moved style text) ((places [] text).map Place.located)
      ((places [] (style.restyle text)).map Place.located) := by
  have htiled : Tiled text [] (places [] text) := tiled_places rfl
  rw [places_restyle, List.map_map, List.forall₂_map_left_iff, List.forall₂_map_right_iff,
    List.forall₂_same]
  intro p hp
  obtain ⟨after, hfits⟩ := htiled.fits hp
  exact Place.moved_restyled style hfits

/-- The located tokens of a text move, however the two texts are cut. -/
theorem moved_ofCut {style : LineStyle} {text : List Char} {pieces pieces' : List Piece}
    {m n : Nat} (h : Piece.Cutting 0 1 text pieces m)
    (h' : Piece.Cutting 0 1 (style.restyle text) pieces' n) :
    List.Forall₂ (Moved style text) (Located.ofCut text pieces m)
      (Located.ofCut (style.restyle text) pieces' n) := by
  rw [Located.ofCut_eq_places h, Located.ofCut_eq_places h']
  exact moved_places style text

/-- **Line endings make no difference**: with all of its terminators in the same style a
    text has the same tokens at the same positions, its end of input included. In memory
    it has them on the same lines, at bytes that have moved by what the terminators before
    them gain, however the two texts are cut. -/
theorem tokens_restyle :
    (∀ (style : LineStyle) (text : String),
      (Lexer.ofStream (style.restyle text.toList)).tokens.1
        = (Lexer.ofStream text.toList).tokens.1 ∧
      List.Forall₂ (Moved style text.toList) (Located.ofText text)
        (Located.ofText (String.ofList (style.restyle text.toList)))) ∧
    (∀ {style : LineStyle} {text : List Char} {pieces pieces' : List Piece} {m n : Nat},
      Piece.Cutting 0 1 text pieces m → Piece.Cutting 0 1 (style.restyle text) pieces' n →
      List.Forall₂ (Moved style text) (Located.ofCut text pieces m)
        (Located.ofCut (style.restyle text) pieces' n)) := by
  refine ⟨?_, moved_ofCut⟩
  intro style text
  constructor
  · rw [Lexer.tokens_ofStream, Lexer.tokens_ofStream, places_restyle, List.map_map]
    exact List.map_congr_left fun p _ => p.positioned_restyled style
  · have hmoved := moved_ofCut (Piece.cutting_cut 0 1 text.toList)
      (Piece.cutting_cut 0 1 (style.restyle text.toList))
    unfold Located.ofText
    rwa [String.toList_ofList]

/-- A lone carriage return before a pair, behind two operators in one piece. -/
theorem tokens_restyle_returns :
    ∃ text text' : List Char,
      text = ['+', 'é', '\r', '\r', '\n', '1'] ∧ text' = ['+', 'é', '\n', '\n', '1'] ∧
      LineStyle.lineFeed.restyle text = text' ∧
      terminatorSpans 0 text = [⟨3, 4⟩, ⟨4, 6⟩] ∧
      (Lexer.ofStream text').tokens.1 = (Lexer.ofStream text).tokens.1 ∧
      (Lexer.ofStream text).tokens.1 = [(.symbol '+', ⟨1, 1⟩), (.symbol 'é', ⟨1, 2⟩),
        (.ofNumeral ['1'], ⟨3, 1⟩), (.endOfInput, ⟨3, 2⟩)] ∧
      Piece.Cutting 0 1 text [⟨none, ⟨0, 3⟩, 1⟩, ⟨some (.ofNumeral ['1']), ⟨6, 7⟩, 3⟩] 3 ∧
      Piece.Cutting 0 1 text' [⟨none, ⟨0, 3⟩, 1⟩, ⟨some (.ofNumeral ['1']), ⟨5, 6⟩, 3⟩] 3 ∧
      List.Forall₂ (Moved .lineFeed text)
        [⟨.symbol '+', ⟨0, 1⟩, 1⟩, ⟨.symbol 'é', ⟨1, 3⟩, 1⟩, ⟨.ofNumeral ['1'], ⟨6, 7⟩, 3⟩,
          ⟨.endOfInput, ⟨7, 7⟩, 3⟩]
        [⟨.symbol '+', ⟨0, 1⟩, 1⟩, ⟨.symbol 'é', ⟨1, 3⟩, 1⟩, ⟨.ofNumeral ['1'], ⟨5, 6⟩, 3⟩,
          ⟨.endOfInput, ⟨6, 6⟩, 3⟩] := by
  have hrun : ∀ c ∈ ['+', 'é'], isOperator c = true := List.all_eq_true.mp (by decide)
  have hnumeral (offset : Nat) : Piece.Cutting offset 3 ['1']
      [⟨some (.ofNumeral ['1']), ⟨offset, offset + 1⟩, 3⟩] 3 :=
    .token (show Rule.longest? _ = some (.numeral, 1) by decide) rfl .done
  have hpair : Piece.Cutting 4 2 ['\r', '\n', '1'] [⟨some (.ofNumeral ['1']), ⟨6, 7⟩, 3⟩] 3 :=
    .skipped (show Rule.longest? _ = some (.lineEnd, 2) by decide) rfl (hnumeral 6)
  have hreturn : Piece.Cutting 3 1 ['\r', '\r', '\n', '1']
      [⟨some (.ofNumeral ['1']), ⟨6, 7⟩, 3⟩] 3 :=
    .skipped (show Rule.longest? _ = some (.lineEnd, 1) by decide) rfl hpair
  have hsecond : Piece.Cutting 4 2 ['\n', '1'] [⟨some (.ofNumeral ['1']), ⟨5, 6⟩, 3⟩] 3 :=
    .skipped (show Rule.longest? _ = some (.lineEnd, 1) by decide) rfl (hnumeral 5)
  have hfirst : Piece.Cutting 3 1 ['\n', '\n', '1'] [⟨some (.ofNumeral ['1']), ⟨5, 6⟩, 3⟩] 3 :=
    .skipped (show Rule.longest? _ = some (.lineEnd, 1) by decide) rfl hsecond
  have hcut : Piece.Cutting 0 1 ['+', 'é', '\r', '\r', '\n', '1']
      [⟨none, ⟨0, 3⟩, 1⟩, ⟨some (.ofNumeral ['1']), ⟨6, 7⟩, 3⟩] 3 :=
    hreturn.operators hrun (List.cons_ne_nil _ _)
  have hcut' : Piece.Cutting 0 1 ['+', 'é', '\n', '\n', '1']
      [⟨none, ⟨0, 3⟩, 1⟩, ⟨some (.ofNumeral ['1']), ⟨5, 6⟩, 3⟩] 3 :=
    hfirst.operators hrun (List.cons_ne_nil _ _)
  have hrestyle : LineStyle.lineFeed.restyle ['+', 'é', '\r', '\r', '\n', '1']
      = ['+', 'é', '\n', '\n', '1'] := by decide
  have hspans : terminatorSpans 0 ['+', 'é', '\r', '\r', '\n', '1'] = [⟨3, 4⟩, ⟨4, 6⟩] := by
    decide
  have hstream := (tokens_restyle.1 .lineFeed "+é\r\r\n1").1
  have htext : "+é\r\r\n1".toList = ['+', 'é', '\r', '\r', '\n', '1'] := by decide
  rw [htext, hrestyle] at hstream
  have htokens : (Lexer.ofStream ['+', 'é', '\r', '\r', '\n', '1']).tokens.1
      = [(.symbol '+', ⟨1, 1⟩), (.symbol 'é', ⟨1, 2⟩), (.ofNumeral ['1'], ⟨3, 1⟩),
        (.endOfInput, ⟨3, 2⟩)] := by
    decide +kernel
  have hmoved := tokens_restyle.2 hcut (by rw [hrestyle]; exact hcut')
  rw [hrestyle] at hmoved
  exact ⟨_, _, rfl, rfl, hrestyle, hspans, hstream, htokens, hcut, hcut', hmoved⟩

end FloatLang
