import FloatLang.Proofs.Grammar.Seam
import FloatLang.Proofs.Lexeme.Places

/-! # Located Tokens Tile a Text

  The located tokens of a text account for every byte of it, however the text is
  cut into pieces.

  - **Spelling** (`Spells`): the characters that a token covers determine it.
  - **Covering** (`Covers`): a token covers whole characters, and as many as it
    can.
  - **Gaps** (`TriviaBetween`): what no token covers is trivia.

  Main statement: `located_tiling`.
-/

namespace FloatLang

/-! ## Tilings -/

/-- The token that a slice of text is. -/
inductive Spells : List Char → Token → Prop where
  /-- A reserved word, exactly. -/
  | keyword (k : Keyword) : Spells k.word.toList (.keyword k)
  /-- A letter, then letters and digits, that is no reserved word. -/
  | identifier {c : Char} {rest : List Char} :
      c.isAlpha = true → (∀ d ∈ rest, d.isAlphanum = true) →
      (∀ k : Keyword, c :: rest ≠ k.word.toList) →
      Spells (c :: rest) (.identifier (String.ofList (c :: rest)))
  /-- Digits and points. -/
  | number {run : List Char} :
      run ≠ [] → (∀ d ∈ run, isNumeral d = true) → Spells run (.number (numeralValue run))
  /-- A single character of any other kind. -/
  | symbol {c : Char} : isOperator c = true → Spells [c] (.symbol c)

/-- The token covers `slice`, which stands between `before` and `after`. -/
structure Covers (s : Located) (before slice after : List Char) : Prop where
  /-- The span starts where the slice does. -/
  start_eq : s.span.start = Utf8.width before
  /-- It stops where the slice does. -/
  stop_eq : s.span.stop = Utf8.width (before ++ slice)
  /-- The slice determines the token. -/
  spells : Spells slice s.token
  /-- A word does not go on behind the slice. -/
  word_ends : ∀ c, slice.head? = some c → c.isAlpha = true →
    ∀ d, after.head? = some d → d.isAlphanum = false
  /-- Neither does a numeral. -/
  numeral_ends : ∀ c, slice.head? = some c → isNumeral c = true →
    ∀ d, after.head? = some d → isNumeral d = false

/-- From byte `low` up to byte `high` the text is trivia. -/
def TriviaBetween (text : List Char) (low high : Nat) : Prop :=
  ∃ before gap after, text = before ++ gap ++ after ∧ low = Utf8.width before ∧
    high = Utf8.width (before ++ gap) ∧ Trivia after gap

/-- The tokens tile the text. -/
structure Tiling (text : List Char) (tokens : List Located) : Prop where
  /-- The end of input is the last token, at the end of the text. All others cover
      some of the text. -/
  ends : ∃ front line,
    tokens = front ++ [⟨.endOfInput, ⟨Utf8.width text, Utf8.width text⟩, line⟩] ∧
      ∀ s ∈ front, s.token ≠ .endOfInput ∧ s.span.start < s.span.stop ∧
        ∃ before slice after, text = before ++ slice ++ after ∧ Covers s before slice after
  /-- The spans are in order and do not overlap. -/
  ordered : tokens.Pairwise fun s s' =>
    s.span.start < s'.span.start ∧ s.span.stop ≤ s'.span.start
  /-- Before the first token there is trivia. -/
  head_gap : ∀ h : 0 < tokens.length, TriviaBetween text 0 tokens[0].span.start
  /-- Between two tokens there is trivia. -/
  gap : ∀ k (h : k + 1 < tokens.length),
    TriviaBetween text tokens[k].span.stop tokens[k + 1].span.start
  /-- The line of a token is that of its first byte. -/
  line_eq : ∀ s ∈ tokens, s.line = lineAt Char.utf8Size text s.span.start

/-! ## Lexemes -/

/-- A lexeme determines its token. -/
theorem IsLexeme.spells {lexeme : List Char} (h : IsLexeme lexeme) :
    Spells lexeme (Token.ofLexeme lexeme) := by
  cases h with
  | @word c rest halpha hrest =>
    rw [Token.ofLexeme, if_pos halpha]
    -- a reserved word is spelled like a word as well
    by_cases hkeyword : ∃ k : Keyword, c :: rest = k.word.toList
    · obtain ⟨k, hk⟩ := hkeyword
      rw [Token.ofWord_of_eq hk, hk]
      exact .keyword k
    · rw [not_exists] at hkeyword
      rw [Token.ofWord_of_ne hkeyword]
      exact .identifier halpha hrest hkeyword
  | @numeral c rest hnumeral hrest =>
    rw [Token.ofLexeme, if_neg (not_isAlpha_of_isNumeral hnumeral), if_pos hnumeral]
    refine .number (List.cons_ne_nil _ _) ?_
    intro d hd
    rcases List.mem_cons.mp hd with rfl | hmem
    · exact hnumeral
    · exact hrest d hmem
  | operator hoperator =>
    obtain ⟨_, halpha, hnumeral⟩ := not_of_isOperator hoperator
    rw [Token.ofLexeme, if_neg halpha, if_neg hnumeral]
    exact .symbol hoperator

/-- A place covers its lexeme. -/
theorem Place.Fits.covers {whole after : List Char} {p : Place} (h : p.Fits whole after)
    (hlexeme : IsLexeme p.lexeme) : Covers p.located p.before p.lexeme after where
  start_eq := rfl
  stop_eq := (Utf8.width_append _ _).symm
  spells := hlexeme.spells
  word_ends := by
    intro c hc halpha d hd
    obtain ⟨rest, hrest⟩ := List.head?_eq_some_iff.mp hc
    have hfirst := h.first
    rw [hrest, List.cons_append, firstLexeme, if_pos halpha] at hfirst
    exact (takeWhile_append_eq_left_iff.mp (List.cons.inj hfirst).2).2 d hd
  numeral_ends := by
    intro c hc hnumeral d hd
    have halpha := not_isAlpha_of_isNumeral hnumeral
    obtain ⟨rest, hrest⟩ := List.head?_eq_some_iff.mp hc
    have hfirst := h.first
    rw [hrest, List.cons_append, firstLexeme, if_neg halpha, if_pos hnumeral] at hfirst
    exact (takeWhile_append_eq_left_iff.mp (List.cons.inj hfirst).2).2 d hd

/-- A gap in characters is a gap in bytes. -/
theorem Gap.triviaBetween {whole a b : List Char} (h : Gap whole a b) :
    TriviaBetween whole (Utf8.width a) (Utf8.width b) := by
  obtain ⟨gap, after, rfl, hwhole, htrivia⟩ := h
  exact ⟨a, gap, after, hwhole, rfl, rfl, htrivia⟩

/-! ## The tiling -/

/-- At the places before the last one stand lexemes, and at the last one the end
    of input. -/
theorem ends_places (text : List Char) :
    ∃ front line, (places [] text).map Place.located
        = front ++ [⟨.endOfInput, ⟨Utf8.width text, Utf8.width text⟩, line⟩] ∧
      ∀ s ∈ front, s.token ≠ .endOfInput ∧ s.span.start < s.span.stop ∧
        ∃ before slice after, text = before ++ slice ++ after ∧ Covers s before slice after := by
  have htiled : Tiled text [] (places [] text) := tiled_places rfl
  obtain ⟨front, hplaces, hfront⟩ := htiled.ends
  refine ⟨front.map Place.located, _, by rw [hplaces, List.map_append]; rfl, ?_⟩
  intro s hs
  obtain ⟨p, hp, rfl⟩ := List.mem_map.mp hs
  have hlexeme := hfront p hp
  obtain ⟨after, hfits⟩ := htiled.fits (by rw [hplaces]; exact List.mem_append_left _ hp)
  have hcovers := hfits.covers hlexeme
  have hsplit : text = p.before ++ p.lexeme ++ after := by
    rw [List.append_assoc]
    exact hfits.split
  refine ⟨?_, ?_, p.before, p.lexeme, after, hsplit, hcovers⟩
  · intro hend
    exact hlexeme.ne_nil (Token.ofLexeme_eq_endOfInput_iff.mp hend)
  · have hpos := Utf8.width_pos hlexeme.ne_nil
    rw [hcovers.start_eq, hcovers.stop_eq, Utf8.width_append]
    omega

/-- The tokens at the places of a text tile it. -/
theorem tiling_places (text : List Char) : Tiling text ((places [] text).map Place.located) := by
  have htiled : Tiled text [] (places [] text) := tiled_places rfl
  constructor
  case ends => exact ends_places text
  case ordered =>
    rw [List.pairwise_map]
    apply htiled.ordered.imp
    rintro p q ⟨hne, rest, hbefore⟩
    have hpos := Utf8.width_pos hne
    -- the first token is not empty, and all of it is before the second
    have hwidth := congrArg Utf8.width hbefore
    rw [Utf8.width_append, Utf8.width_append] at hwidth
    show Utf8.width p.before < Utf8.width q.before ∧
      Utf8.width p.before + Utf8.width p.lexeme ≤ Utf8.width q.before
    omega
  case head_gap =>
    intro h
    have hgap := htiled.head_gap (by simpa using h)
    simpa [Place.located] using hgap.triviaBetween
  case gap =>
    intro k h
    have hgap := htiled.gap k (by simpa using h)
    simpa [Place.located] using hgap.triviaBetween
  case line_eq =>
    intro s hs
    obtain ⟨p, hp, rfl⟩ := List.mem_map.mp hs
    obtain ⟨after, hfits⟩ := htiled.fits hp
    exact congrArg Position.line hfits.position

/-- **A tiling**: the located tokens of every text tile it, however it is cut. -/
theorem located_tiling :
    (∀ text : String, Tiling text.toList (Located.ofText text)) ∧
    (∀ {text : List Char} {pieces : List Piece} {lastLine : Nat},
      Piece.Cutting 0 1 text pieces lastLine →
      Tiling text (Located.ofCut text pieces lastLine)) :=
  Located.of_places tiling_places

/-- A keyword right before a comment, and a point right behind a word. -/
theorem located_tiling_comment :
    Piece.Cutting 0 1 ['d', 'e', 'f', '#', 'é', '\r', 'd', '1', '.']
      [⟨some (.keyword .definition), ⟨0, 3⟩, 1⟩, ⟨some (.identifier "d1"), ⟨7, 9⟩, 2⟩,
        ⟨some (.ofNumeral ['.']), ⟨9, 10⟩, 2⟩] 2 ∧
    Tiling ['d', 'e', 'f', '#', 'é', '\r', 'd', '1', '.']
      [⟨.keyword .definition, ⟨0, 3⟩, 1⟩, ⟨.identifier "d1", ⟨7, 9⟩, 2⟩,
        ⟨.ofNumeral ['.'], ⟨9, 10⟩, 2⟩, ⟨.endOfInput, ⟨10, 10⟩, 2⟩] := by
  have hend : Piece.Cutting 10 2 [] [] 2 := .done
  have hnumeral : Piece.Cutting 9 2 ['.'] [⟨some (.ofNumeral ['.']), ⟨9, 10⟩, 2⟩] 2 :=
    .token (show Rule.longest? _ = some (.numeral, 1) by decide) rfl hend
  have hword : Piece.Cutting 7 2 ['d', '1', '.']
      [⟨some (.identifier "d1"), ⟨7, 9⟩, 2⟩, ⟨some (.ofNumeral ['.']), ⟨9, 10⟩, 2⟩] 2 :=
    .token (show Rule.longest? _ = some (.word, 2) by decide) rfl hnumeral
  have hline : Piece.Cutting 6 1 ['\r', 'd', '1', '.']
      [⟨some (.identifier "d1"), ⟨7, 9⟩, 2⟩, ⟨some (.ofNumeral ['.']), ⟨9, 10⟩, 2⟩] 2 :=
    .skipped (show Rule.longest? _ = some (.lineEnd, 1) by decide) rfl hword
  have hcomment : Piece.Cutting 3 1 ['#', 'é', '\r', 'd', '1', '.']
      [⟨some (.identifier "d1"), ⟨7, 9⟩, 2⟩, ⟨some (.ofNumeral ['.']), ⟨9, 10⟩, 2⟩] 2 :=
    .skipped (show Rule.longest? _ = some (.comment, 2) by decide) rfl hline
  have hcut : Piece.Cutting 0 1 ['d', 'e', 'f', '#', 'é', '\r', 'd', '1', '.']
      [⟨some (.keyword .definition), ⟨0, 3⟩, 1⟩, ⟨some (.identifier "d1"), ⟨7, 9⟩, 2⟩,
        ⟨some (.ofNumeral ['.']), ⟨9, 10⟩, 2⟩] 2 :=
    .token (show Rule.longest? _ = some (.definition, 3) by decide) rfl hcomment
  exact ⟨hcut, located_tiling.2 hcut⟩

end FloatLang
