import FloatLang.Proofs.Grammar.Continuation
import FloatLang.Proofs.Lexeme.Places
import FloatLang.Proofs.Lexer.Places

/-! # A Text Cut Short

  What the tokens of the start of a text say about the tokens of the whole text. All
  but the last can be trusted: they are tokens of the whole text, at the same places.
  In the place of the last one the whole text has a token of the same kind.

  - **Spared** (`Spared`): the text behind does not go on with the last token.
  - **Cut short** (`CutShort`): a run over the start of a text, beside a run over the
    whole text.

  Main statement: `cutShort_append`.
-/

namespace FloatLang

/-! ## Runs over a text and its start -/

/-- `b` leaves the last token of `a` as it is: that token does not reach the end of
    `a`, or `b` does not start with a character that its kind goes on over. An empty
    `b` leaves every token as it is, and a symbol is left as it is by every `b`. -/
def Spared (a b : List Char) (located : List Located) : Prop :=
  ∀ s, located.dropLast.getLast? = some s →
    s.span.stop < Utf8.width a ∨ ∀ d, b.head? = some d → s.token.kind.goesOn d = false

/-- The tokens of the start of a text, and those of the whole text. -/
structure CutShort {α : Type} (token : α → Token) (alike : α → α → Prop) (spared : Prop)
    (short long : List α) : Prop where
  /-- The last token of either is its end of input. -/
  ended : short.getLast?.map token = some .endOfInput ∧ long.getLast?.map token = some .endOfInput
  /-- Of the others, all but the last are the first tokens of the whole text. -/
  front : short.dropLast.dropLast <+: long.dropLast
  /-- In the place of the last the whole text has one like it. -/
  last : ∀ t, short.dropLast.getLast? = some t →
    ∃ t', long.dropLast[short.dropLast.length - 1]? = some t' ∧ alike t t'
  /-- If the last is spared, it is a token of the whole text as well. -/
  whole : spared → short.dropLast <+: long.dropLast

/-- The two tokens start at the same position and are of one kind. -/
def AlikeInStream (t t' : Token × Position) : Prop :=
  t'.2 = t.2 ∧ t'.1.kind = t.1.kind

/-- The two tokens start at the same byte on the same line and are of one kind. -/
def AlikeInText (s s' : Located) : Prop :=
  s'.span.start = s.span.start ∧ s'.line = s.line ∧ s'.token.kind = s.token.kind

/-! ## Places -/

/-- In the place of the last lexeme stands the same one, or the same one grown. -/
theorem Continued.eq_nil_or_last {whole b : List Char} {ps qs : List Place}
    (h : Continued whole b ps qs) :
    ps = [] ∨ ∃ front p q, ps = front ++ [p] ∧ front ++ [q] <+: qs ∧
      (q = p ∨ q = p.grown b ∧ IsLexeme p.lexeme ∧ p.before ++ p.lexeme = whole) := by
  cases h with
  | kept hprefix =>
    rcases List.eq_nil_or_concat ps with hnil | ⟨front, p, hps⟩
    · exact .inl hnil
    · rw [List.concat_eq_append] at hps
      rw [hps] at hprefix
      exact .inr ⟨front, p, p, hps, hprefix, .inl rfl⟩
  | @grown front _ p hlexeme hend hprefix =>
    exact .inr ⟨front, p, p.grown b, rfl, hprefix, .inr ⟨rfl, hlexeme, hend⟩⟩

/-- A lexeme does not grow where the text behind it leaves it as it is. -/
theorem grown_of_spared {a b : List Char} {p : Place} (hlexeme : IsLexeme p.lexeme)
    (hend : p.before ++ p.lexeme = a)
    (hspared : p.located.span.stop < Utf8.width a ∨
      ∀ d, b.head? = some d → p.located.token.kind.goesOn d = false) : p.grown b = p := by
  have hstop : p.located.span.stop = Utf8.width a := by
    rw [← hend, Utf8.width_append]
    rfl
  have hgoesOn := hspared.resolve_left (by omega)
  have hfirst : firstLexeme (p.lexeme ++ b) = p.lexeme := hlexeme.firstLexeme_append hgoesOn
  unfold Place.grown
  rw [hfirst]

/-- What is read off the places of a text and of its start is cut short, if nothing but
    the extent of a token changes where its lexeme grows. -/
theorem cutShort_places {α : Type} {token : α → Token} {alike : α → α → Prop} {a b : List Char}
    (f : Place → α) (htoken : ∀ p, token (f p) = .ofLexeme p.lexeme) (hrefl : ∀ t, alike t t)
    (hgrown : ∀ p, IsLexeme p.lexeme → alike (f p) (f (p.grown b))) :
    CutShort token alike (Spared a b ((places [] a).map Place.located))
      ((places [] a).map f) ((places [] (a ++ b)).map f) := by
  have hcontinued : Continued a b (places [] a).dropLast (places [] (a ++ b)).dropLast :=
    continued_places [] a b
  have hended (text : List Char) :
      ((places [] text).map f).getLast?.map token = some .endOfInput := by
    rw [List.getLast?_map, getLast?_places, Option.map_some, Option.map_some, htoken]
    rfl
  rcases hcontinued.eq_nil_or_last with hnil | ⟨front, p, q, hps, hprefix, hq⟩
  · -- without a lexeme there is nothing to say
    constructor
    case ended => exact ⟨hended a, hended (a ++ b)⟩
    all_goals simp [← List.map_dropLast, hnil]
  · constructor
    case ended => exact ⟨hended a, hended (a ++ b)⟩
    all_goals rw [← List.map_dropLast, ← List.map_dropLast, hps]
    case front =>
      rw [← List.map_dropLast, List.dropLast_concat]
      exact ((List.prefix_append front [q]).trans hprefix).map f
    case last =>
      intro t ht
      obtain rfl : f p = t := by simpa using ht
      obtain ⟨others, hothers⟩ := hprefix
      refine ⟨f q, by simp [← hothers], ?_⟩
      rcases hq with rfl | ⟨rfl, hlexeme, _⟩
      · exact hrefl _
      · exact hgrown p hlexeme
    case whole =>
      intro hspared
      have hlast : ((places [] a).map Place.located).dropLast.getLast? = some p.located := by
        rw [← List.map_dropLast, hps]
        simp
      rcases hq with rfl | ⟨rfl, hlexeme, hend⟩
      · exact hprefix.map f
      · rw [grown_of_spared hlexeme hend (hspared _ hlast)] at hprefix
        exact hprefix.map f

/-! ## Both lexers -/

/-- The located tokens, however the texts are cut into pieces. -/
theorem cutShort_ofCut {a b : List Char} {first whole : List Piece} {m n : Nat}
    (hfirst : Piece.Cutting 0 1 a first m) (hwhole : Piece.Cutting 0 1 (a ++ b) whole n) :
    CutShort Located.token AlikeInText (Spared a b (Located.ofCut a first m))
      (Located.ofCut a first m) (Located.ofCut (a ++ b) whole n) := by
  rw [Located.ofCut_eq_places hfirst, Located.ofCut_eq_places hwhole]
  refine cutShort_places Place.located (fun _ => rfl) (fun _ => ⟨rfl, rfl, rfl⟩) ?_
  intro p hlexeme
  exact ⟨rfl, rfl, hlexeme.kind_firstLexeme_append b⟩

/-- **Cut short**: what the tokens of a text say about those of any longer text. This
    holds of a stream and of a text in memory, however it is cut into pieces. -/
theorem cutShort_append :
    (∀ a b : String,
      CutShort Prod.fst AlikeInStream (Spared a.toList b.toList (Located.ofText a))
        (Lexer.ofStream a.toList).tokens.1 (Lexer.ofStream (a ++ b).toList).tokens.1 ∧
      CutShort Located.token AlikeInText (Spared a.toList b.toList (Located.ofText a))
        (Located.ofText a) (Located.ofText (a ++ b))) ∧
    (∀ {a b : List Char} {first whole : List Piece} {m n : Nat},
      Piece.Cutting 0 1 a first m → Piece.Cutting 0 1 (a ++ b) whole n →
      CutShort Located.token AlikeInText (Spared a b (Located.ofCut a first m))
        (Located.ofCut a first m) (Located.ofCut (a ++ b) whole n)) := by
  refine ⟨?_, cutShort_ofCut⟩
  intro a b
  have hcut := Piece.cutting_cut 0 1 a.toList
  have hlocated : Located.ofText a = (places [] a.toList).map Place.located :=
    Located.ofCut_eq_places hcut
  constructor
  · rw [Lexer.tokens_ofStream, Lexer.tokens_ofStream, String.toList_append, hlocated]
    refine cutShort_places Place.positioned (fun _ => rfl) (fun _ => ⟨rfl, rfl⟩) ?_
    intro p hlexeme
    exact ⟨rfl, hlexeme.kind_firstLexeme_append b.toList⟩
  · have hshort := cutShort_ofCut hcut (Piece.cutting_cut 0 1 (a.toList ++ b.toList))
    rwa [← String.toList_append] at hshort

/-- A name that the text behind it makes a keyword. -/
theorem cutShort_append_keyword :
    (∃ short long : List (Token × Position),
      short = [(.identifier "x", ⟨1, 1⟩), (.identifier "de", ⟨1, 3⟩), (.endOfInput, ⟨1, 5⟩)] ∧
      long = [(.identifier "x", ⟨1, 1⟩), (.keyword .definition, ⟨1, 3⟩), (.symbol '+', ⟨1, 6⟩),
        (.symbol 'é', ⟨1, 7⟩), (.endOfInput, ⟨1, 8⟩)] ∧
      (Lexer.ofStream "x de".toList).tokens.1 = short ∧
      (Lexer.ofStream ("x de" ++ "f+é").toList).tokens.1 = long ∧
      CutShort Prod.fst AlikeInStream
        (Spared "x de".toList "f+é".toList (Located.ofText "x de")) short long) ∧
    Piece.Cutting 0 1 ['x', ' ', 'd', 'e']
      [⟨some (.identifier "x"), ⟨0, 1⟩, 1⟩, ⟨some (.identifier "de"), ⟨2, 4⟩, 1⟩] 1 ∧
    Piece.Cutting 0 1 ['x', ' ', 'd', 'e', 'f', '+', 'é']
      [⟨some (.identifier "x"), ⟨0, 1⟩, 1⟩, ⟨some (.keyword .definition), ⟨2, 5⟩, 1⟩,
        ⟨none, ⟨5, 8⟩, 1⟩] 1 ∧
    CutShort Located.token AlikeInText
      (Spared ['x', ' ', 'd', 'e'] ['f', '+', 'é']
        [⟨.identifier "x", ⟨0, 1⟩, 1⟩, ⟨.identifier "de", ⟨2, 4⟩, 1⟩, ⟨.endOfInput, ⟨4, 4⟩, 1⟩])
      [⟨.identifier "x", ⟨0, 1⟩, 1⟩, ⟨.identifier "de", ⟨2, 4⟩, 1⟩, ⟨.endOfInput, ⟨4, 4⟩, 1⟩]
      [⟨.identifier "x", ⟨0, 1⟩, 1⟩, ⟨.keyword .definition, ⟨2, 5⟩, 1⟩, ⟨.symbol '+', ⟨5, 6⟩, 1⟩,
        ⟨.symbol 'é', ⟨6, 8⟩, 1⟩, ⟨.endOfInput, ⟨8, 8⟩, 1⟩] := by
  have hstream := (cutShort_append.1 "x de" "f+é").1
  have hshort : (Lexer.ofStream "x de".toList).tokens.1
      = [(.identifier "x", ⟨1, 1⟩), (.identifier "de", ⟨1, 3⟩), (.endOfInput, ⟨1, 5⟩)] := by
    decide +kernel
  have hlong : (Lexer.ofStream ("x de" ++ "f+é").toList).tokens.1
      = [(.identifier "x", ⟨1, 1⟩), (.keyword .definition, ⟨1, 3⟩), (.symbol '+', ⟨1, 6⟩),
        (.symbol 'é', ⟨1, 7⟩), (.endOfInput, ⟨1, 8⟩)] := by
    decide +kernel
  rw [hshort, hlong] at hstream
  have hname : Piece.Cutting 2 1 ['d', 'e'] [⟨some (.identifier "de"), ⟨2, 4⟩, 1⟩] 1 :=
    .token (show Rule.longest? _ = some (.word, 2) by decide) rfl .done
  have hblank : Piece.Cutting 1 1 [' ', 'd', 'e'] [⟨some (.identifier "de"), ⟨2, 4⟩, 1⟩] 1 :=
    .skipped (show Rule.longest? _ = some (.spaces, 1) by decide) rfl hname
  have hfirst : Piece.Cutting 0 1 ['x', ' ', 'd', 'e']
      [⟨some (.identifier "x"), ⟨0, 1⟩, 1⟩, ⟨some (.identifier "de"), ⟨2, 4⟩, 1⟩] 1 :=
    .token (show Rule.longest? _ = some (.word, 1) by decide) rfl hblank
  have hrun : ∀ c ∈ ['+', 'é'], isOperator c = true := List.all_eq_true.mp (by decide)
  have hend : Piece.Cutting 8 1 [] [] 1 := .done
  have hoperators : Piece.Cutting 5 1 ['+', 'é'] [⟨none, ⟨5, 8⟩, 1⟩] 1 :=
    hend.operators hrun (List.cons_ne_nil _ _)
  have hkeyword : Piece.Cutting 2 1 ['d', 'e', 'f', '+', 'é']
      [⟨some (.keyword .definition), ⟨2, 5⟩, 1⟩, ⟨none, ⟨5, 8⟩, 1⟩] 1 :=
    .token (show Rule.longest? _ = some (.definition, 3) by decide) rfl hoperators
  have hblank' : Piece.Cutting 1 1 [' ', 'd', 'e', 'f', '+', 'é']
      [⟨some (.keyword .definition), ⟨2, 5⟩, 1⟩, ⟨none, ⟨5, 8⟩, 1⟩] 1 :=
    .skipped (show Rule.longest? _ = some (.spaces, 1) by decide) rfl hkeyword
  have hwhole : Piece.Cutting 0 1 ['x', ' ', 'd', 'e', 'f', '+', 'é']
      [⟨some (.identifier "x"), ⟨0, 1⟩, 1⟩, ⟨some (.keyword .definition), ⟨2, 5⟩, 1⟩,
        ⟨none, ⟨5, 8⟩, 1⟩] 1 :=
    .token (show Rule.longest? _ = some (.word, 1) by decide) rfl hblank'
  exact ⟨⟨_, _, rfl, rfl, hshort, hlong, hstream⟩, hfirst, hwhole,
    cutShort_append.2 hfirst hwhole⟩

end FloatLang
