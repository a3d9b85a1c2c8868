import Mathlib.Data.List.Chain
import FloatLang.Proofs.Grammar.Continuation
import FloatLang.Proofs.Lexeme.Tiling
import FloatLang.Proofs.Lexer.Places

/-! # Rendering Tokens

  Lexemes written one after the other, with anything between them that carries no
  meaning, are read back as they were written. What is between them makes no
  difference, as long as there is something where two lexemes would run into one.

  - **Filler** (`Filler`): blanks and closed comments. Only at the end of a text a
    comment may be left open (`LastFiller`).
  - **Spaced** (`Spaced`): a lexeme with the filler in front of it.
  - **Rendered** (`render`): the text of spaced lexemes.

  Main statement: `tokenize_render`.
-/

namespace FloatLang

/-! ## Filler -/

/-- Blanks and comments, in which every comment is closed by a line end. -/
inductive Filler : List Char → Prop where
  /-- Nothing. -/
  | nil : Filler []
  /-- A blank, then more filler. -/
  | blank {c : Char} {filler : List Char} :
      isBlank c = true → Filler filler → Filler (c :: filler)
  /-- A comment and the line end that closes it, then more filler. -/
  | comment {c : Char} {body filler : List Char} :
      (∀ d ∈ body, endsLine d = false) → endsLine c = true → Filler filler →
      Filler (commentMark :: (body ++ c :: filler))

/-- Filler at the end of a text. A last comment may go on to the end. -/
inductive LastFiller : List Char → Prop where
  /-- Every comment is closed. -/
  | closed {filler : List Char} : Filler filler → LastFiller filler
  /-- The last comment is not. -/
  | unclosed {filler body : List Char} :
      Filler filler → (∀ d ∈ body, endsLine d = false) → LastFiller (filler ++ commentMark :: body)

/-- Filler is trivia, whatever comes behind it. -/
theorem Filler.trivia {filler : List Char} (h : Filler filler) (rest : List Char) :
    Trivia rest filler := by
  induction h with
  | nil => exact .nil
  | blank hblank _ ih => exact .blank hblank ih
  | @comment c body filler hbody hends _ ih =>
    refine .comment hbody ?_ (.blank (isBlank_of_endsLine hends) ih)
    intro d hd
    obtain rfl : c = d := Option.some.inj hd
    exact hends

/-- Filler at the end of a text is trivia there. -/
theorem LastFiller.trivia {filler : List Char} (h : LastFiller filler) : Trivia [] filler := by
  cases h with
  | closed hfiller => exact hfiller.trivia []
  | unclosed hfiller hbody =>
    apply (hfiller.trivia _).append
    apply trivia_of_comment hbody
    intro c hc
    cases hc

/-! ## Between two lexemes -/

/-- No token goes on over a character that starts trivia. -/
theorem StartsTrivia.goesOn_eq_false {c : Char} (h : StartsTrivia c) (k : TokenKind) :
    k.goesOn c = false := by
  have halpha := h.not_isAlpha
  have hnumeral := h.not_isNumeral
  unfold TokenKind.goesOn
  cases k with
  | word =>
    rw [isNumeral, Bool.or_eq_false_iff] at hnumeral
    simp [Char.isAlphanum, halpha, hnumeral.1]
  | number => exact hnumeral
  | symbol => rfl
  | ended => rfl

/-- No lexeme starts like trivia. -/
theorem IsLexeme.not_startsTrivia_head {lexeme : List Char} (h : IsLexeme lexeme) {c : Char}
    (hc : lexeme.head? = some c) : ¬ StartsTrivia c := by
  cases h with
  | word halpha _ =>
    obtain rfl := Option.some.inj hc
    exact not_startsTrivia (.inl halpha)
  | numeral hnumeral _ =>
    obtain rfl := Option.some.inj hc
    exact not_startsTrivia (.inr hnumeral)
  | operator hoperator =>
    obtain rfl := Option.some.inj hc
    exact (not_of_isOperator hoperator).1

/-! ## Rendered lexemes -/

/-- A lexeme with the filler in front of it. -/
structure Spaced where
  /-- The filler. -/
  gap : List Char
  /-- The lexeme. -/
  lexeme : List Char
  /-- All comments in the filler are closed. -/
  isFiller : Filler gap
  /-- The lexeme is a word, a run of digits and points, or an operator. -/
  isLexeme : IsLexeme lexeme

namespace Spaced

/-- The token of the lexeme. -/
def token (s : Spaced) : Token := .ofLexeme s.lexeme

/-- With nothing between them the lexeme of `a` would go on into that of `b`: a word
    into letters and digits, a number into digits and points. -/
def RunsInto (a b : Spaced) : Prop :=
  ∃ d, b.lexeme.head? = some d ∧ a.token.kind.goesOn d = true

/-- Something is between any two lexemes of which one would go on into the other. -/
def Apart (spaced : List Spaced) : Prop :=
  spaced.IsChain fun a b => a.RunsInto b → b.gap ≠ []

end Spaced

/-- The text of lexemes with their filler, and the filler behind the last one. -/
def render : List Spaced → List Char → List Char
  | [], last => last
  | s :: spaced, last => s.gap ++ s.lexeme ++ render spaced last

/-- In a rendered text a lexeme does not go on over what is behind it. -/
theorem render_stops {a : Spaced} {spaced : List Spaced} {last : List Char}
    (hapart : Spaced.Apart (a :: spaced)) (hlast : LastFiller last) {d : Char}
    (hd : (render spaced last).head? = some d) : a.token.kind.goesOn d = false := by
  cases spaced with
  | nil =>
    obtain ⟨tail, htail⟩ := List.head?_eq_some_iff.mp hd
    have htrivia := hlast.trivia
    rw [show last = d :: tail from htail] at htrivia
    exact htrivia.head_startsTrivia.goesOn_eq_false _
  | cons b spaced =>
    rw [render, List.append_assoc, List.head?_append] at hd
    by_cases hgap : b.gap = []
    · -- the next lexeme comes at once, so the two do not run into one
      have hruns : ¬ a.RunsInto b := fun hruns => (List.isChain_cons_cons.mp hapart).1 hruns hgap
      obtain ⟨c, run, hlexeme⟩ := List.exists_cons_of_ne_nil b.isLexeme.ne_nil
      obtain rfl : c = d := by simpa [hgap, hlexeme] using hd
      rw [Bool.eq_false_iff]
      intro hgoesOn
      exact hruns ⟨c, by rw [hlexeme]; rfl, hgoesOn⟩
    · obtain ⟨c, gap, hcons⟩ := List.exists_cons_of_ne_nil hgap
      obtain rfl : c = d := by simpa [hcons] using hd
      have htrivia := b.isFiller.trivia []
      rw [hcons] at htrivia
      exact htrivia.head_startsTrivia.goesOn_eq_false _

/-- At the places of a rendered text stand its lexemes. -/
theorem places_render {spaced : List Spaced} {last : List Char} (hapart : Spaced.Apart spaced)
    (hlast : LastFiller last) (before : List Char) :
    (places before (render spaced last)).map (fun p => Token.ofLexeme p.lexeme)
      = spaced.map Spaced.token ++ [.endOfInput] := by
  induction spaced generalizing before with
  | nil =>
    have hplaces := places_trivia hlast.trivia before
    rw [List.append_nil, places_nil] at hplaces
    rw [render, hplaces]
    rfl
  | cons s spaced ih =>
    have hrest : Spaced.Apart spaced := (List.isChain_cons.mp hapart).2
    obtain ⟨c, run, hlexeme⟩ := List.exists_cons_of_ne_nil s.isLexeme.ne_nil
    have hhead : s.lexeme.head? = some c := by rw [hlexeme]; rfl
    have hhead' : (s.lexeme ++ render spaced last).head? = some c := by
      rw [List.head?_append, hhead]
      rfl
    -- the lexeme is the first one behind its filler
    have hfirst : firstLexeme (s.lexeme ++ render spaced last) = s.lexeme :=
      s.isLexeme.firstLexeme_append fun d hd => render_stops hapart hlast hd
    rw [render, List.append_assoc, places_trivia (s.isFiller.trivia _),
      places_lexeme hhead' (s.isLexeme.not_startsTrivia_head hhead), hfirst, List.drop_left,
      List.map_cons, ih hrest]
    rfl

/-- **Rendered and read back**: the tokens of a rendered text are those of its lexemes,
    each the token that its lexeme spells. So they do not depend on the filler. -/
theorem tokenize_render :
    (∀ {spaced : List Spaced} {last : List Char}, Spaced.Apart spaced → LastFiller last →
      tokenize (String.ofList (render spaced last)) = spaced.map Spaced.token ++ [.endOfInput]) ∧
    (∀ s : Spaced, Spells s.lexeme s.token) ∧
    (∀ {spaced spaced' : List Spaced} {last last' : List Char},
      Spaced.Apart spaced → LastFiller last → Spaced.Apart spaced' → LastFiller last' →
      spaced.map Spaced.lexeme = spaced'.map Spaced.lexeme →
      tokenize (String.ofList (render spaced last))
        = tokenize (String.ofList (render spaced' last'))) := by
  have hrender {spaced : List Spaced} {last : List Char} (hapart : Spaced.Apart spaced)
      (hlast : LastFiller last) :
      tokenize (String.ofList (render spaced last)) = spaced.map Spaced.token ++ [.endOfInput] := by
    rw [tokenize_eq_places, String.toList_ofList]
    exact places_render hapart hlast []
  refine ⟨hrender, fun s => s.isLexeme.spells, ?_⟩
  intro spaced spaced' last last' hapart hlast hapart' hlast' hlexemes
  have htokens := congrArg (List.map Token.ofLexeme) hlexemes
  rw [List.map_map, List.map_map] at htokens
  rw [hrender hapart hlast, hrender hapart' hlast']
  exact congrArg (· ++ [Token.endOfInput]) htokens

/-- Four lexemes with little between them, and with comments and line ends. -/
theorem tokenize_render_comments :
    ∃ (spaced spaced' : List Spaced) (last last' : List Char),
      render spaced last = ['a', '.', '5', 'd', 'e', 'f', '#', 'é', '\r', '3', '#'] ∧
      render spaced' last'
        = ['a', '#', '#', '\n', '.', '5', '\t', 'd', 'e', 'f', ' ', '3', '\n'] ∧
      Spaced.Apart spaced ∧ LastFiller last ∧ Spaced.Apart spaced' ∧ LastFiller last' ∧
      spaced.map Spaced.lexeme = spaced'.map Spaced.lexeme ∧
      tokenize (String.ofList (render spaced last))
        = [.identifier "a", .ofNumeral ['.', '5'], .keyword .definition, .ofNumeral ['3'],
          .endOfInput] ∧
      tokenize (String.ofList (render spaced last))
        = tokenize (String.ofList (render spaced' last')) := by
  have hname : IsLexeme ['a'] := .word (by decide) (by simp)
  have hhalf : IsLexeme ['.', '5'] :=
    .numeral (by decide) (List.forall_mem_singleton.mpr (by decide))
  have hletters : ['e', 'f'].all Char.isAlphanum = true := by decide
  have hkeyword : IsLexeme ['d', 'e', 'f'] := .word (by decide) (List.all_eq_true.mp hletters)
  have hthree : IsLexeme ['3'] := .numeral (by decide) (by simp)
  have hcomment (c : Char) (hc : endsLine c = false) {d : Char} (hd : endsLine d = true) :
      Filler ['#', c, d] :=
    .comment (List.forall_mem_singleton.mpr hc) hd .nil
  have hblank {c : Char} (hc : isBlank c = true) : Filler [c] := .blank hc .nil
  -- a word may touch a number that starts with a point, and a number a word
  have happart : Spaced.Apart [⟨_, _, .nil, hname⟩, ⟨_, _, .nil, hhalf⟩, ⟨_, _, .nil, hkeyword⟩,
      ⟨_, _, hcomment 'é' (by decide) (d := '\r') (by decide), hthree⟩] := by
    simp only [Spaced.Apart, List.isChain_cons_cons, List.isChain_singleton, and_true]
    refine ⟨?_, ?_, ?_⟩
    · rintro ⟨d, hd, hgoesOn⟩
      cases hd
      exact absurd hgoesOn (show ¬ TokenKind.word.goesOn '.' = true by decide)
    · rintro ⟨d, hd, hgoesOn⟩
      cases hd
      exact absurd hgoesOn (show ¬ TokenKind.number.goesOn 'd' = true by decide)
    · exact fun _ => List.cons_ne_nil _ _
  have happart' : Spaced.Apart [⟨_, _, .nil, hname⟩,
      ⟨_, _, hcomment '#' (by decide) (d := '\n') (by decide), hhalf⟩,
      ⟨_, _, hblank (c := '\t') (by decide), hkeyword⟩,
      ⟨_, _, hblank (c := ' ') (by decide), hthree⟩] := by
    simp only [Spaced.Apart, List.isChain_cons_cons, List.isChain_singleton, and_true]
    refine ⟨?_, ?_, ?_⟩ <;> exact fun _ => List.cons_ne_nil _ _
  have hlast : LastFiller ['#'] := .unclosed .nil (by simp)
  have hlast' : LastFiller ['\n'] := .closed (hblank (by decide))
  refine ⟨_, _, _, _, rfl, rfl, happart, hlast, happart', hlast', rfl, ?_, ?_⟩
  · exact tokenize_render.1 happart hlast
  · exact tokenize_render.2.2 happart hlast happart' hlast' rfl

end FloatLang
