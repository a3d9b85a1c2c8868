import FloatLang.Proofs.Grammar.Seam

/-! # Continuing a Text

  What becomes of the lexemes of a text when more text comes behind it. All but the
  last are settled. The last one goes on if it reaches the end of the text and the
  text behind it starts with a character of its kind.

  - **Kinds** (`Token.kind`): the kind of a token tells which characters it goes on
    over.
  - **Continued** (`Continued`): the places of a text, and those that it has with
    more text behind it.

  Main statements: `IsLexeme.firstLexeme_append`, where a lexeme stops, and
  `continued_places`.
-/

namespace FloatLang

/-! ## Kinds of tokens -/

/-- The kinds of tokens. -/
inductive TokenKind where
  /-- A keyword or an identifier. -/
  | word
  /-- A number. -/
  | number
  /-- A symbol. -/
  | symbol
  /-- The end of input, which is made of no text. -/
  | ended
  deriving DecidableEq, Repr, Inhabited

/-- The characters that a token of the kind goes on over. -/
def TokenKind.goesOn : TokenKind → Char → Bool
  | .word, c => c.isAlphanum
  | .number, c => isNumeral c
  | .symbol, _ => false
  | .ended, _ => false

namespace Token

/-- The kind of a token. -/
def kind : Token → TokenKind
  | .endOfInput => .ended
  | .keyword _ => .word
  | .identifier _ => .word
  | .number _ => .number
  | .symbol _ => .symbol

/-- A word is of one kind, reserved or not. -/
theorem kind_ofWord (word : List Char) : (ofWord word).kind = .word := by
  unfold ofWord
  split <;> rfl

/-- The first character of a lexeme decides its kind. -/
theorem kind_ofLexeme_cons (c : Char) (rest : List Char) :
    (ofLexeme (c :: rest)).kind
      = if c.isAlpha then .word else if isNumeral c then .number else .symbol := by
  rw [ofLexeme]
  by_cases halpha : c.isAlpha = true
  · rw [if_pos halpha, if_pos halpha, kind_ofWord]
  · rw [if_neg halpha, if_neg halpha]
    by_cases hnumeral : isNumeral c = true
    · rw [if_pos hnumeral, if_pos hnumeral]
      rfl
    · rw [if_neg hnumeral, if_neg hnumeral]
      rfl

end Token

/-! ## One lexeme -/

/-- **Where a lexeme stops**: before a character that its kind does not go on
    over. -/
theorem IsLexeme.firstLexeme_append {lexeme rest : List Char} (h : IsLexeme lexeme)
    (hstop : ∀ d, rest.head? = some d → (Token.ofLexeme lexeme).kind.goesOn d = false) :
    firstLexeme (lexeme ++ rest) = lexeme := by
  cases h with
  | @word c run halpha hrun =>
    rw [Token.kind_ofLexeme_cons, if_pos halpha] at hstop
    rw [List.cons_append, firstLexeme, if_pos halpha]
    exact congrArg (c :: ·) (takeWhile_append_eq_left_iff.mpr ⟨hrun, hstop⟩)
  | @numeral c run hnumeral hrun =>
    have halpha := not_isAlpha_of_isNumeral hnumeral
    rw [Token.kind_ofLexeme_cons, if_neg halpha, if_pos hnumeral] at hstop
    rw [List.cons_append, firstLexeme, if_neg halpha, if_pos hnumeral]
    exact congrArg (c :: ·) (takeWhile_append_eq_left_iff.mpr ⟨hrun, hstop⟩)
  | @operator c hoperator =>
    obtain ⟨_, halpha, hnumeral⟩ := not_of_isOperator hoperator
    rw [List.cons_append, firstLexeme, if_neg halpha, if_neg hnumeral]

/-- However far a lexeme goes on, its kind stays. -/
theorem IsLexeme.kind_firstLexeme_append {lexeme : List Char} (h : IsLexeme lexeme)
    (rest : List Char) :
    (Token.ofLexeme (firstLexeme (lexeme ++ rest))).kind = (Token.ofLexeme lexeme).kind := by
  obtain ⟨c, run, rfl⟩ := List.exists_cons_of_ne_nil h.ne_nil
  -- both start with the same character
  obtain ⟨tail, htail⟩ : ∃ tail, firstLexeme (c :: run ++ rest) = c :: tail := by
    rw [List.cons_append, firstLexeme]
    split
    · exact ⟨_, rfl⟩
    · split
      · exact ⟨_, rfl⟩
      · exact ⟨[], rfl⟩
  rw [htail, Token.kind_ofLexeme_cons, Token.kind_ofLexeme_cons]

/-! ## All lexemes of a text -/

/-- The place with its lexeme as long as it can be when `b` comes behind it. -/
def Place.grown (b : List Char) (p : Place) : Place :=
  { p with lexeme := firstLexeme (p.lexeme ++ b) }

/-- `Continued whole b ps qs`: `ps` are the places of the lexemes of `whole`, and `qs`
    those that there are with `b` behind it. -/
inductive Continued (whole b : List Char) : List Place → List Place → Prop where
  /-- All lexemes stay, and others may follow. -/
  | kept {ps qs : List Place} : ps <+: qs → Continued whole b ps qs
  /-- The last lexeme reaches the end of the text, and goes on as far as it can. -/
  | grown {front qs : List Place} {p : Place} :
      IsLexeme p.lexeme → p.before ++ p.lexeme = whole → front ++ [p.grown b] <+: qs →
      Continued whole b (front ++ [p]) qs

namespace Continued

variable {whole b : List Char} {ps qs : List Place}

/-- A lexeme before all the others stays as well. -/
theorem cons (h : Continued whole b ps qs) (p : Place) :
    Continued whole b (p :: ps) (p :: qs) := by
  cases h with
  | kept hprefix => exact .kept (List.cons_prefix_cons.mpr ⟨rfl, hprefix⟩)
  | @grown front _ q hlexeme hend hprefix =>
    have hprefix' : p :: front ++ [q.grown b] <+: p :: qs :=
      List.cons_prefix_cons.mpr ⟨rfl, hprefix⟩
    exact .grown hlexeme hend hprefix'

end Continued

/-- A lexeme that reaches the end of a text goes on in the text behind it. -/
theorem Munch.grown_isPrefix {text trivia lexeme : List Char} (h : Munch text trivia lexeme [])
    (hne : lexeme ≠ []) (before b : List Char) :
    [(Place.mk (before ++ trivia) lexeme).grown b] <+: (places before (text ++ b)).dropLast := by
  obtain ⟨c, run, rfl⟩ := List.exists_cons_of_ne_nil hne
  have hstarts : ¬ StartsTrivia c := h.seam.1 c rfl
  -- the trivia stay trivia, since the same character follows them
  have hhead : (c :: run ++ []).head? = (c :: run ++ b).head? := rfl
  have htrivia : Trivia (c :: run ++ b) trivia := h.isTrivia.replace hhead
  have hsplit : text ++ b = trivia ++ (c :: run ++ b) := by
    rw [h.whole, List.append_nil, List.append_assoc]
  rw [hsplit, places_trivia htrivia, places_lexeme (c := c) rfl hstarts,
    List.dropLast_cons_of_ne_nil (places_ne_nil _ _)]
  exact List.cons_prefix_cons.mpr ⟨rfl, List.nil_prefix⟩

/-- **Continuing a text** changes no lexeme but the last, and that one only where it
    reaches the end of the text. -/
theorem continued_places (before a b : List Char) :
    Continued (before ++ a) b (places before a).dropLast (places before (a ++ b)).dropLast := by
  -- a lexeme leaves a shorter text
  induction hn : a.length using Nat.strongRecOn generalizing before a with
  | ind n ih =>
    obtain ⟨trivia, lexeme, rest, hmunch⟩ := exists_munch a
    by_cases hlexeme : lexeme = []
    · subst hlexeme
      rw [hmunch.places_eq_nil]
      exact .kept List.nil_prefix
    · have hpos := List.length_pos_iff.mpr hlexeme
      rw [hmunch.places_eq_cons hlexeme, List.dropLast_cons_of_ne_nil (places_ne_nil _ _)]
      by_cases hrest : rest = []
      · -- the lexeme reaches the end of the text
        subst hrest
        have hend : before ++ trivia ++ lexeme = before ++ a := by
          rw [hmunch.whole, List.append_nil, List.append_assoc]
        have hgrown : [] ++ [(Place.mk (before ++ trivia) lexeme).grown b]
            <+: (places before (a ++ b)).dropLast := hmunch.grown_isPrefix hlexeme before b
        rw [places_nil]
        exact .grown (hmunch.isLexeme.resolve_left hlexeme) hend hgrown
      · -- the character behind the lexeme is in the text, and stays there
        have hhead : rest.head? = (rest ++ b).head? := by
          obtain ⟨d, tail, rfl⟩ := List.exists_cons_of_ne_nil hrest
          rfl
        have hmunch' := hmunch.replace hhead
        have hwhole : a ++ b = trivia ++ lexeme ++ (rest ++ b) := by
          rw [hmunch.whole, List.append_assoc]
        have hshorter : rest.length < n := by
          rw [← hn, hmunch.whole, List.length_append, List.length_append]
          omega
        have hbefore : before ++ a = before ++ trivia ++ lexeme ++ rest := by
          rw [hmunch.whole]
          simp only [List.append_assoc]
        rw [hwhole, hmunch'.places_eq_cons hlexeme,
          List.dropLast_cons_of_ne_nil (places_ne_nil _ _), hbefore]
        exact (ih rest.length hshorter _ rest rfl).cons _

end FloatLang
