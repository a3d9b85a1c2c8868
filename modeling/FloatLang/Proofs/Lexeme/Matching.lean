import FloatLang.Lexeme.Rule
import FloatLang.Proofs.Grammar.Munch

/-! # Which Rule Wins

  The winning piece of a text, read off its first character. Every rule but the
  three for words has first characters of its own, so there the winner is the
  only rule that matches. Of the three for words a keyword wins a tie.

  The rules are told in the classes of the grammar first; only there does it matter
  what their own classes are.

  Main statement: `wins_longest?`, for every text that is not empty. From it:

  - `firstLexeme_of_longest?`: a piece with a token is the first lexeme.
  - `trivia_of_longest?`: a piece without one is trivia.
-/

namespace FloatLang

namespace Rule

/-! ## The classes of the grammar -/

theorem startsWord_eq : startsWord = Char.isAlpha := by
  funext c
  delta Char.isAlpha Char.isUpper Char.isLower
  rw [Bool.eq_iff_iff]
  simp only [startsWord, Bool.or_eq_true, Bool.and_eq_true, decide_eq_true_eq]
  exact Iff.rfl

theorem inWord_eq : inWord = Char.isAlphanum := by
  funext c
  rw [inWord, startsWord_eq]
  rfl

theorem isSpace_eq : isSpace = fun c => isBlank c && !endsLine c := by
  funext c
  rw [Bool.eq_iff_iff]
  simp only [isSpace, isBlank, endsLine, Bool.or_eq_true, Bool.and_eq_true, beq_iff_eq,
    Bool.not_eq_true', Bool.or_eq_false_iff, beq_eq_false_iff_ne]
  constructor
  · rintro (((rfl | rfl) | rfl) | rfl) <;> decide
  · grind

section grammar
variable (c : Char) (cs : List Char)

theorem matchLength_definition :
    definition.matchLength cs = matchLength.literalLength Keyword.definition.word.toList cs := rfl

theorem matchLength_external :
    external.matchLength cs = matchLength.literalLength Keyword.external.word.toList cs := rfl

/-- A word starts with a letter and goes on with letters and digits. -/
theorem matchLength_word :
    word.matchLength (c :: cs)
      = if c.isAlpha then 1 + (cs.takeWhile Char.isAlphanum).length else 0 := by
  rw [matchLength, startsWord_eq, inWord_eq]

/-- A numeral is a run of digits and points. -/
theorem matchLength_numeral : numeral.matchLength cs = (cs.takeWhile isNumeral).length := rfl

/-- A comment goes on up to a line end. -/
theorem matchLength_comment :
    comment.matchLength (c :: cs)
      = if c == commentMark then 1 + (cs.takeWhile inComment).length else 0 := rfl

/-- A carriage return takes the line feed behind it along. -/
theorem matchLength_lineEnd_pair : lineEnd.matchLength ('\r' :: '\n' :: cs) = 2 := rfl

/-- Any other line end is one by itself. -/
theorem matchLength_lineEnd {c : Char} {cs : List Char}
    (hpair : ¬ ∃ tail, c :: cs = '\r' :: '\n' :: tail) :
    lineEnd.matchLength (c :: cs) = if endsLine c then 1 else 0 := by
  rw [matchLength]
  · rfl
  · rintro tail rfl rfl
    exact hpair ⟨tail, rfl⟩

/-- Spaces are a run of blanks that end no line. -/
theorem matchLength_spaces :
    spaces.matchLength cs = (cs.takeWhile fun c => isBlank c && !endsLine c).length := by
  rw [matchLength, isSpace_eq]

end grammar

/-! ## First characters -/

/-- The characters that a piece of the rule can start with. -/
def starts : Rule → Char → Bool
  | .definition, c => c.isAlpha
  | .external, c => c.isAlpha
  | .word, c => c.isAlpha
  | .numeral, c => isNumeral c
  | .comment, c => c == commentMark
  | .lineEnd, c => endsLine c
  | .spaces, c => isBlank c && !endsLine c

/-- The rules for trivia start where trivia do. -/
theorem starts_eq_false {rule : Rule} {c : Char} (hc : ¬ StartsTrivia c)
    (hrule : rule = .comment ∨ rule = .lineEnd ∨ rule = .spaces) : rule.starts c = false := by
  rw [Bool.eq_false_iff]
  intro hstarts
  apply hc
  rcases hrule with rfl | rfl | rfl
  · exact .inr (beq_iff_eq.mp hstarts)
  · exact .inl (isBlank_of_endsLine hstarts)
  · exact .inl (Bool.and_eq_true_iff.mp hstarts).1

theorem literalLength_eq_zero {literal cs : List Char} (h : ¬ literal <+: cs) :
    matchLength.literalLength literal cs = 0 := by
  rw [matchLength.literalLength, if_neg]
  rwa [List.isPrefixOf_iff_prefix]

/-- A rule matches nothing at a character that it cannot start with. -/
theorem matchLength_eq_zero {rule : Rule} {c : Char} (rest : List Char)
    (h : rule.starts c = false) : rule.matchLength (c :: rest) = 0 := by
  cases rule with
  | definition =>
    rw [matchLength_definition]
    apply literalLength_eq_zero
    intro hprefix
    obtain rfl : 'd' = c := (List.cons_prefix_cons.mp hprefix).1
    exact absurd h (by decide)
  | external =>
    rw [matchLength_external]
    apply literalLength_eq_zero
    intro hprefix
    obtain rfl : 'e' = c := (List.cons_prefix_cons.mp hprefix).1
    exact absurd h (by decide)
  | word => rw [matchLength_word, if_neg (by simpa [starts] using h)]
  | numeral =>
    rw [matchLength_numeral, List.takeWhile_cons_of_neg (by simpa [starts] using h)]
    rfl
  | comment => rw [matchLength_comment, if_neg (by simpa [starts] using h)]
  | lineEnd =>
    rw [matchLength_lineEnd, if_neg (by simpa [starts] using h)]
    rintro ⟨tail, hpair⟩
    obtain rfl : c = '\r' := (List.cons.inj hpair).1
    exact absurd h (by decide)
  | spaces =>
    rw [matchLength_spaces, List.takeWhile_cons_of_neg (by simpa [starts] using h)]
    rfl

/-! ## The only match -/

/-- Where no rule matches none wins. -/
theorem longest?_eq_none {cs : List Char} (h : ∀ r : Rule, r.matchLength cs = 0) :
    longest? cs = none := by
  simp [longest?, all, prefer, h]

/-- The only rule that matches wins. -/
theorem longest?_of_only {cs : List Char} (rule : Rule) (h : 0 < rule.matchLength cs)
    (hothers : ∀ r : Rule, r ≠ rule → r.matchLength cs = 0) :
    longest? cs = some (rule, rule.matchLength cs) := by
  cases rule <;> simp [longest?, all, prefer, hothers, h]

/-- A rule that is alone with its first character wins there. -/
theorem longest?_of_starts {c : Char} {rest : List Char} (rule : Rule)
    (hmatch : 0 < rule.matchLength (c :: rest))
    (halone : ∀ r : Rule, r ≠ rule → r.starts c = false) :
    longest? (c :: rest) = some (rule, rule.matchLength (c :: rest)) := by
  apply longest?_of_only rule hmatch
  intro r hr
  exact matchLength_eq_zero rest (halone r hr)

/-! ## Words -/

/-- The word at the start of a text. -/
def firstWord (text : List Char) : List Char := text.takeWhile Char.isAlphanum

/-- A keyword is as long as the word only if it is the word. -/
theorem literalLength_firstWord {literal text : List Char} (hne : firstWord text ≠ [])
    (hliteral : ∀ c ∈ literal, c.isAlphanum = true) :
    matchLength.literalLength literal text ≤ (firstWord text).length ∧
      (matchLength.literalLength literal text = (firstWord text).length ↔
        firstWord text = literal) := by
  by_cases hprefix : literal <+: text
  · -- the word goes on from the keyword
    obtain ⟨rest, rfl⟩ := hprefix
    have hword : firstWord (literal ++ rest) = literal ++ firstWord rest := by
      rw [firstWord, List.takeWhile_append_of_pos hliteral]
      rfl
    have hlength : matchLength.literalLength literal (literal ++ rest) = literal.length := by
      rw [matchLength.literalLength, if_pos]
      rw [List.isPrefixOf_iff_prefix]
      exact List.prefix_append _ _
    rw [hword, hlength, List.length_append, List.append_right_eq_self, ← List.length_eq_zero_iff]
    omega
  · have hlength := literalLength_eq_zero hprefix
    have hpos := List.length_pos_iff.mpr hne
    rw [hlength]
    refine ⟨Nat.zero_le _, ?_, ?_⟩
    · intro h
      omega
    · intro h
      exact absurd (h ▸ List.takeWhile_prefix _) hprefix

/-- Of the rules for words the one declared first wins a tie. -/
theorem longest?_of_isAlpha {c : Char} {rest : List Char} (halpha : c.isAlpha = true)
    (hdefinition : definition.matchLength (c :: rest) ≤ word.matchLength (c :: rest))
    (hexternal : external.matchLength (c :: rest) ≤ word.matchLength (c :: rest)) :
    longest? (c :: rest)
      = some (if definition.matchLength (c :: rest) = word.matchLength (c :: rest) then .definition
          else if external.matchLength (c :: rest) = word.matchLength (c :: rest) then .external
          else .word, word.matchLength (c :: rest)) := by
  have hpos : 0 < word.matchLength (c :: rest) := by
    rw [matchLength_word, if_pos halpha]
    omega
  have htrivia : ¬ StartsTrivia c := not_startsTrivia (.inl halpha)
  have hnumeral : numeral.matchLength (c :: rest) = 0 :=
    matchLength_eq_zero rest (isNumeral_of_isAlpha halpha)
  have hcomment : comment.matchLength (c :: rest) = 0 :=
    matchLength_eq_zero rest (starts_eq_false htrivia (.inl rfl))
  have hlineEnd : lineEnd.matchLength (c :: rest) = 0 :=
    matchLength_eq_zero rest (starts_eq_false htrivia (.inr (.inl rfl)))
  have hspaces : spaces.matchLength (c :: rest) = 0 :=
    matchLength_eq_zero rest (starts_eq_false htrivia (.inr (.inr rfl)))
  simp only [longest?, all, List.foldl_cons, List.foldl_nil, prefer, hnumeral, hcomment, hlineEnd,
    hspaces, Nat.not_lt_zero, if_false]
  -- what is left is a comparison of the three lengths
  generalize word.matchLength (c :: rest) = longest at *
  generalize definition.matchLength (c :: rest) = d at *
  generalize external.matchLength (c :: rest) = e at *
  grind

/-- A word is matched as a whole, by the rule that gives it its token. -/
theorem longest?_word {c : Char} {rest : List Char} (halpha : c.isAlpha = true) :
    ∃ rule : Rule, longest? (c :: rest) = some (rule, (firstWord (c :: rest)).length) ∧
      rule.token? (firstWord (c :: rest)) = some (.ofWord (firstWord (c :: rest))) := by
  have hcons : firstWord (c :: rest) = c :: rest.takeWhile Char.isAlphanum :=
    List.takeWhile_cons_of_pos (isAlphanum_of_isAlpha halpha)
  have hword : word.matchLength (c :: rest) = (firstWord (c :: rest)).length := by
    rw [matchLength_word, if_pos halpha, hcons, List.length_cons, Nat.add_comm]
  have hne : firstWord (c :: rest) ≠ [] := by
    rw [hcons]
    exact List.cons_ne_nil _ _
  have hdefinition : definition.matchLength (c :: rest) ≤ (firstWord (c :: rest)).length ∧
      (definition.matchLength (c :: rest) = (firstWord (c :: rest)).length ↔
        firstWord (c :: rest) = Keyword.definition.word.toList) := by
    rw [matchLength_definition]
    exact literalLength_firstWord hne fun _ => Keyword.isAlphanum_of_mem_word
  have hexternal : external.matchLength (c :: rest) ≤ (firstWord (c :: rest)).length ∧
      (external.matchLength (c :: rest) = (firstWord (c :: rest)).length ↔
        firstWord (c :: rest) = Keyword.external.word.toList) := by
    rw [matchLength_external]
    exact literalLength_firstWord hne fun _ => Keyword.isAlphanum_of_mem_word
  have hlongest := longest?_of_isAlpha halpha (hword ▸ hdefinition.1) (hword ▸ hexternal.1)
  rw [hword] at hlongest
  refine ⟨_, hlongest, ?_⟩
  -- a keyword matches as much as the word only where it is the word
  by_cases hdef : firstWord (c :: rest) = Keyword.definition.word.toList
  · rw [if_pos (hdefinition.2.mpr hdef), Token.ofWord_of_eq hdef]
    rfl
  · rw [if_neg (fun h => hdef (hdefinition.2.mp h))]
    by_cases hext : firstWord (c :: rest) = Keyword.external.word.toList
    · rw [if_pos (hexternal.2.mpr hext), Token.ofWord_of_eq hext]
      rfl
    · rw [if_neg (fun h => hext (hexternal.2.mp h)), Token.ofWord_of_ne]
      · rfl
      · intro k
        cases k with
        | definition => exact hdef
        | external => exact hext

/-! ## The winner -/

/-- What wins at the start of a text, by its first character. -/
inductive Wins (text : List Char) : Option (Rule × Nat) → Prop where
  /-- A word or a numeral, as long as the grammar has it. -/
  | lexeme {c : Char} {rule : Rule} :
      text.head? = some c → ¬ StartsTrivia c →
      rule.token? (firstLexeme text) = some (Token.ofLexeme (firstLexeme text)) →
      Wins text (some (rule, (firstLexeme text).length))
  /-- A comment, up to where it stops. -/
  | comment {body rest : List Char} :
      text = commentMark :: (body ++ rest) → (∀ c ∈ body, endsLine c = false) →
      (∀ c, rest.head? = some c → endsLine c = true) →
      Wins text (some (.comment, body.length + 1))
  /-- One line terminator. -/
  | lineEnd {terminator rest : List Char} :
      text = terminator ++ rest →
      terminator = ['\r', '\n'] ∨ terminator = ['\n'] ∨
        terminator = ['\r'] ∧ rest.head? ≠ some '\n' →
      Wins text (some (.lineEnd, terminator.length))
  /-- Blanks within a line. -/
  | spaces {run rest : List Char} :
      text = run ++ rest → (∀ c ∈ run, isBlank c = true ∧ endsLine c = false) →
      Wins text (some (.spaces, run.length))
  /-- Nothing wins at an operator. -/
  | operator {c : Char} : text.head? = some c → isOperator c = true → Wins text none

theorem wins_isAlpha {c : Char} {rest : List Char} (halpha : c.isAlpha = true) :
    Wins (c :: rest) (longest? (c :: rest)) := by
  have hfirst : firstLexeme (c :: rest) = firstWord (c :: rest) := by
    rw [firstLexeme, if_pos halpha, firstWord,
      List.takeWhile_cons_of_pos (isAlphanum_of_isAlpha halpha)]
  obtain ⟨rule, hlongest, htoken⟩ := @longest?_word c rest halpha
  have hlexeme : Token.ofLexeme (firstLexeme (c :: rest)) = .ofWord (firstWord (c :: rest)) := by
    rw [hfirst, firstWord, List.takeWhile_cons_of_pos (isAlphanum_of_isAlpha halpha),
      Token.ofLexeme, if_pos halpha]
  rw [hlongest, ← hfirst]
  exact .lexeme rfl (not_startsTrivia (.inl halpha)) (by rw [hlexeme, hfirst, htoken])

theorem wins_isNumeral {c : Char} {rest : List Char} (hnumeral : isNumeral c = true) :
    Wins (c :: rest) (longest? (c :: rest)) := by
  have halpha : ¬ c.isAlpha = true := not_isAlpha_of_isNumeral hnumeral
  have htrivia : ¬ StartsTrivia c := not_startsTrivia (.inr hnumeral)
  have hfirst : firstLexeme (c :: rest) = (c :: rest).takeWhile isNumeral := by
    rw [firstLexeme, if_neg halpha, if_pos hnumeral, List.takeWhile_cons_of_pos hnumeral]
  have hlength : numeral.matchLength (c :: rest) = (firstLexeme (c :: rest)).length := by
    rw [hfirst, matchLength_numeral]
  have hpos : 0 < (firstLexeme (c :: rest)).length := by
    rw [hfirst, List.takeWhile_cons_of_pos hnumeral]
    exact Nat.succ_pos _
  rw [longest?_of_starts numeral (hlength ▸ hpos), hlength]
  · refine .lexeme rfl htrivia ?_
    rw [hfirst, List.takeWhile_cons_of_pos hnumeral, Token.ofLexeme, if_neg halpha,
      if_pos hnumeral]
    rfl
  · intro r hr
    cases r with
    | definition => exact Bool.eq_false_iff.mpr halpha
    | external => exact Bool.eq_false_iff.mpr halpha
    | word => exact Bool.eq_false_iff.mpr halpha
    | numeral => exact absurd rfl hr
    | comment => exact starts_eq_false htrivia (.inl rfl)
    | lineEnd => exact starts_eq_false htrivia (.inr (.inl rfl))
    | spaces => exact starts_eq_false htrivia (.inr (.inr rfl))

theorem wins_commentMark (rest : List Char) :
    Wins (commentMark :: rest) (longest? (commentMark :: rest)) := by
  have hlength : comment.matchLength (commentMark :: rest)
      = (rest.takeWhile inComment).length + 1 := by
    rw [matchLength_comment, if_pos (by decide), Nat.add_comm]
  rw [longest?_of_starts comment (by omega), hlength]
  · have htext : commentMark :: rest
        = commentMark :: (rest.takeWhile inComment ++ rest.dropWhile inComment) := by
      rw [List.takeWhile_append_dropWhile]
    refine .comment htext ?_ ?_
    · intro c hc
      have hin := List.all_eq_true.mp List.all_takeWhile c hc
      simpa [inComment] using hin
    · intro c hc
      have hout := List.head?_dropWhile_not inComment rest
      rw [hc] at hout
      simpa [inComment] using hout
  · intro r hr
    cases r <;> first | exact absurd rfl hr | decide

/-- A line end wins with the line feed that completes it. -/
theorem wins_endsLine {c : Char} {rest : List Char} (hc : endsLine c = true) :
    Wins (c :: rest) (longest? (c :: rest)) := by
  -- each of the two line ends belongs to this rule alone
  have halone : ∀ r : Rule, r ≠ .lineEnd → r.starts c = false := by
    intro r hr
    simp only [endsLine, Bool.or_eq_true, beq_iff_eq] at hc
    rcases hc with rfl | rfl <;> cases r <;> first | exact absurd rfl hr | decide
  -- a carriage return takes the line feed behind it along
  by_cases hpair : ∃ tail, c :: rest = '\r' :: '\n' :: tail
  · obtain ⟨tail, hpair⟩ := hpair
    have hlength : lineEnd.matchLength (c :: rest) = 2 := by
      rw [hpair, matchLength_lineEnd_pair]
    rw [longest?_of_starts lineEnd (by omega) halone, hlength]
    have htext : c :: rest = ['\r', '\n'] ++ tail := hpair
    exact .lineEnd htext (.inl rfl)
  · have hlength : lineEnd.matchLength (c :: rest) = 1 := by
      rw [matchLength_lineEnd hpair, if_pos hc]
    rw [longest?_of_starts lineEnd (by omega) halone, hlength]
    have htext : c :: rest = [c] ++ rest := rfl
    refine .lineEnd htext ?_
    simp only [endsLine, Bool.or_eq_true, beq_iff_eq] at hc
    rcases hc with rfl | rfl
    · exact .inr (.inl rfl)
    · refine .inr (.inr ⟨rfl, ?_⟩)
      intro hfeed
      obtain ⟨tail, rfl⟩ := List.head?_eq_some_iff.mp hfeed
      exact hpair ⟨tail, rfl⟩

theorem wins_spaces {c : Char} {rest : List Char} (hblank : isBlank c = true)
    (hline : endsLine c = false) : Wins (c :: rest) (longest? (c :: rest)) := by
  have hspace : (isBlank c && !endsLine c) = true := by simp [hblank, hline]
  have hlength : spaces.matchLength (c :: rest)
      = ((c :: rest).takeWhile fun c => isBlank c && !endsLine c).length :=
    matchLength_spaces _
  have hpos : 0 < spaces.matchLength (c :: rest) := by
    rw [hlength, List.takeWhile_cons, if_pos hspace]
    exact Nat.succ_pos _
  rw [longest?_of_starts spaces hpos, hlength]
  · refine .spaces (List.takeWhile_append_dropWhile).symm ?_
    intro d hd
    have hin := List.all_eq_true.mp List.all_takeWhile d hd
    simpa using hin
  · intro r hr
    simp only [isBlank, Bool.or_eq_true, beq_iff_eq] at hblank
    rcases hblank with ((((rfl | rfl) | rfl) | rfl) | rfl) | rfl <;> cases r <;>
      first | exact absurd rfl hr | decide | exact absurd hline (by decide)

/-- No rule matches at an operator. -/
theorem longest?_of_isOperator {c : Char} (rest : List Char) (hoperator : isOperator c = true) :
    longest? (c :: rest) = none := by
  obtain ⟨htrivia, halpha, hnumeral⟩ := not_of_isOperator hoperator
  apply longest?_eq_none
  intro r
  apply matchLength_eq_zero
  cases r with
  | definition => exact Bool.eq_false_iff.mpr halpha
  | external => exact Bool.eq_false_iff.mpr halpha
  | word => exact Bool.eq_false_iff.mpr halpha
  | numeral => exact Bool.eq_false_iff.mpr hnumeral
  | comment => exact starts_eq_false htrivia (.inl rfl)
  | lineEnd => exact starts_eq_false htrivia (.inr (.inl rfl))
  | spaces => exact starts_eq_false htrivia (.inr (.inr rfl))

theorem wins_isOperator {c : Char} {rest : List Char} (hoperator : isOperator c = true) :
    Wins (c :: rest) (longest? (c :: rest)) := by
  rw [longest?_of_isOperator rest hoperator]
  exact .operator rfl hoperator

/-- **The winner**: the winning piece of a text is the one that its first
    character calls for. -/
theorem wins_longest? {text : List Char} (hne : text ≠ []) : Wins text (longest? text) := by
  obtain ⟨c, rest, rfl⟩ := List.exists_cons_of_ne_nil hne
  by_cases halpha : c.isAlpha = true
  · exact wins_isAlpha halpha
  by_cases hnumeral : isNumeral c = true
  · exact wins_isNumeral hnumeral
  by_cases hmark : c = commentMark
  · subst hmark
    exact wins_commentMark rest
  by_cases hline : endsLine c = true
  · exact wins_endsLine hline
  by_cases hblank : isBlank c = true
  · exact wins_spaces hblank (Bool.eq_false_iff.mpr hline)
  · apply wins_isOperator
    apply isOperator_of_not ?_ halpha hnumeral
    rintro (h | h)
    · exact hblank h
    · exact hmark h

/-! ## What a winning piece is -/

variable {text : List Char} {rule : Rule} {n : Nat} {token : Token}

theorem ne_nil_of_longest? (h : longest? text = some (rule, n)) : text ≠ [] := by
  rintro rfl
  have hnone : longest? [] = none := by decide
  rw [hnone] at h
  cases h

theorem take_firstLexeme (text : List Char) :
    text.take (firstLexeme text).length = firstLexeme text :=
  (List.prefix_iff_eq_take.mp (firstLexeme_isPrefix text)).symm

/-- A winning piece with a token is the first lexeme. -/
theorem firstLexeme_of_longest? (h : longest? text = some (rule, n))
    (htoken : rule.token? (text.take n) = some token) :
    ∃ c, text.head? = some c ∧ ¬ StartsTrivia c ∧ n = (firstLexeme text).length ∧
      token = Token.ofLexeme (firstLexeme text) := by
  have hwins := wins_longest? (ne_nil_of_longest? h)
  rw [h] at hwins
  cases hwins with
  | @lexeme c _ hc hstop hlexeme =>
    rw [take_firstLexeme, hlexeme] at htoken
    exact ⟨c, hc, hstop, rfl, (Option.some.inj htoken).symm⟩
  | comment => cases htoken
  | lineEnd => cases htoken
  | spaces => cases htoken

/-- A winning piece without a token is trivia: within a line, or a whole line
    terminator. -/
theorem trivia_of_longest? (h : longest? text = some (rule, n))
    (htoken : rule.token? (text.take n) = none) :
    ∃ piece rest, text = piece ++ rest ∧ n = piece.length ∧ piece ≠ [] ∧ Trivia rest piece ∧
      (rule.lines = 0 ∧ (∀ c ∈ piece, endsLine c = false) ∨
        rule.lines = 1 ∧ (piece = ['\r', '\n'] ∨ piece = ['\n'] ∨
          piece = ['\r'] ∧ rest.head? ≠ some '\n')) := by
  have hpos := longest?_pos h
  have hwins := wins_longest? (ne_nil_of_longest? h)
  rw [h] at hwins
  cases hwins with
  | lexeme _ _ hlexeme =>
    rw [take_firstLexeme, hlexeme] at htoken
    cases htoken
  | @comment body rest htext hbody hstop =>
    refine ⟨commentMark :: body, rest, htext, rfl, List.cons_ne_nil _ _,
      trivia_of_comment hbody hstop, .inl ⟨rfl, ?_⟩⟩
    intro c hc
    rcases List.mem_cons.mp hc with rfl | hmem
    · exact endsLine_commentMark
    · exact hbody c hmem
  | @lineEnd terminator rest htext hterminator =>
    refine ⟨terminator, rest, htext, rfl, List.length_pos_iff.mp hpos, ?_, .inr ⟨rfl, hterminator⟩⟩
    rcases hterminator with rfl | rfl | ⟨rfl, _⟩
    · exact .blank (by decide) (.blank (by decide) .nil)
    · exact .blank (by decide) .nil
    · exact .blank (by decide) .nil
  | @spaces run rest htext hrun =>
    have hblanks : Trivia rest run := by
      apply trivia_of_isBlank
      intro c hc
      exact (hrun c hc).1
    have hline : ∀ c ∈ run, endsLine c = false := by
      intro c hc
      exact (hrun c hc).2
    exact ⟨run, rest, htext, rfl, List.length_pos_iff.mp hpos, hblanks, .inl ⟨rfl, hline⟩⟩

/-- Where no rule wins an operator stands. -/
theorem isOperator_of_longest? {c : Char} {rest : List Char} (h : longest? (c :: rest) = none) :
    isOperator c = true := by
  have hwins := wins_longest? (List.cons_ne_nil c rest)
  rw [h] at hwins
  cases hwins with
  | @operator d hd hoperator =>
    obtain rfl : c = d := Option.some.inj hd
    exact hoperator

end Rule

end FloatLang
