import FloatLang.Proofs.Grammar.Places
import FloatLang.Proofs.Lexer.Movement

/-! # A Call Munches

  What one call of `Lexer.next` does to the characters ahead: it passes the
  longest trivia and the longest lexeme after them, and returns the token of the
  lexeme.

  Main statement: `next_munch`, for every coherent state.
-/

namespace FloatLang

namespace Lexer

variable {σ : Type} [CharStream σ]

/-! ## The start of a lexeme -/

theorem lexemeStart_advance (l : Lexer σ) : l.advance.lexemeStart = l.lexemeStart := by
  by_cases hexhausted : l.exhausted = true
  · unfold advance
    rw [if_pos hexhausted]
  · rw [Bool.not_eq_true] at hexhausted
    rcases advance_cases hexhausted with ⟨d, s, _, heq⟩ | ⟨s, error?, _, heq⟩ <;> simp [heq]

theorem lexemeStart_takeWhile (accept : Char → Bool) (l : Lexer σ) :
    (l.takeWhile accept).2.lexemeStart = l.lexemeStart := by
  fun_induction takeWhile accept l with
  | case1 l c _ _ run l' hrun ih =>
    rw [hrun] at ih
    exact ih.trans (lexemeStart_advance l)
  | case2 => rfl
  | case3 => rfl

/-- Taking a lexeme leaves the note of where it starts. -/
theorem lexemeStart_takeLexeme (l : Lexer σ) : l.takeLexeme.2.lexemeStart = l.lexemeStart := by
  unfold takeLexeme
  cases l.lookahead with
  | none => rfl
  | some c =>
    by_cases halpha : c.isAlpha = true
    · simp only [if_pos halpha]
      exact lexemeStart_takeWhile _ l
    · by_cases hnumeral : isNumeral c = true
      · simp only [if_neg halpha, if_pos hnumeral]
        exact lexemeStart_takeWhile _ l
      · simp only [if_neg halpha, if_neg hnumeral]
        exact lexemeStart_advance l

/-- A lexeme is noted to start at the lookahead. -/
theorem lexemeStart_skipTrivia (l : Lexer σ) :
    l.skipTrivia.lexemeStart = l.skipTrivia.lookaheadPosition := by
  fun_induction skipTrivia l with
  | case1 l _ ih => exact ih
  | case2 => rfl

/-! ## Trivia -/

theorem skipBlanks_moves {l : Lexer σ} (h : l.Coherent) :
    Moves l (l.ahead.takeWhile isBlank) l.skipBlanks := by
  have hmoves := (skipWhile_moves isBlank h).trans
    (.mark (l.skipWhile isBlank).lookaheadPosition .stay)
  rwa [List.append_nil] at hmoves

theorem skipComment_moves {l : Lexer σ} (h : l.Coherent) :
    Moves l (l.ahead.takeWhile inComment) l.skipComment := by
  have hmoves := (skipWhile_moves inComment h).trans (.record (.skipped l.lexemeStart) .stay)
  rwa [List.append_nil] at hmoves

theorem trivia_takeWhile (rest text : List Char) : Trivia rest (text.takeWhile isBlank) := by
  apply trivia_of_isBlank
  intro c hc
  exact List.all_eq_true.mp List.all_takeWhile c hc

/-- A comment is trivia up to where it stops. -/
theorem trivia_comment {text trivia rest : List Char} (hmark : text.head? = some commentMark)
    (hstop : ∀ c, (trivia ++ rest).head? = some c → inComment c = false)
    (htrivia : Trivia rest trivia) : Trivia rest (text.takeWhile inComment ++ trivia) := by
  obtain ⟨body, rfl⟩ := List.head?_eq_some_iff.mp hmark
  rw [List.takeWhile_cons_of_pos (by decide), List.cons_append]
  refine .comment ?_ ?_ htrivia
  · intro c hc
    have hin := List.all_eq_true.mp List.all_takeWhile c hc
    simpa [inComment] using hin
  · intro c hc
    simpa [inComment] using hstop c hc

/-- Skipping trivia moves past trivia. -/
theorem skipTrivia_moves {l : Lexer σ} (h : l.Coherent) :
    ∃ trivia, Moves l trivia l.skipTrivia ∧ Trivia l.skipTrivia.ahead trivia := by
  fun_induction skipTrivia l with
  | case1 l hmark ih =>
    -- blanks, then a comment, then whatever trivia follow the comment
    have hblanks := skipBlanks_moves h
    have hl₁ := hblanks.coherent h
    have hcomment := skipComment_moves hl₁
    have hl₂ := hcomment.coherent hl₁
    obtain ⟨trivia, hmoves, htrivia⟩ := ih hl₂
    refine ⟨_, hblanks.trans (hcomment.trans hmoves), ?_⟩
    apply (trivia_takeWhile _ _).append
    apply trivia_comment ((head?_ahead hl₁).trans hmark) ?_ htrivia
    -- behind the comment the lexer sees what stopped it
    intro c hc
    rw [← hmoves.ahead_eq hl₂, head?_ahead hl₂] at hc
    exact skipWhile_stops inComment l.skipBlanks hc
  | case2 l _ => exact ⟨_, skipBlanks_moves h, trivia_takeWhile _ _⟩

/-- No trivia are left behind trivia. -/
theorem skipTrivia_stops (l : Lexer σ) {c : Char} (hc : l.skipTrivia.lookahead = some c) :
    ¬ StartsTrivia c := by
  fun_induction skipTrivia l with
  | case1 l _ ih => exact ih hc
  | case2 l hmark =>
    rintro (hblank | rfl)
    · have := skipWhile_stops isBlank l hc
      simp [hblank] at this
    · exact hmark hc

/-! ## Lexemes -/

/-- Taking a lexeme takes the longest one ahead. -/
theorem takeLexeme_moves {l : Lexer σ} (h : l.Coherent) :
    l.takeLexeme.1 = Token.ofLexeme (firstLexeme l.ahead) ∧
      Moves l (firstLexeme l.ahead) l.takeLexeme.2 := by
  cases hlookahead : l.lookahead with
  | none =>
    rw [ahead_eq_nil h hlookahead]
    simp only [takeLexeme, hlookahead]
    exact ⟨rfl, .stay⟩
  | some c =>
    -- whatever its class, the lexeme starts at the lookahead
    have hahead := ahead_eq_cons h hlookahead
    have hrun {accept : Char → Bool} (hc : accept c = true) :
        l.ahead.takeWhile accept = c :: l.advance.ahead.takeWhile accept := by
      rw [hahead, List.takeWhile_cons_of_pos hc]
    by_cases halpha : c.isAlpha = true
    · obtain ⟨hword, hmoves⟩ := takeWhile_moves Char.isAlphanum h
      have hfirst : firstLexeme l.ahead = c :: l.advance.ahead.takeWhile Char.isAlphanum := by
        rw [hahead, firstLexeme, if_pos halpha]
      rw [hrun (isAlphanum_of_isAlpha halpha)] at hword hmoves
      simp only [takeLexeme, hlookahead, if_pos halpha]
      rw [hfirst, hword, Token.ofLexeme, if_pos halpha]
      exact ⟨rfl, hmoves⟩
    · by_cases hnumeral : isNumeral c = true
      · obtain ⟨hdigits, hmoves⟩ := takeWhile_moves isNumeral h
        have hfirst : firstLexeme l.ahead = c :: l.advance.ahead.takeWhile isNumeral := by
          rw [hahead, firstLexeme, if_neg halpha, if_pos hnumeral]
        rw [hrun hnumeral] at hdigits hmoves
        simp only [takeLexeme, hlookahead, if_neg halpha, if_pos hnumeral]
        rw [hfirst, hdigits, Token.ofLexeme, if_neg halpha, if_pos hnumeral]
        exact ⟨rfl, hmoves⟩
      · have hfirst : firstLexeme l.ahead = [c] := by
          rw [hahead, firstLexeme, if_neg halpha, if_neg hnumeral]
        simp only [takeLexeme, hlookahead, if_neg halpha, if_neg hnumeral]
        rw [hfirst, Token.ofLexeme, if_neg halpha, if_neg hnumeral]
        exact ⟨rfl, .past hlookahead .stay⟩

/-! ## A call -/

/-- **A call munches**: it moves past the trivia, and there the lexeme starts
    whose token it returns; then it moves past the lexeme. -/
theorem next_munch {l : Lexer σ} (h : l.Coherent) :
    ∃ trivia lexeme m, Munch l.ahead trivia lexeme l.next.2.ahead ∧
      l.next.1 = Token.ofLexeme lexeme ∧ Moves l trivia m ∧ Moves m lexeme l.next.2 ∧
      l.next.2.lexemeStart = m.lookaheadPosition := by
  obtain ⟨trivia, hmoves, htrivia⟩ := skipTrivia_moves h
  have hm := hmoves.coherent h
  obtain ⟨htoken, hlexeme⟩ := takeLexeme_moves hm
  have hnext : Moves l.skipTrivia (firstLexeme l.skipTrivia.ahead) l.next.2 := by
    have hrecord := hlexeme.trans
      (.record (.returned l.skipTrivia.takeLexeme.1 l.skipTrivia.takeLexeme.2.lexemeStart) .stay)
    rwa [List.append_nil] at hrecord
  refine ⟨trivia, firstLexeme l.skipTrivia.ahead, l.skipTrivia, ?_, htoken, hmoves, hnext, ?_⟩
  · have hrest := List.append_cancel_left
      ((firstLexeme_append_drop l.skipTrivia.ahead).trans (hnext.ahead_eq hm))
    rw [hmoves.ahead_eq h, ← hrest]
    apply munch_of_firstLexeme htrivia
    intro c hc
    exact skipTrivia_stops l (by rwa [head?_ahead hm] at hc)
  · exact (lexemeStart_takeLexeme l.skipTrivia).trans (lexemeStart_skipTrivia l)

end Lexer

end FloatLang
