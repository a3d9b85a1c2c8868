import FloatLang.Lexer.Run
import FloatLang.Proofs.Lexer.Unread

/-! # A Lexer Goes from Place to Place

  The tokens of a run, with the positions where they start, are those of the
  places that the grammar has for the unread input. The run asks for them until the
  first end of input, and by then the stream has been read to its end.
-/

namespace FloatLang

/-- The token that stands at a place, with its position. -/
def Place.positioned (p : Place) : Token × Position :=
  (.ofLexeme p.lexeme, (Cursor.start.pastAll p.before).position)

namespace Lexer

variable {σ : Type} [CharStream σ]

/-- A run that starts behind `before` goes through the places of the unread
    input. -/
theorem tokens_eq_places {l : Lexer σ} {before : List Char} (hl : l.Coherent)
    (hplaced : l.Placed before) :
    l.tokens.1 = (places before l.unread).map Place.positioned := by
  fun_induction tokens l generalizing before with
  | case1 l l' hnext =>
    obtain ⟨_, trivia, lexeme, _, _, hmunch, htoken, hstart, _, _⟩ := next_unread hl hplaced
    rw [hnext] at hmunch htoken hstart
    -- the end of input is the last place
    obtain rfl : lexeme = [] := Token.ofLexeme_eq_endOfInput_iff.mp htoken.symm
    rw [hmunch.places_eq_nil, List.map_cons, List.map_nil, Place.positioned, ← htoken, ← hstart]
  | case2 l token l' hnext hend entry rest l'' hrest =>
    rename_i ih
    obtain ⟨_, trivia, lexeme, _, _, hmunch, htoken, hstart, hl', hstands⟩ := next_unread hl hplaced
    rw [hnext] at hmunch htoken hstart hl' hstands
    -- any other token comes from a lexeme, and the run goes on behind it
    have hne : lexeme ≠ [] := by
      rintro rfl
      exact hend htoken
    have htail := ih hl' (.inr hstands)
    rw [hrest] at htail
    rw [hmunch.places_eq_cons hne, List.map_cons, Place.positioned, ← htoken, ← hstart, ← htail]

/-- A run over a stream goes through all places of its text. -/
theorem tokens_ofStream_places (s : σ) :
    (ofStream s).tokens.1 = (places [] (drain s).text).map Place.positioned := by
  rw [tokens_eq_places (coherent_ofStream s) (placed_ofStream s), unread_ofStream]

/-- So does a run over a text. -/
theorem tokens_ofStream (text : List Char) :
    (ofStream text).tokens.1 = (places [] text).map Place.positioned := by
  rw [tokens_ofStream_places, drain_list]

/-- A run over a stream does the same as one over its text. -/
theorem tokens_ofStream_text (s : σ) :
    (ofStream s).tokens.1 = (ofStream (drain s).text).tokens.1 := by
  rw [tokens_ofStream_places, tokens_ofStream]

/-- A run ends where the end of input is found. -/
theorem tokens_of_end {l : Lexer σ} (h : l.next.1 = .endOfInput) :
    l.tokens = ([(l.next.1, l.next.2.lexemeStart)], l.next.2) := by
  rw [tokens]
  split
  next token l' hnext =>
    rw [hnext] at h ⊢
    rw [dif_pos h]

/-- It goes on behind any other token. -/
theorem tokens_of_next {l : Lexer σ} (h : l.next.1 ≠ .endOfInput) :
    l.tokens
      = ((l.next.1, l.next.2.lexemeStart) :: l.next.2.tokens.1, l.next.2.tokens.2) := by
  rw [tokens]
  split
  next token l' hnext =>
    rw [hnext] at h ⊢
    rw [dif_neg h]

/-- A run without positions, and without its end of input, is what is
    collected. -/
theorem map_fst_tokens (l : Lexer σ) :
    l.tokens.1.map Prod.fst = l.collect.1 ++ [.endOfInput] := by
  fun_induction tokens l with
  | case1 l l' hnext =>
    have hnone : l.next? = (none, l') := by
      rw [next?, hnext]
      rfl
    rw [collect]
    split
    · rfl
    · next hsome => cases hnone.symm.trans hsome
  | case2 l token l' hnext hend entry rest l'' hrest =>
    rename_i ih
    have hsome : l.next? = (some token, l') := by
      rw [next?, hnext]
      exact congrArg (·, l') (if_neg hend)
    rw [hrest] at ih
    rw [collect]
    split
    · next hnone => cases hsome.symm.trans hnone
    · next hsome' =>
      cases hsome.symm.trans hsome'
      exact congrArg (token :: ·) ih

/-- A run ends with the end of input, and with no other. -/
theorem tokens_eq_append (l : Lexer σ) :
    ∃ entries p, l.tokens.1 = entries ++ [(.endOfInput, p)] ∧
      ∀ entry ∈ entries, entry.1 ≠ .endOfInput := by
  fun_induction tokens l with
  | case1 l l' hnext => exact ⟨[], l'.lexemeStart, rfl, List.forall_mem_nil _⟩
  | case2 l token l' hnext hend entry rest l'' hrest =>
    rename_i ih
    obtain ⟨entries, p, htokens, hne⟩ := ih
    rw [hrest] at htokens
    exact ⟨entry :: entries, p, congrArg (entry :: ·) htokens, List.forall_mem_cons.mpr ⟨hend, hne⟩⟩

/-! ## The stream at the end -/

/-- The stream as it is left when it has been read to its end. -/
def atEnd (l : Lexer σ) : σ :=
  if l.exhausted then l.stream else (drain l.stream).stream

theorem atEnd_advance (l : Lexer σ) : l.advance.atEnd = l.atEnd := by
  by_cases hexhausted : l.exhausted = true
  · simp [atEnd, advance, hexhausted]
  · rw [Bool.not_eq_true] at hexhausted
    rcases advance_cases hexhausted with ⟨d, s, hpull, heq⟩ | ⟨s, error?, hpull, heq⟩
    · simp [atEnd, heq, hexhausted, drain_of_delivered hpull]
    · simp [atEnd, heq, hexhausted, drain_of_ended hpull]

theorem Moves.atEnd_eq {l l' : Lexer σ} {cs : List Char} (h : Moves l cs l') :
    l'.atEnd = l.atEnd := by
  induction h with
  | stay => rfl
  | @past l l' c cs _ _ ih => rw [ih, atEnd_advance]
  | mark p _ ih => exact ih
  | record e _ ih => exact ih

/-- A run reads the stream to its end. -/
theorem stream_tokens {l : Lexer σ} {before : List Char} (hl : l.Coherent)
    (hplaced : l.Placed before) : l.tokens.2.stream = l.atEnd := by
  fun_induction tokens l generalizing before with
  | case1 l l' hnext =>
    obtain ⟨_, trivia, lexeme, _, hmoves, hmunch, htoken, _, hl', hstands⟩ :=
      next_unread hl hplaced
    rw [hnext] at hmoves hmunch htoken hl' hstands
    -- at the end of input nothing is ahead any more
    obtain rfl : lexeme = [] := Token.ofLexeme_eq_endOfInput_iff.mp htoken.symm
    have hahead : l'.ahead = [] := hstands.ahead_eq.trans hmunch.rest_eq_nil
    have hlookahead : l'.lookahead = none := by
      rw [← head?_ahead hl', hahead, List.head?_nil]
    have hexhausted : l'.exhausted = true := hl'.mp hlookahead
    rw [← hmoves.atEnd_eq, atEnd, if_pos hexhausted]
  | case2 l token l' hnext hend entry rest l'' hrest =>
    rename_i ih
    obtain ⟨_, _, _, _, hmoves, _, _, _, hl', hstands⟩ := next_unread hl hplaced
    rw [hnext] at hmoves hl' hstands
    have htail := ih hl' (.inr hstands)
    rw [hrest] at htail
    rw [htail, hmoves.atEnd_eq]

/-- Over a stream that nothing was read of this is where the stream ends. -/
theorem stream_tokens_ofStream (s : σ) : (ofStream s).tokens.2.stream = (drain s).stream := by
  rw [stream_tokens (coherent_ofStream s) (placed_ofStream s)]
  rfl

end Lexer

theorem tokenize_eq_places (text : String) :
    tokenize text = (places [] text.toList).map fun p => .ofLexeme p.lexeme := by
  rw [tokenize, ← Lexer.map_fst_tokens, Lexer.tokens_ofStream, List.map_map]
  rfl

end FloatLang
