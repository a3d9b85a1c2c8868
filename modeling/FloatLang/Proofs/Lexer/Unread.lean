import FloatLang.Lexer.Call
import FloatLang.Proofs.Lexer.Munch

/-! # The Unread Input

  In every state that a lexer can come to, a call splits the input that is still
  unread, and goes on to the position of what it takes.

  - **Reachable** (`Reachable`): by any calls in any order, whatever is done to
    the stream behind the lexer's back.
  - **Placed** (`Placed before`): the lexer is fresh, or it has passed `before`.
  - **Unread** (`unread`): the character in hand, and what the stream still
    delivers. The blank that a fresh lexer has in hand is in no text.

  Main statements: `Reachable.placed` and `next_unread`.
-/

namespace FloatLang

namespace Lexer

variable {σ : Type}

/-! ## The input -/

/-- The character in hand, if it was read. -/
def held (l : Lexer σ) : List Char :=
  if l.cursor = .start then [] else l.lookahead.toList

/-- The characters that the lexer has not read. -/
def unread [CharStream σ] (l : Lexer σ) : List Char :=
  if l.exhausted then [] else l.held ++ (drain l.stream).text

/-- Nothing has been read, and a blank is in hand. -/
def Fresh (l : Lexer σ) : Prop :=
  l.lookahead = some ' ' ∧ l.exhausted = false ∧ l.cursor = .start

/-- The lexer is fresh, or has passed `before`. -/
def Placed (before : List Char) (l : Lexer σ) : Prop :=
  l.Fresh ∧ before = [] ∨ l.Stands before

theorem fresh_ofStream (s : σ) : (ofStream s).Fresh := ⟨rfl, rfl, rfl⟩

theorem coherent_ofStream (s : σ) : (ofStream s).Coherent := by
  simp [Coherent, ofStream]

theorem placed_ofStream (s : σ) : (ofStream s).Placed [] := .inl ⟨fresh_ofStream s, rfl⟩

theorem Fresh.held_eq {l : Lexer σ} (h : l.Fresh) : l.held = [] := by
  unfold held
  rw [if_pos h.2.2]

/-- A lexer that stands somewhere has read its lookahead. -/
theorem Stands.held_eq {l : Lexer σ} {before : List Char} (h : l.Stands before) :
    l.held = l.lookahead.toList := by
  by_cases hstart : l.cursor = .start
  · -- a cursor at the start has passed nothing
    have hpassed : before ++ l.lookahead.toList = [] := by
      apply Decidable.byContradiction
      intro hne
      exact Cursor.pastAll_ne_start hne (h.2.symm.trans hstart)
    unfold held
    rw [if_pos hstart, (List.append_eq_nil_iff.mp hpassed).2]
  · unfold held
    rw [if_neg hstart]

section stream
variable [CharStream σ]

/-- A lexer that has read nothing has the whole text of its stream before it. -/
theorem unread_ofStream (s : σ) : (ofStream s).unread = (drain s).text := by
  rw [unread, (fresh_ofStream s).held_eq]
  rfl

/-- A fresh lexer sees one blank more than is unread. -/
theorem Fresh.ahead_eq {l : Lexer σ} (h : l.Fresh) : l.ahead = ' ' :: l.unread := by
  simp [ahead, unread, h.held_eq, h.1, h.2.1]

/-- Any other lexer sees what is unread. -/
theorem Stands.ahead_eq {l : Lexer σ} {before : List Char} (h : l.Stands before) :
    l.ahead = l.unread := by
  unfold ahead unread
  rw [h.held_eq]

/-- It has the first of that in hand. -/
theorem Stands.head?_unread {l : Lexer σ} {before : List Char} (h : l.Stands before)
    (hl : l.Coherent) : l.unread.head? = l.lookahead := by
  rw [← h.ahead_eq, head?_ahead hl]

/-- Past the blank in hand a fresh lexer stands where the text starts. -/
theorem Fresh.stands {l l' : Lexer σ} {cs : List Char} (h : l.Fresh)
    (hmoves : Moves l (' ' :: cs) l') : l'.Stands cs := by
  generalize hpassed : ' ' :: cs = passed at hmoves
  induction hmoves with
  | stay => cases hpassed
  | past _ hmoves _ =>
    cases hpassed
    have hfirst : Stands [] (advance _) := stands_advance h.2.2
    exact hmoves.stands hfirst
  | mark p _ ih => exact ih h hpassed
  | record e _ ih => exact ih h hpassed

/-- What is passed was unread, and is followed by what still is. -/
theorem Moves.unread_eq {l l' : Lexer σ} {before cs : List Char} (h : Moves l cs l')
    (hl : l.Coherent) (hstands : l.Stands before) : l.unread = cs ++ l'.unread := by
  have hahead := h.ahead_eq hl
  rwa [hstands.ahead_eq, (h.stands hstands).ahead_eq] at hahead

/-- The blank in hand was not. -/
theorem Fresh.unread_eq {l l' : Lexer σ} {cs : List Char} (h : l.Fresh) (hl : l.Coherent)
    (hmoves : Moves l (' ' :: cs) l') : l.unread = cs ++ l'.unread := by
  have hahead := hmoves.ahead_eq hl
  rw [h.ahead_eq, (h.stands hmoves).ahead_eq] at hahead
  exact (List.cons.inj hahead).2

/-! ## One call -/

/-- **A call splits the unread input.** Where a blank was in hand that is in no
    text, it is passed before the trivia. -/
theorem next_unread {l : Lexer σ} {before : List Char} (hl : l.Coherent)
    (hplaced : l.Placed before) :
    ∃ blank trivia lexeme, l.lookahead.toList = blank ++ l.held ∧
      Moves l (blank ++ (trivia ++ lexeme)) l.next.2 ∧
      Munch l.unread trivia lexeme l.next.2.unread ∧
      l.next.1 = Token.ofLexeme lexeme ∧
      l.next.2.lexemeStart = (Cursor.start.pastAll (before ++ trivia)).position ∧
      l.next.2.Coherent ∧ l.next.2.Stands (before ++ trivia ++ lexeme) := by
  obtain ⟨passed, lexeme, m, hmunch, htoken, hpassed, hlexeme, hstart⟩ := next_munch hl
  have hmoves := hpassed.trans hlexeme
  have hl' := hmoves.coherent hl
  rcases hplaced with ⟨hfresh, rfl⟩ | hstands
  · -- the blank in hand is the first of the trivia ahead
    rw [hfresh.ahead_eq] at hmunch
    obtain ⟨trivia, rfl, hsplit⟩ := hmunch.uncons (by decide)
    have hm := hfresh.stands hpassed
    have hstands' := hfresh.stands hmoves
    rw [hstands'.ahead_eq] at hsplit
    refine ⟨[' '], trivia, lexeme, ?_, hmoves, hsplit, htoken, ?_, hl', hstands'⟩
    · rw [hfresh.1, hfresh.held_eq]
      rfl
    · rw [hstart, hm.1]
      rfl
  · have hm := hpassed.stands hstands
    have hstands' := hlexeme.stands hm
    rw [hstands.ahead_eq, hstands'.ahead_eq] at hmunch
    refine ⟨[], passed, lexeme, hstands.held_eq.symm, hmoves, hmunch, htoken, ?_, hl', hstands'⟩
    rw [hstart, hm.1]

/-! ## Reachable states -/

/-- The states that a lexer can come to. -/
inductive Reachable : Lexer σ → Prop where
  /-- A lexer that has read nothing yet. -/
  | start (s : σ) : Reachable (ofStream s)
  /-- A call is answered. -/
  | call {l : Lexer σ} (c : Call) : Reachable l → Reachable (l.answer c).2
  /-- Something else is done to the stream. -/
  | meddle {l : Lexer σ} (s : σ) : Reachable l → Reachable { l with stream := s }

/-- A reachable lexer is coherent, and knows where it stands. -/
theorem Reachable.placed {l : Lexer σ} (h : Reachable l) :
    l.Coherent ∧ ∃ before, l.Placed before := by
  have hnext {l : Lexer σ} (hl : l.Coherent ∧ ∃ before, l.Placed before) :
      l.next.2.Coherent ∧ ∃ before, l.next.2.Placed before := by
    obtain ⟨hcoherent, before, hplaced⟩ := hl
    -- a call leaves the lexer where it stands behind the lexeme
    obtain ⟨_, _, _, _, _, _, _, _, hcoherent', hstands⟩ := next_unread hcoherent hplaced
    exact ⟨hcoherent', _, .inr hstands⟩
  induction h with
  | start s => exact ⟨coherent_ofStream s, [], placed_ofStream s⟩
  | @call l c _ ih =>
    cases c with
    | next => exact hnext ih
    | next? => exact hnext ih
    | lexemeStart => exact ih
    | stream => exact ih
    | pullBehind =>
      -- only the stream and the records change
      simp only [answer, pullBehind]
      cases pull l.stream with
      | delivered c s => exact ih
      | ended s error? => cases error? <;> exact ih
    | releaseError => exact ih
  | meddle s _ ih => exact ih

end stream

end Lexer

end FloatLang
