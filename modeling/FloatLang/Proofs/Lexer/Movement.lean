import FloatLang.Lexer.Basic

/-! # Movement of a Lexer

  Whatever a lexer does to its state while it looks for a token is made of four
  small steps: it stays, it moves past its lookahead, it notes where a lexeme
  starts, or it makes a record. `Moves l cs l'` says that such steps lead from
  `l` past the characters `cs` to `l'`.

  Every function of the lexer is a movement, and what a movement keeps is proved
  once, by induction on it:

  - `Moves.coherent`: the lookahead is absent exactly when the stream has ended.
  - `Moves.ahead_eq`: the characters passed are those that were ahead.
  - `Moves.stands`: positions are those of the text passed so far.
-/

namespace FloatLang

namespace Lexer

variable {σ : Type} [CharStream σ]

/-! ## Coherent states -/

/-- The lookahead is absent exactly when the stream has ended. -/
def Coherent (l : Lexer σ) : Prop := l.lookahead = none ↔ l.exhausted = true

/-- The characters that the lexer has still to see. -/
def ahead (l : Lexer σ) : List Char :=
  if l.exhausted then [] else l.lookahead.toList ++ (drain l.stream).text

omit [CharStream σ] in
theorem Coherent.exhausted_eq_false {l : Lexer σ} (h : l.Coherent) {c : Char}
    (hc : l.lookahead = some c) : l.exhausted = false := by
  rw [Bool.eq_false_iff]
  intro hexhausted
  have hnone := h.mpr hexhausted
  rw [hc] at hnone
  cases hnone

/-- Moving past the lookahead either finds the next character or the end of the
    stream. -/
theorem advance_cases {l : Lexer σ} (hexhausted : l.exhausted = false) :
    (∃ c s, pull l.stream = .delivered c s ∧
      l.advance = { l with
        stream := s
        lookahead := some c
        lookaheadPosition := l.cursor.position
        cursor := l.cursor.past c }) ∨
    (∃ s error?, pull l.stream = .ended s error? ∧
      l.advance = { l with
        stream := s
        lookahead := none
        exhausted := true
        lookaheadPosition := l.cursor.position }.recordError error?) := by
  have hnot : ¬ l.exhausted = true := by simp [hexhausted]
  unfold advance
  rw [if_neg hnot]
  cases hpull : pull l.stream with
  | delivered c s => exact .inl ⟨c, s, rfl, rfl⟩
  | ended s error? => exact .inr ⟨s, error?, rfl, rfl⟩

theorem coherent_advance {l : Lexer σ} (h : l.Coherent) {c : Char}
    (hc : l.lookahead = some c) : l.advance.Coherent := by
  have hexhausted := h.exhausted_eq_false hc
  rcases advance_cases hexhausted with ⟨d, s, _, heq⟩ | ⟨s, error?, _, heq⟩
  · simp [Coherent, heq, hexhausted]
  · simp [Coherent, heq]

/-- Past the lookahead stands what was ahead of it. -/
theorem ahead_eq_cons {l : Lexer σ} (h : l.Coherent) {c : Char} (hc : l.lookahead = some c) :
    l.ahead = c :: l.advance.ahead := by
  have hexhausted := h.exhausted_eq_false hc
  rcases advance_cases hexhausted with ⟨d, s, hpull, heq⟩ | ⟨s, error?, hpull, heq⟩
  · simp [ahead, heq, hexhausted, hc, drain_of_delivered hpull]
  · simp [ahead, heq, hexhausted, hc, drain_of_ended hpull]

theorem ahead_eq_nil {l : Lexer σ} (h : l.Coherent) (hnone : l.lookahead = none) :
    l.ahead = [] := by
  unfold ahead
  rw [if_pos (h.mp hnone)]

/-- The lookahead is the first character ahead. -/
theorem head?_ahead {l : Lexer σ} (h : l.Coherent) : l.ahead.head? = l.lookahead := by
  cases hlookahead : l.lookahead with
  | none => rw [ahead_eq_nil h hlookahead]; rfl
  | some c => rw [ahead_eq_cons h hlookahead]; rfl

omit [CharStream σ] in
/-- Until the stream has ended there is a lookahead. -/
theorem Coherent.exists_lookahead {l : Lexer σ} (h : l.Coherent)
    (hexhausted : l.exhausted = false) : ∃ c, l.lookahead = some c := by
  apply Option.ne_none_iff_exists'.mp
  intro hnone
  rw [h.mp hnone] at hexhausted
  cases hexhausted

/-- Behind the lookahead is what the stream still delivers. -/
theorem text_drain {l : Lexer σ} (h : l.Coherent) (hne : l.ahead ≠ []) :
    (drain l.stream).text = l.ahead.tail := by
  by_cases hexhausted : l.exhausted = true
  · exact absurd (ahead_eq_nil h (h.mpr hexhausted)) hne
  · obtain ⟨c, hc⟩ := h.exists_lookahead (Bool.eq_false_iff.mpr hexhausted)
    unfold ahead
    rw [if_neg hexhausted, hc]
    rfl

/-! ## Where a lexer stands -/

/-- The lexer has passed `before`: the lookahead has the position behind it,
    and the cursor is past the lookahead as well. -/
def Stands (before : List Char) (l : Lexer σ) : Prop :=
  l.lookaheadPosition = (Cursor.start.pastAll before).position ∧
    l.cursor = Cursor.start.pastAll (before ++ l.lookahead.toList)

/-- The lookahead is next to be passed, whatever stood there before. -/
theorem stands_advance {l : Lexer σ} {before : List Char}
    (hcursor : l.cursor = Cursor.start.pastAll before) : l.advance.Stands before := by
  by_cases hexhausted : l.exhausted = true
  · simp [Stands, advance, hexhausted, hcursor]
  · rw [Bool.not_eq_true] at hexhausted
    rcases advance_cases hexhausted with ⟨d, s, _, heq⟩ | ⟨s, error?, _, heq⟩
    · simp [Stands, heq, hcursor, Cursor.pastAll_append]
    · simp [Stands, heq, hcursor]

/-! ## Movements -/

/-- Small steps lead past the characters from one state to the other. -/
inductive Moves : Lexer σ → List Char → Lexer σ → Prop where
  /-- The lexer stays. -/
  | stay {l : Lexer σ} : Moves l [] l
  /-- The lexer moves past its lookahead. -/
  | past {l l' : Lexer σ} {c : Char} {cs : List Char} :
      l.lookahead = some c → Moves l.advance cs l' → Moves l (c :: cs) l'
  /-- The lexer notes where a lexeme starts. -/
  | mark {l l' : Lexer σ} {cs : List Char} (p : Position) :
      Moves { l with lexemeStart := p } cs l' → Moves l cs l'
  /-- The lexer makes a record. -/
  | record {l l' : Lexer σ} {cs : List Char} (e : Event) :
      Moves (l.record e) cs l' → Moves l cs l'

namespace Moves

variable {l m l' : Lexer σ} {cs ds before : List Char}

theorem trans (h : Moves l cs m) (h' : Moves m ds l') : Moves l (cs ++ ds) l' := by
  induction h with
  | stay => exact h'
  | past hc _ ih => exact .past hc (ih h')
  | mark p _ ih => exact .mark p (ih h')
  | record e _ ih => exact .record e (ih h')

/-- A coherent lexer stays coherent. -/
theorem coherent (h : Moves l cs l') (hl : l.Coherent) : l'.Coherent := by
  induction h with
  | stay => exact hl
  | past hc _ ih => exact ih (coherent_advance hl hc)
  | mark p _ ih => exact ih hl
  | record e _ ih => exact ih hl

/-- What is passed was ahead. -/
theorem ahead_eq (h : Moves l cs l') (hl : l.Coherent) : l.ahead = cs ++ l'.ahead := by
  induction h with
  | stay => rfl
  -- the lookahead is passed first, and the rest is ahead of it
  | past hc _ ih => rw [ahead_eq_cons hl hc, ih (coherent_advance hl hc), List.cons_append]
  | mark p _ ih => exact ih hl
  | record e _ ih => exact ih hl

/-- Positions go on behind what is passed. -/
theorem stands (h : Moves l cs l') (hl : l.Stands before) : l'.Stands (before ++ cs) := by
  induction h generalizing before with
  | stay => rwa [List.append_nil]
  | @past l l' c cs hc _ ih =>
    -- the cursor is past the lookahead already
    have hcursor : l.cursor = Cursor.start.pastAll (before ++ [c]) := by
      rw [hl.2, hc, Option.toList_some]
    have hstands := ih (stands_advance hcursor)
    rwa [List.append_assoc] at hstands
  | mark p _ ih => exact ih hl
  | record e _ ih => exact ih hl

end Moves

/-! ## The functions of the lexer move it -/

/-- A run is the longest one ahead, and taking it moves past it. -/
theorem takeWhile_moves (accept : Char → Bool) {l : Lexer σ} (h : l.Coherent) :
    (l.takeWhile accept).1 = l.ahead.takeWhile accept ∧
      Moves l (l.ahead.takeWhile accept) (l.takeWhile accept).2 := by
  fun_induction takeWhile accept l with
  | case1 l c hc haccept run l' hrun ih =>
    obtain ⟨hfst, hmoves⟩ := ih (coherent_advance h hc)
    rw [hrun] at hfst hmoves
    rw [ahead_eq_cons h hc, List.takeWhile_cons_of_pos haccept]
    exact ⟨congrArg (c :: ·) hfst, .past hc hmoves⟩
  | case2 l c hc haccept =>
    rw [ahead_eq_cons h hc, List.takeWhile_cons_of_neg haccept]
    exact ⟨rfl, .stay⟩
  | case3 l hnone =>
    rw [ahead_eq_nil h hnone]
    exact ⟨rfl, .stay⟩

theorem skipWhile_moves (accept : Char → Bool) {l : Lexer σ} (h : l.Coherent) :
    Moves l (l.ahead.takeWhile accept) (l.skipWhile accept) := by
  rw [← takeWhile_snd]
  exact (takeWhile_moves accept h).2

/-- A run stops where the class of characters ends. -/
theorem skipWhile_stops (accept : Char → Bool) (l : Lexer σ) {c : Char}
    (hc : (l.skipWhile accept).lookahead = some c) : accept c = false := by
  fun_induction skipWhile accept l with
  | case1 l d _ _ ih => exact ih hc
  | case2 l d hd haccept =>
    obtain rfl : d = c := Option.some.inj (hd.symm.trans hc)
    exact Bool.eq_false_iff.mpr haccept
  | case3 l hnone =>
    rw [hnone] at hc
    cases hc

end Lexer

end FloatLang
