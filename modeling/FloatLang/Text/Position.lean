import FloatLang.Text.CharClass

/-! # Positions

  Where a character stands in a stream, counted in lines and columns.

  A **line terminator** is a carriage return with the line feed after it, or
  either of the two alone. Reading left to right it is enough to remember
  whether the last character was a carriage return: a line feed there
  completes a terminator that has been counted already. A `Cursor` is a
  position with that one bit.

  **Assumption**: lines and columns are numbers without a bound. In machine words they
  would overflow in a text longer than any memory, and that does not happen here.
-/

namespace FloatLang

/-- A line and a column, both counted from one and without a bound. Columns count
    characters. -/
structure Position where
  /-- The line. -/
  line : Nat
  /-- The column in characters. -/
  column : Nat
  deriving DecidableEq, Repr, Inhabited

namespace Position

/-- The position of the first character of a stream. -/
def start : Position := ⟨1, 1⟩

/-- Earlier lines come first, and within a line earlier columns. -/
protected def compare (a b : Position) : Ordering :=
  (compare a.line b.line).then (compare a.column b.column)

instance : Ord Position := ⟨Position.compare⟩

instance : LT Position := ltOfOrd

/-- The position as `line:column`. -/
def describe (p : Position) : String :=
  toString p.line ++ ":" ++ toString p.column

/-- The position with its fields named. -/
def inspect (p : Position) : String :=
  "Position \x7b line: " ++ toString p.line ++ ", column: " ++ toString p.column ++ " \x7d"

/-- The words that a hasher is fed for a position. -/
def hashWords (p : Position) : List Nat :=
  [p.line, p.column]

/-- `a` comes before `b` when its line is smaller, or its column on the same
    line. -/
theorem lt_iff {a b : Position} :
    a < b ↔ a.line < b.line ∨ a.line = b.line ∧ a.column < b.column := by
  show Position.compare a b = .lt ↔ _
  simp only [Position.compare, Ordering.then_eq_lt, Nat.compare_eq_lt, Nat.compare_eq_eq]

protected theorem lt_trans {a b c : Position} (hab : a < b) (hbc : b < c) : a < c := by
  rw [lt_iff] at hab hbc ⊢
  omega

end Position

/-! ## Moving over characters -/

/-- The position of the next character, with a note whether the character
    before it was a carriage return. -/
structure Cursor where
  /-- The position that the next character has. -/
  position : Position
  /-- Whether a line feed would complete the terminator before it. -/
  afterReturn : Bool
  deriving DecidableEq, Repr, Inhabited

namespace Cursor

/-- The cursor before the first character. -/
def start : Cursor := ⟨.start, false⟩

/-- The cursor past `c`. A line feed after a carriage return moves nothing:
    the line it ends was ended by the return. -/
def past (k : Cursor) (c : Char) : Cursor :=
  if c == '\n' && k.afterReturn then
    { k with afterReturn := false }
  else if endsLine c then
    { position := ⟨k.position.line + 1, 1⟩, afterReturn := c == '\r' }
  else
    { position := ⟨k.position.line, k.position.column + 1⟩, afterReturn := false }

/-- A line end that completes no terminator before it starts a line. -/
theorem past_endsLine {k : Cursor} {c : Char} (hc : endsLine c = true)
    (hfeed : k.afterReturn = true → c ≠ '\n') :
    k.past c = ⟨⟨k.position.line + 1, 1⟩, c == '\r'⟩ := by
  have hnot : ¬ (c == '\n' && k.afterReturn) = true := by
    intro h
    simp only [Bool.and_eq_true, beq_iff_eq] at h
    exact hfeed h.2 h.1
  rw [past, if_neg hnot, if_pos hc]

/-- Any other character takes up a column. -/
theorem past_inLine {k : Cursor} {c : Char} (hc : endsLine c = false) :
    k.past c = ⟨⟨k.position.line, k.position.column + 1⟩, false⟩ := by
  have hnot : ¬ (c == '\n' && k.afterReturn) = true := by
    intro h
    simp only [Bool.and_eq_true, beq_iff_eq] at h
    rw [h.1] at hc
    exact absurd hc (by decide)
  rw [past, if_neg hnot, if_neg (by simp [hc])]

/-- The cursor past every character of `cs`. -/
def pastAll (k : Cursor) (cs : List Char) : Cursor :=
  cs.foldl past k

@[simp] theorem pastAll_nil (k : Cursor) : k.pastAll [] = k := rfl

@[simp] theorem pastAll_cons (k : Cursor) (c : Char) (cs : List Char) :
    k.pastAll (c :: cs) = (k.past c).pastAll cs := rfl

/-- Passing two stretches of text is passing one after the other. -/
theorem pastAll_append (k : Cursor) (cs ds : List Char) :
    k.pastAll (cs ++ ds) = (k.pastAll cs).pastAll ds :=
  List.foldl_append

/-- Characters that end no line leave the line as it is. -/
theorem line_pastAll {cs : List Char} (h : ∀ c ∈ cs, endsLine c = false) (k : Cursor) :
    (k.pastAll cs).position.line = k.position.line ∧
      (cs ≠ [] → (k.pastAll cs).afterReturn = false) := by
  induction cs generalizing k with
  | nil => exact ⟨rfl, fun hne => absurd rfl hne⟩
  | cons c cs ih =>
    have hc := h c (by simp)
    have hrest : ∀ d ∈ cs, endsLine d = false := by
      intro d hd
      exact h d (List.mem_cons_of_mem c hd)
    obtain ⟨hline, hreturn⟩ := ih hrest (k.past c)
    rw [pastAll_cons, hline, past_inLine hc]
    refine ⟨rfl, ?_⟩
    intro _
    by_cases hcs : cs = []
    · subst hcs
      rfl
    · rw [← past_inLine hc]
      exact hreturn hcs

/-- A character within a line moves a cursor on. -/
theorem lt_past_inLine (k : Cursor) {c : Char} (hc : endsLine c = false) :
    k.position < (k.past c).position := by
  rw [past_inLine hc, Position.lt_iff]
  exact .inr ⟨rfl, Nat.lt_succ_self _⟩

/-- No character moves a cursor back. -/
theorem position_past_eq_or_lt (k : Cursor) (c : Char) :
    (k.past c).position = k.position ∨ k.position < (k.past c).position := by
  by_cases hc : endsLine c = true
  · by_cases hfeed : k.afterReturn = true ∧ c = '\n'
    · -- the line feed of a terminator that is counted already moves nothing
      rw [past, if_pos (by simp [hfeed])]
      exact .inl rfl
    · rw [past_endsLine hc (fun hreturn hnewline => hfeed ⟨hreturn, hnewline⟩), Position.lt_iff]
      exact .inr (.inl (Nat.lt_succ_self _))
  · exact .inr (k.lt_past_inLine (Bool.eq_false_iff.mpr hc))

/-- Neither does any text. -/
theorem position_pastAll_eq_or_lt (k : Cursor) (cs : List Char) :
    (k.pastAll cs).position = k.position ∨ k.position < (k.pastAll cs).position := by
  induction cs generalizing k with
  | nil => exact .inl rfl
  | cons c cs ih =>
    rw [pastAll_cons]
    rcases ih (k.past c) with hrest | hrest
    · rw [hrest]
      exact k.position_past_eq_or_lt c
    · rcases k.position_past_eq_or_lt c with hfirst | hfirst
      · rw [hfirst] at hrest
        exact .inr hrest
      · exact .inr (Position.lt_trans hfirst hrest)

/-- A text that starts within a line moves a cursor on. -/
theorem lt_pastAll (k : Cursor) {c : Char} (hc : endsLine c = false) (cs : List Char) :
    k.position < (k.pastAll (c :: cs)).position := by
  have hfirst := k.lt_past_inLine hc
  rw [pastAll_cons]
  rcases (k.past c).position_pastAll_eq_or_lt cs with hrest | hrest
  · rwa [hrest]
  · exact Position.lt_trans hfirst hrest

/-- A cursor that has left the first position does not come back to it. -/
theorem start_lt_past {k : Cursor} (h : k = start ∨ Position.start < k.position) (c : Char) :
    Position.start < (k.past c).position := by
  -- only the line feed of a terminator that is counted already moves nothing
  by_cases hfeed : c = '\n' ∧ k.afterReturn = true
  · rcases h with rfl | h
    · exact absurd hfeed.2 (by decide)
    · rwa [past, if_pos (by simp [hfeed])]
  · have hline : 1 ≤ k.position.line := by
      rcases h with rfl | h
      · exact Nat.le_refl _
      · rcases Position.lt_iff.mp h with h | h
        · exact Nat.le_of_lt h
        · exact Nat.le_of_eq h.1
    by_cases hc : endsLine c = true
    · have hnew : k.afterReturn = true → c ≠ '\n' := by
        intro hreturn hnewline
        exact hfeed ⟨hnewline, hreturn⟩
      rw [past_endsLine hc hnew, Position.lt_iff]
      show 1 < k.position.line + 1 ∨ _
      exact .inl (Nat.lt_succ_of_le hline)
    · rw [past_inLine (Bool.not_eq_true _ ▸ hc), Position.lt_iff]
      rcases h with rfl | h
      · exact .inr ⟨rfl, by decide⟩
      · rcases Position.lt_iff.mp h with h | h
        · exact .inl h
        · exact .inr ⟨h.1, Nat.lt_succ_of_lt h.2⟩

/-- Past any text at all the cursor is not where it started. -/
theorem start_lt_pastAll {cs : List Char} (hne : cs ≠ []) :
    Position.start < (start.pastAll cs).position := by
  have hmoved (cs : List Char) (k : Cursor) (h : Position.start < k.position) :
      Position.start < (k.pastAll cs).position := by
    induction cs generalizing k with
    | nil => exact h
    | cons c cs ih => exact ih _ (start_lt_past (.inr h) c)
  cases cs with
  | nil => exact absurd rfl hne
  | cons c cs => exact hmoved cs _ (start_lt_past (.inl rfl) c)

theorem pastAll_ne_start {cs : List Char} (hne : cs ≠ []) : start.pastAll cs ≠ start := by
  intro h
  have hlt := start_lt_pastAll hne
  rw [h, Position.lt_iff] at hlt
  exact absurd hlt (by decide)

end Cursor

end FloatLang
