import FloatLang.Proofs.Grammar.Tiling
import FloatLang.Proofs.Text.Lines

/-! # Positions of Places

  Where the lexemes of a text stand, counted in lines and columns.

  - **Counted** (`Place.Fits.counted`): at a place a cursor has the line and the
    column that counting gives, in any unit.
  - **Numbered** (`place text k`): the `k`-th place of a text. Behind the last one,
    where the text ends, comes the same again and again.
  - **In order**: each place comes before the next (`prefix_placeFrom_of_lt`), and so do
    their positions (`position_place_lt`), until the end of the text is reached.
-/

namespace FloatLang

/-! ## Counting at a place -/

/-- No terminator is cut in two where a lexeme starts. -/
theorem Place.Fits.seam_start {whole after : List Char} {p : Place} (h : p.Fits whole after) :
    p.before.getLast? = some '\r' → (p.lexeme ++ after).head? ≠ some '\n' := by
  intro _ hfeed
  exact h.stops _ hfeed (.inl (by decide))

/-- The cursor at a place has the line and column that counting gives there. -/
theorem Place.Fits.counted {size : Char → Nat} (hsize : ∀ c, 0 < size c) {whole after : List Char}
    {p : Place} (h : p.Fits whole after) :
    (Cursor.start.pastAll p.before).position
      = ⟨lineAt size whole (endOffset size 0 p.before),
          columnAt size whole (endOffset size 0 p.before)⟩ := by
  have hcount := position_pastAll hsize h.seam_start
  rwa [← h.split] at hcount

/-- Counted in characters a text is as long as it has characters. -/
theorem endOffset_one (offset : Nat) (text : List Char) :
    endOffset (fun _ => 1) offset text = offset + text.length := by
  induction text generalizing offset with
  | nil => rfl
  | cons c rest ih =>
    rw [endOffset, ih, List.length_cons]
    omega

/-! ## Places by number -/

/-- The `k`-th place of `text`, which follows `before`. Behind the last place it is
    the end of the text again. -/
def placeFrom (before text : List Char) (k : Nat) : Place :=
  (places before text)[k]?.getD ⟨before ++ text, []⟩

/-- The `k`-th place of a text. -/
def place (text : List Char) (k : Nat) : Place :=
  placeFrom [] text k

section split
variable {before text trivia lexeme rest : List Char} (h : Munch text trivia lexeme rest)
include h

/-- The first place is behind the trivia. -/
theorem placeFrom_zero : placeFrom before text 0 = ⟨before ++ trivia, lexeme⟩ := by
  unfold placeFrom
  by_cases hlexeme : lexeme = []
  · subst hlexeme
    rw [h.places_eq_nil]
    rfl
  · rw [h.places_eq_cons hlexeme]
    rfl

/-- The others are those of the rest. -/
theorem placeFrom_succ (k : Nat) :
    placeFrom before text (k + 1) = placeFrom (before ++ trivia ++ lexeme) rest k := by
  unfold placeFrom
  by_cases hlexeme : lexeme = []
  · subst hlexeme
    -- behind the end of the text comes nothing but its end
    have htext : text = trivia := by
      rw [h.whole, h.rest_eq_nil, List.append_nil, List.append_nil]
    rw [h.places_eq_nil, h.rest_eq_nil, places_nil, htext]
    cases k <;> simp
  · rw [h.places_eq_cons hlexeme, List.getElem?_cons_succ]
    have hwhole : before ++ text = before ++ trivia ++ lexeme ++ rest := by
      rw [h.whole]
      simp only [List.append_assoc]
    rw [hwhole]

end split

/-- Every place is in the text. -/
theorem fits_place (text : List Char) (k : Nat) : ∃ after, (place text k).Fits text after := by
  unfold place placeFrom
  cases hk : (places [] text)[k]? with
  | none => exact ⟨[], by simp, rfl, by simp⟩
  | some p =>
    have htiled : Tiled text [] (places [] text) := tiled_places rfl
    exact htiled.fits (List.mem_of_getElem? hk)

/-- At a place stands a lexeme, or the end of the text. -/
theorem isLexeme_placeFrom (before text : List Char) (k : Nat) :
    (placeFrom before text k).lexeme = [] ∨ IsLexeme (placeFrom before text k).lexeme := by
  induction k generalizing before text with
  | zero =>
    obtain ⟨trivia, lexeme, rest, h⟩ := exists_munch text
    rw [placeFrom_zero h]
    exact h.isLexeme
  | succ k ih =>
    obtain ⟨trivia, lexeme, rest, h⟩ := exists_munch text
    rw [placeFrom_succ h]
    exact ih _ _

/-! ## Places in order -/

/-- Every place is behind what was passed. -/
theorem prefix_placeFrom (before text : List Char) (k : Nat) :
    before <+: (placeFrom before text k).before := by
  induction k generalizing before text with
  | zero =>
    obtain ⟨trivia, lexeme, rest, h⟩ := exists_munch text
    rw [placeFrom_zero h]
    exact List.prefix_append _ _
  | succ k ih =>
    obtain ⟨trivia, lexeme, rest, h⟩ := exists_munch text
    rw [placeFrom_succ h]
    refine List.IsPrefix.trans ?_ (ih _ _)
    rw [List.append_assoc]
    exact List.prefix_append _ _

/-- A lexeme ends before any later one starts. -/
theorem prefix_placeFrom_of_lt (before text : List Char) {j k : Nat} (hjk : j < k) :
    (placeFrom before text j).before ++ (placeFrom before text j).lexeme
      <+: (placeFrom before text k).before := by
  obtain ⟨k, rfl⟩ := Nat.exists_eq_add_one_of_ne_zero (Nat.ne_zero_of_lt hjk)
  induction j generalizing before text k with
  | zero =>
    obtain ⟨trivia, lexeme, rest, h⟩ := exists_munch text
    rw [placeFrom_zero h, placeFrom_succ h]
    exact prefix_placeFrom _ _ _
  | succ j ih =>
    obtain ⟨trivia, lexeme, rest, h⟩ := exists_munch text
    obtain ⟨k, rfl⟩ : ∃ k', k = k' + 1 := ⟨k - 1, by omega⟩
    rw [placeFrom_succ h, placeFrom_succ h]
    exact ih _ _ _ (Nat.lt_of_succ_lt_succ hjk)

/-- Where the text ends, it ends for good. -/
theorem placeFrom_of_end {before text : List Char} {j : Nat}
    (hend : (placeFrom before text j).lexeme = []) {k : Nat} (hjk : j ≤ k) :
    placeFrom before text k = ⟨before ++ text, []⟩ := by
  induction j generalizing before text k with
  | zero =>
    obtain ⟨trivia, lexeme, rest, h⟩ := exists_munch text
    rw [placeFrom_zero h] at hend
    obtain rfl : lexeme = [] := hend
    unfold placeFrom
    have htext : text = trivia := by
      rw [h.whole, h.rest_eq_nil, List.append_nil, List.append_nil]
    rw [h.places_eq_nil, htext]
    cases k <;> simp
  | succ j ih =>
    obtain ⟨trivia, lexeme, rest, h⟩ := exists_munch text
    obtain ⟨k, rfl⟩ : ∃ k', k = k' + 1 := ⟨k - 1, by omega⟩
    rw [placeFrom_succ h] at hend ⊢
    rw [ih hend (Nat.le_of_succ_le_succ hjk), h.whole]
    simp only [List.append_assoc]

/-- Every lexeme uses up a character. -/
theorem lt_length_of_placeFrom {before text : List Char} {k : Nat}
    (hne : (placeFrom before text k).lexeme ≠ []) : k < text.length := by
  induction k generalizing before text with
  | zero =>
    obtain ⟨trivia, lexeme, rest, h⟩ := exists_munch text
    rw [placeFrom_zero h] at hne
    have hpos : 0 < lexeme.length := List.length_pos_iff.mpr hne
    rw [h.whole, List.length_append, List.length_append]
    omega
  | succ k ih =>
    obtain ⟨trivia, lexeme, rest, h⟩ := exists_munch text
    rw [placeFrom_succ h] at hne
    have hk := ih hne
    have hpos : lexeme ≠ [] := by
      rintro rfl
      rw [h.rest_eq_nil] at hk
      exact absurd hk (Nat.not_lt_zero _)
    have hpos' := List.length_pos_iff.mpr hpos
    rw [h.whole, List.length_append, List.length_append]
    omega

/-- **Positions increase** from each lexeme to any later place. -/
theorem position_place_lt {text : List Char} {j k : Nat} (hjk : j < k)
    (hne : (place text j).lexeme ≠ []) :
    (Cursor.start.pastAll (place text j).before).position
      < (Cursor.start.pastAll (place text k).before).position := by
  obtain ⟨tail, htail⟩ := prefix_placeFrom_of_lt [] text hjk
  have hlexeme : IsLexeme (place text j).lexeme := (isLexeme_placeFrom [] text j).resolve_left hne
  obtain ⟨c, run, hrun⟩ := List.exists_cons_of_ne_nil hne
  have hc : endsLine c = false := by
    apply hlexeme.endsLine_eq_false
    rw [hrun]
    exact List.mem_cons_self
  change (place text j).before ++ (place text j).lexeme ++ tail = (place text k).before at htail
  rw [← htail, List.append_assoc, Cursor.pastAll_append, hrun]
  exact Cursor.lt_pastAll _ hc _

end FloatLang
