import FloatLang.Proofs.Grammar.Munch

/-! # Places of Lexemes

  Where the lexemes of a text stand, as the grammar has it. Each is given with
  the whole text before it, from which its offset, line and column can be read
  in any unit. The last place is the end of the text, where no lexeme stands.

  Both lexers are measured against `places`: it moves over one blank or comment
  at a time, and over one lexeme at a time.

  - `places_trivia`: trivia are passed as a whole.
  - `exists_munch`: every text has a split.
  - `Munch.places_eq_cons`: its lexeme is the first place.
-/

namespace FloatLang

/-- A lexeme with the whole text before it. -/
structure Place where
  /-- The text before the lexeme. -/
  before : List Char
  /-- The lexeme, empty at the end of the text. -/
  lexeme : List Char
  deriving DecidableEq, Repr

/-- The places of the lexemes of `text`, which follows `before`. -/
def places (before text : List Char) : List Place :=
  match text with
  | [] => [⟨before, []⟩]
  | c :: rest =>
    if isBlank c then places (before ++ [c]) rest
    else if c = commentMark then
      places (before ++ c :: rest.takeWhile inComment) (rest.dropWhile inComment)
    else
      ⟨before, firstLexeme (c :: rest)⟩
        :: places (before ++ firstLexeme (c :: rest))
          ((c :: rest).drop (firstLexeme (c :: rest)).length)
termination_by text.length
decreasing_by
  · simp
  · have := (List.dropWhile_suffix inComment (l := rest)).length_le
    simp only [List.length_cons]
    omega
  · have : firstLexeme (c :: rest) ≠ [] := by simp [firstLexeme_eq_nil_iff]
    have := List.length_pos_iff.mpr this
    simp only [List.length_drop, List.length_cons]
    omega

/-! ## One step -/

theorem places_nil (before : List Char) : places before [] = [⟨before, []⟩] := by
  rw [places]

theorem places_blank {c : Char} (before rest : List Char) (hc : isBlank c = true) :
    places before (c :: rest) = places (before ++ [c]) rest := by
  rw [places, if_pos hc]

theorem places_comment (before rest : List Char) :
    places before (commentMark :: rest)
      = places (before ++ commentMark :: rest.takeWhile inComment) (rest.dropWhile inComment) := by
  rw [places, if_neg (by decide), if_pos rfl]

theorem places_lexeme {c : Char} {before text : List Char} (htext : text.head? = some c)
    (hc : ¬ StartsTrivia c) :
    places before text
      = ⟨before, firstLexeme text⟩
        :: places (before ++ firstLexeme text) (text.drop (firstLexeme text).length) := by
  obtain ⟨rest, rfl⟩ := List.head?_eq_some_iff.mp htext
  simp only [StartsTrivia, not_or] at hc
  rw [places, if_neg hc.1, if_neg hc.2]

/-! ## Whole stretches -/

/-- A comment is the longest stretch without a line end. -/
theorem span_comment {body rest : List Char} (hbody : ∀ c ∈ body, endsLine c = false)
    (hstop : ∀ c, rest.head? = some c → endsLine c = true) :
    (body ++ rest).takeWhile inComment = body ∧ (body ++ rest).dropWhile inComment = rest := by
  have hin : ∀ c ∈ body, inComment c = true := by
    intro c hc
    simp [inComment, hbody c hc]
  have hout : rest.takeWhile inComment = [] ∧ rest.dropWhile inComment = rest := by
    cases rest with
    | nil => exact ⟨rfl, rfl⟩
    | cons c rest => simp [inComment, hstop c rfl]
  rw [List.takeWhile_append_of_pos hin, List.dropWhile_append_of_pos hin, hout.1, hout.2]
  exact ⟨List.append_nil _, rfl⟩

/-- Trivia hold no place. -/
theorem places_trivia {trivia rest : List Char} (h : Trivia rest trivia) (before : List Char) :
    places before (trivia ++ rest) = places (before ++ trivia) rest := by
  induction h generalizing before with
  | nil => rw [List.nil_append, List.append_nil]
  | @blank c trivia hblank _ ih =>
    rw [List.cons_append, places_blank before _ hblank, ih, List.append_assoc]
    rfl
  | @comment body trivia hbody hstop _ ih =>
    obtain ⟨htake, hdrop⟩ := span_comment hbody hstop
    rw [List.cons_append, List.append_assoc, places_comment, htake, hdrop, ih, List.append_assoc]
    rfl

/-- Every text starts with trivia that cannot go on. -/
theorem exists_trivia (text : List Char) :
    ∃ trivia remaining, text = trivia ++ remaining ∧ Trivia remaining trivia ∧
      ∀ c, remaining.head? = some c → ¬ StartsTrivia c := by
  fun_induction places [] text with
  | case1 => exact ⟨[], [], rfl, .nil, by simp⟩
  | case2 _ c rest hblank ih =>
    obtain ⟨trivia, remaining, rfl, htrivia, hstop⟩ := ih
    exact ⟨c :: trivia, remaining, rfl, .blank hblank htrivia, hstop⟩
  | case3 _ rest _ ih =>
    obtain ⟨trivia, remaining, hrest, htrivia, hstop⟩ := ih
    refine ⟨commentMark :: (rest.takeWhile inComment ++ trivia), remaining, ?_, ?_, hstop⟩
    · rw [List.cons_append, List.append_assoc, ← hrest, List.takeWhile_append_dropWhile]
    · refine .comment ?_ ?_ htrivia
      · intro c hc
        have hin := List.all_eq_true.mp List.all_takeWhile c hc
        simpa [inComment] using hin
      · -- the comment goes on as far as it can
        intro c hc
        have hout := List.head?_dropWhile_not inComment rest
        rw [hrest, hc] at hout
        simpa [inComment] using hout
  | case4 _ c rest hblank hmark ih =>
    refine ⟨[], c :: rest, rfl, .nil, ?_⟩
    intro d hd
    obtain rfl : c = d := by simpa using hd
    rintro (h | h)
    · exact hblank h
    · exact hmark h

/-- Every text has a split. -/
theorem exists_munch (text : List Char) :
    ∃ trivia lexeme rest, Munch text trivia lexeme rest := by
  obtain ⟨trivia, remaining, rfl, htrivia, hstop⟩ := exists_trivia text
  exact ⟨_, _, _, munch_of_firstLexeme htrivia hstop⟩

namespace Munch

variable {text trivia lexeme rest : List Char}

/-- What follows the trivia of a split is no trivia, and starts with the
    lexeme. -/
theorem seam (h : Munch text trivia lexeme rest) :
    (∀ c, (lexeme ++ rest).head? = some c → ¬ StartsTrivia c) ∧
      firstLexeme (lexeme ++ rest) = lexeme := by
  obtain ⟨trivia', remaining, rfl, htrivia, hstop⟩ := exists_trivia text
  obtain ⟨rfl, rfl, rfl⟩ := h.unique (munch_of_firstLexeme htrivia hstop)
  rw [firstLexeme_append_drop]
  exact ⟨hstop, rfl⟩

/-- A blank in front of a text goes to the trivia. -/
theorem uncons {c : Char} (h : Munch (c :: text) trivia lexeme rest) (hc : isBlank c = true) :
    ∃ trivia', trivia = c :: trivia' ∧ Munch text trivia' lexeme rest := by
  obtain ⟨trivia', remaining, rfl, htrivia, hstop⟩ := exists_trivia text
  have hmunch := munch_of_firstLexeme htrivia hstop
  -- with the blank in front the same seam splits the longer text
  have hmunch' := munch_of_firstLexeme (.blank hc htrivia) hstop
  obtain ⟨rfl, rfl, rfl⟩ := hmunch'.unique h
  exact ⟨trivia', rfl, hmunch⟩

/-- There is a lexeme unless the text is trivia throughout. -/
theorem lexeme_eq_nil_iff (h : Munch text trivia lexeme rest) :
    lexeme = [] ↔ Trivia [] text := by
  constructor
  · rintro rfl
    have hrest : rest = [] := firstLexeme_eq_nil_iff.mp h.seam.2
    have htrivia := h.isTrivia
    rw [h.whole, hrest]
    rw [hrest] at htrivia
    simpa using htrivia
  · intro htrivia
    -- trivia as long as the text leave nothing behind them
    have hle := h.triviaLongest text [] (List.append_nil _).symm htrivia
    have hlength := congrArg List.length h.whole
    simp only [List.length_append] at hlength
    exact List.length_eq_zero_iff.mp (by omega)

/-- A split without a lexeme is trivia throughout. -/
theorem rest_eq_nil (h : Munch text trivia [] rest) : rest = [] :=
  firstLexeme_eq_nil_iff.mp h.seam.2

/-- Without a lexeme the end of the text is the only place. -/
theorem places_eq_nil (h : Munch text trivia [] rest) (before : List Char) :
    places before text = [⟨before ++ trivia, []⟩] := by
  rw [h.whole, List.append_assoc, places_trivia h.isTrivia, h.rest_eq_nil]
  exact places_nil _

/-- A lexeme is the first place, and the others are those of the rest. -/
theorem places_eq_cons (h : Munch text trivia lexeme rest) (hne : lexeme ≠ [])
    (before : List Char) :
    places before text
      = ⟨before ++ trivia, lexeme⟩ :: places (before ++ trivia ++ lexeme) rest := by
  obtain ⟨hstop, hfirst⟩ := h.seam
  obtain ⟨c, tail, rfl⟩ := List.exists_cons_of_ne_nil hne
  rw [h.whole, List.append_assoc, places_trivia h.isTrivia,
    places_lexeme (c := c) rfl (hstop c rfl), hfirst, List.drop_left]

end Munch

end FloatLang
