import FloatLang.Proofs.Grammar.Places

/-! # What Follows a Split

  How far the lexemes of a text depend on the text behind them.

  - **One character decides** (`Munch.replace`): behind a split only the first
    character of the rest matters, and whether there is one.
  - **A line feed seals** (`places_lineFeed`): up to a line feed the places are
    those of the text before it, and behind it those of the text after it.
-/

namespace FloatLang

/-! ## Runs -/

/-- A run is the longest at the start of a text if the next character is not of
    its class. -/
theorem takeWhile_append_eq_left_iff {p : Char → Bool} {run rest : List Char} :
    (run ++ rest).takeWhile p = run ↔
      (∀ c ∈ run, p c = true) ∧ ∀ d, rest.head? = some d → p d = false := by
  constructor
  · intro h
    have hrun : ∀ c ∈ run, p c = true := by
      intro c hc
      rw [← h] at hc
      exact List.all_eq_true.mp List.all_takeWhile c hc
    refine ⟨hrun, ?_⟩
    intro d hd
    obtain ⟨tail, rfl⟩ := List.head?_eq_some_iff.mp hd
    rw [Bool.eq_false_iff]
    intro htrue
    -- the next character would belong to the run
    rw [List.takeWhile_append_of_pos hrun, List.takeWhile_cons_of_pos htrue] at h
    simp at h
  · rintro ⟨hrun, hstop⟩
    rw [List.takeWhile_append_of_pos hrun]
    cases rest with
    | nil => rw [List.takeWhile_nil, List.append_nil]
    | cons d tail =>
      have hd : ¬ p d = true := by simp [hstop d rfl]
      rw [List.takeWhile_cons_of_neg hd, List.append_nil]

/-- A run stops where it did if a text goes on with a character that is not of
    its class. -/
theorem span_append_of_stop {p : Char → Bool} {d : Char} (hd : p d = false)
    (text tail : List Char) :
    (text ++ d :: tail).takeWhile p = text.takeWhile p ∧
      (text ++ d :: tail).dropWhile p = text.dropWhile p ++ d :: tail := by
  induction text with
  | nil => simp [hd]
  | cons c text ih =>
    by_cases hc : p c = true
    · simp [hc, ih.1, ih.2]
    · simp [hc]

/-! ## One character behind a split -/

section replace
variable {text trivia lexeme rest rest' : List Char} (hhead : rest.head? = rest'.head?)
include hhead

theorem head?_append_replace (front : List Char) :
    (front ++ rest).head? = (front ++ rest').head? := by
  rw [List.head?_append, List.head?_append, hhead]

/-- Trivia stay trivia if the next character stays. -/
theorem Trivia.replace (h : Trivia rest trivia) : Trivia rest' trivia := by
  induction h with
  | nil => exact .nil
  | blank hblank _ ih => exact .blank hblank ih
  | @comment body trivia hbody hstop _ ih =>
    refine .comment hbody ?_ ih
    intro c hc
    exact hstop c ((head?_append_replace hhead trivia).trans hc)

/-- A lexeme stays the first one if the next character stays. -/
theorem firstLexeme_replace (h : firstLexeme (lexeme ++ rest) = lexeme) :
    firstLexeme (lexeme ++ rest') = lexeme := by
  cases lexeme with
  | nil =>
    -- without a lexeme there is no rest
    have hrest : rest = [] := firstLexeme_eq_nil_iff.mp h
    rw [hrest, List.head?_nil, eq_comm, List.head?_eq_none_iff] at hhead
    rw [hhead]
    rfl
  | cons c run =>
    have hrun {p : Char → Bool} (htake : (run ++ rest).takeWhile p = run) :
        (run ++ rest').takeWhile p = run := by
      rw [takeWhile_append_eq_left_iff] at htake ⊢
      rwa [← hhead]
    rw [List.cons_append, firstLexeme] at h ⊢
    by_cases halpha : c.isAlpha = true
    · rw [if_pos halpha] at h ⊢
      exact congrArg (c :: ·) (hrun (List.cons.inj h).2)
    · rw [if_neg halpha] at h ⊢
      by_cases hnumeral : isNumeral c = true
      · rw [if_pos hnumeral] at h ⊢
        exact congrArg (c :: ·) (hrun (List.cons.inj h).2)
      · rw [if_neg hnumeral] at h ⊢
        exact h

/-- **One character decides**: a split stays where it is if the first character of
    the rest stays, whatever comes behind that. -/
theorem Munch.replace (h : Munch text trivia lexeme rest) :
    Munch (trivia ++ lexeme ++ rest') trivia lexeme rest' := by
  obtain ⟨hstop, hfirst⟩ := h.seam
  have hhead' := head?_append_replace hhead lexeme
  have htrivia : Trivia (lexeme ++ rest') trivia := h.isTrivia.replace hhead'
  have hsplit := munch_of_firstLexeme htrivia fun c hc => hstop c (hhead'.trans hc)
  rwa [firstLexeme_replace hhead hfirst, List.drop_left, ← List.append_assoc] at hsplit

end replace

/-! ## A line feed between two texts -/

/-- No lexeme goes on over a line feed. -/
theorem firstLexeme_lineFeed (c : Char) (text tail : List Char) :
    firstLexeme (c :: (text ++ '\n' :: tail)) = firstLexeme (c :: text) := by
  rw [firstLexeme, firstLexeme]
  by_cases halpha : c.isAlpha = true
  · rw [if_pos halpha, if_pos halpha, (span_append_of_stop (by decide) text tail).1]
  · rw [if_neg halpha, if_neg halpha]
    by_cases hnumeral : isNumeral c = true
    · rw [if_pos hnumeral, if_pos hnumeral, (span_append_of_stop (by decide) text tail).1]
    · rw [if_neg hnumeral, if_neg hnumeral]

/-- The place in a text that `front` comes before. -/
def Place.behind (front : List Char) (p : Place) : Place :=
  { p with before := front ++ p.before }

/-- A text stands in a longer one as it stands alone. -/
theorem places_behind (front before text : List Char) :
    places (front ++ before) text = (places before text).map (Place.behind front) := by
  fun_induction places before text with
  | case1 before => rw [places_nil]; rfl
  | case2 before c rest hblank ih => rw [places_blank _ _ hblank, List.append_assoc, ih]
  | case3 before rest hmark ih => rw [places_comment, List.append_assoc, ih]
  | case4 before c rest hblank hmark ih =>
    have hstarts : ¬ StartsTrivia c := by simp [StartsTrivia, hblank, hmark]
    rw [places_lexeme (c := c) rfl hstarts, List.append_assoc, ih]
    rfl

/-- The last place is the end of the text. -/
theorem getLast?_places (before text : List Char) :
    (places before text).getLast? = some ⟨before ++ text, []⟩ := by
  fun_induction places before text with
  | case1 before => rw [List.append_nil]; rfl
  | case2 before c rest hblank ih => rw [ih, List.append_assoc]; rfl
  | case3 before rest hmark ih =>
    rw [ih, List.append_assoc, List.cons_append, List.takeWhile_append_dropWhile]
  | case4 before c rest hblank hmark ih =>
    rw [List.getLast?_cons, ih, List.append_assoc, firstLexeme_append_drop]
    rfl

theorem places_ne_nil (before text : List Char) : places before text ≠ [] := by
  intro hnil
  have hlast := getLast?_places before text
  rw [hnil] at hlast
  cases hlast

/-- **A line feed seals**: up to it stand the lexemes of the text before it, and
    behind it those of the text after it. Only the end of the first text is no
    place any more. -/
theorem places_lineFeed (before a b : List Char) :
    places before (a ++ '\n' :: b)
      = (places before a).dropLast ++ places (before ++ a ++ ['\n']) b := by
  fun_induction places before a with
  | case1 before => rw [List.nil_append, places_blank before b (by decide), List.append_nil]; rfl
  | case2 before c rest hblank ih =>
    rw [List.cons_append, places_blank before _ hblank, ih]
    simp only [List.append_assoc, List.singleton_append]
  | case3 before rest hmark ih =>
    -- a comment goes on no further than the line feed
    have hfeed : inComment '\n' = false := by decide
    obtain ⟨htake, hdrop⟩ := span_append_of_stop hfeed rest b
    have hcomment : rest.takeWhile inComment ++ rest.dropWhile inComment = rest :=
      List.takeWhile_append_dropWhile
    rw [List.cons_append, places_comment, htake, hdrop, ih, List.append_assoc before,
      List.cons_append, hcomment]
  | case4 before c rest hblank hmark ih =>
    have hstarts : ¬ StartsTrivia c := by simp [StartsTrivia, hblank, hmark]
    have hfirst := firstLexeme_lineFeed c rest b
    have hsplit := firstLexeme_append_drop (c :: rest)
    -- the lexeme is a part of the first text
    have hdrop : (c :: (rest ++ '\n' :: b)).drop (firstLexeme (c :: rest)).length
        = (c :: rest).drop (firstLexeme (c :: rest)).length ++ '\n' :: b := by
      rw [← List.cons_append, List.drop_append_of_le_length (firstLexeme_isPrefix _).length_le]
    rw [List.cons_append, places_lexeme (c := c) rfl hstarts, hfirst, hdrop, ih,
      List.dropLast_cons_of_ne_nil (places_ne_nil _ _), List.cons_append,
      List.append_assoc before, hsplit]

end FloatLang
