import Mathlib.Data.List.DropRight
import FloatLang.Proofs.Grammar.Positions

/-! # Items of a Text

  What a text consists of apart from its blanks: lexemes and comments, in the order in
  which they stand there, and the end of the text behind them.

  - **Items** (`items`): found by going from one to the next.
  - **Comments** (`comments`): found line by line. A comment starts at a mark that has
    no mark before it on its line, and takes up the rest of the line.
  - **Itemized** (`Itemized text is`): the items `is` are the places and the comments of
    the text, each behind the end of the one before it.

  Main statement: `itemized_items`.
-/

namespace FloatLang

/-- Something in a text that is no blank. -/
inductive Item where
  /-- A lexeme at its place, or the end of the text. -/
  | lexeme (place : Place)
  /-- A comment, from its mark up to the line end that closes it. -/
  | comment (place : Place)
  deriving DecidableEq, Repr

namespace Item

/-- What stands there, with the whole text before it. -/
def place : Item → Place
  | .lexeme p => p
  | .comment p => p

/-- The place of a lexeme. -/
def lexeme? : Item → Option Place
  | .lexeme p => some p
  | .comment _ => none

/-- The place of a comment. -/
def comment? : Item → Option Place
  | .lexeme _ => none
  | .comment p => some p

end Item

/-- The items of `text`, which follows `before`. -/
def items (before text : List Char) : List Item :=
  match text with
  | [] => [.lexeme ⟨before, []⟩]
  | c :: rest =>
    if isBlank c then items (before ++ [c]) rest
    else if c = commentMark then
      .comment ⟨before, c :: rest.takeWhile inComment⟩
        :: items (before ++ c :: rest.takeWhile inComment) (rest.dropWhile inComment)
    else
      .lexeme ⟨before, firstLexeme (c :: rest)⟩
        :: items (before ++ firstLexeme (c :: rest))
          ((c :: rest).drop (firstLexeme (c :: rest)).length)
termination_by text.length
decreasing_by
  · simp
  · have := (List.dropWhile_suffix inComment (l := rest)).length_le
    simp only [List.length_cons]
    omega
  · have : firstLexeme (c :: rest) ≠ [] := by simp [firstLexeme_eq_nil_iff]
    have := List.length_pos_iff.mpr this
    simp only [List.length_drop, List.length_cons]
    omega

/-! ## From one item to the next -/

theorem items_nil (before : List Char) : items before [] = [.lexeme ⟨before, []⟩] := by
  rw [items]

theorem items_blanks {blanks : List Char} (h : ∀ c ∈ blanks, isBlank c = true)
    (before rest : List Char) : items before (blanks ++ rest) = items (before ++ blanks) rest := by
  induction blanks generalizing before with
  | nil => rw [List.nil_append, List.append_nil]
  | cons c blanks ih =>
    have hrest : ∀ d ∈ blanks, isBlank d = true := fun d hd => h d (List.mem_cons_of_mem c hd)
    rw [List.cons_append, items, if_pos (h c List.mem_cons_self), ih hrest, List.append_assoc]
    rfl

theorem items_comment {text : List Char} (htext : text.head? = some commentMark)
    (before : List Char) :
    items before text
      = .comment ⟨before, text.takeWhile inComment⟩
        :: items (before ++ text.takeWhile inComment) (text.dropWhile inComment) := by
  obtain ⟨rest, rfl⟩ := List.head?_eq_some_iff.mp htext
  have hin : inComment commentMark = true := by decide
  rw [items, if_neg (by decide), if_pos rfl, List.takeWhile_cons_of_pos hin,
    List.dropWhile_cons_of_pos hin]

theorem items_lexeme {c : Char} {text : List Char} (htext : text.head? = some c)
    (hc : ¬ StartsTrivia c) (before : List Char) :
    items before text
      = .lexeme ⟨before, firstLexeme text⟩
        :: items (before ++ firstLexeme text) (text.drop (firstLexeme text).length) := by
  obtain ⟨rest, rfl⟩ := List.head?_eq_some_iff.mp htext
  simp only [StartsTrivia, not_or] at hc
  rw [items, if_neg hc.1, if_neg hc.2]

/-! ## Lexemes -/

/-- The lexemes among the items are the places. -/
theorem lexemes_items (before text : List Char) :
    (items before text).filterMap Item.lexeme? = places before text := by
  fun_induction items before text with
  | case1 before => rw [places_nil]; rfl
  | case2 before c rest hblank ih => rw [places_blank before rest hblank, ih]
  | case3 before rest hblank ih =>
    rw [places_comment, ← ih]
    rfl
  | case4 before c rest hblank hmark ih =>
    have hstart : ¬ StartsTrivia c := not_or.mpr ⟨hblank, hmark⟩
    rw [places_lexeme rfl hstart, ← ih]
    rfl

/-! ## Comments -/

/-- The characters of a text from the end of its last line end on. -/
def lastLine (text : List Char) : List Char :=
  text.rtakeWhile inComment

/-- The comments of `text`, which follows `before`. Each starts at a mark with no mark
    before it on its line. -/
def comments (before : List Char) : List Char → List Place
  | [] => []
  | c :: text =>
    if c = commentMark ∧ commentMark ∉ lastLine before then
      ⟨before, c :: text.takeWhile inComment⟩ :: comments (before ++ [c]) text
    else comments (before ++ [c]) text

section comments
variable {before : List Char} {c : Char}

theorem lastLine_concat_lineEnd (hc : endsLine c = true) : lastLine (before ++ [c]) = [] := by
  rw [lastLine, List.rtakeWhile_concat_neg]
  simp [inComment, hc]

theorem lastLine_concat_inLine (hc : endsLine c = false) :
    lastLine (before ++ [c]) = lastLine before ++ [c] := by
  rw [lastLine, List.rtakeWhile_concat_pos _ _ _ (by simp [inComment, hc])]
  rfl

/-- Where no mark stands none starts a comment. -/
theorem comments_markless {cs : List Char} (h : commentMark ∉ cs) (rest : List Char) :
    comments before (cs ++ rest) = comments (before ++ cs) rest := by
  induction cs generalizing before with
  | nil => rw [List.nil_append, List.append_nil]
  | cons c cs ih =>
    obtain ⟨hc, hcs⟩ := List.ne_and_not_mem_of_not_mem_cons h
    have hnot : ¬ (c = commentMark ∧ commentMark ∉ lastLine before) := fun h => hc h.1.symm
    rw [List.cons_append, comments, if_neg hnot, ih hcs, List.append_assoc]
    rfl

/-- Behind a mark no other on the same line starts a comment. -/
theorem comments_behind_mark {body : List Char} (hmark : commentMark ∈ lastLine before)
    (hbody : ∀ c ∈ body, endsLine c = false) (rest : List Char) :
    comments before (body ++ rest) = comments (before ++ body) rest := by
  induction body generalizing before with
  | nil => rw [List.nil_append, List.append_nil]
  | cons c body ih =>
    have hnot : ¬ (c = commentMark ∧ commentMark ∉ lastLine before) := fun h => h.2 hmark
    have hline := hbody c List.mem_cons_self
    have hrest : ∀ d ∈ body, endsLine d = false := fun d hd => hbody d (List.mem_cons_of_mem c hd)
    have hstill : commentMark ∈ lastLine (before ++ [c]) := by
      rw [lastLine_concat_inLine hline]
      exact List.mem_append_left _ hmark
    rw [List.cons_append, comments, if_neg hnot, ih hstill hrest, List.append_assoc]
    rfl

/-- A stretch without a mark brings none to the line. -/
theorem mark_not_mem_lastLine {cs : List Char} (h : commentMark ∉ lastLine before)
    (hcs : commentMark ∉ cs) : commentMark ∉ lastLine (before ++ cs) := by
  induction cs generalizing before with
  | nil => rwa [List.append_nil]
  | cons c cs ih =>
    obtain ⟨hc, hrest⟩ := List.ne_and_not_mem_of_not_mem_cons hcs
    have hnext : commentMark ∉ lastLine (before ++ [c]) := by
      cases hline : endsLine c with
      | true => simp [lastLine_concat_lineEnd hline]
      | false =>
        rw [lastLine_concat_inLine hline]
        simp [h, hc]
    rw [List.append_cons]
    exact ih hnext hrest

end comments

/-- A lexeme has no comment mark. -/
theorem IsLexeme.mark_not_mem {lexeme : List Char} (h : IsLexeme lexeme) :
    commentMark ∉ lexeme := by
  intro hmark
  have hnumeral : isNumeral commentMark = false := by decide
  cases h with
  | @word c rest halpha hrest =>
    have halnum : commentMark.isAlphanum = true := by
      rcases List.mem_cons.mp hmark with hfirst | hmem
      · rw [hfirst]
        exact isAlphanum_of_isAlpha halpha
      · exact hrest _ hmem
    exact absurd halnum (by decide)
  | @numeral c rest hfirst hrest =>
    rcases List.mem_cons.mp hmark with heq | hmem
    · rw [← heq, hnumeral] at hfirst
      cases hfirst
    · rw [hrest _ hmem] at hnumeral
      cases hnumeral
  | operator hoperator =>
    have heq := List.mem_singleton.mp hmark
    exact (not_of_isOperator hoperator).1 (.inr heq.symm)

/-- The comments among the items are the comments of the text. Between two items there
    is either no mark on the line so far, or a line end next. -/
theorem comments_items {before text : List Char}
    (h : commentMark ∉ lastLine before ∨ ∀ c, text.head? = some c → endsLine c = true) :
    (items before text).filterMap Item.comment? = comments before text := by
  fun_induction items before text with
  | case1 before => rfl
  | case2 before c rest hblank ih =>
    have hc : commentMark ∉ [c] := by
      rw [List.mem_singleton]
      rintro rfl
      exact absurd hblank (by decide)
    have hnext : commentMark ∉ lastLine (before ++ [c]) := by
      cases hline : endsLine c with
      | true => simp [lastLine_concat_lineEnd hline]
      | false =>
        rcases h with h | h
        · exact mark_not_mem_lastLine h hc
        · rw [h c rfl] at hline
          cases hline
    have hskip : comments before (c :: rest) = comments (before ++ [c]) rest :=
      comments_markless hc rest
    rw [ih (.inl hnext), hskip]
  | case3 before rest hblank ih =>
    have hstart : commentMark ∉ lastLine before := by
      refine h.resolve_right ?_
      intro hend
      exact absurd (hend commentMark rfl) (by decide)
    have hstop : ∀ c, (rest.dropWhile inComment).head? = some c → endsLine c = true := by
      intro c hc
      have hout := List.head?_dropWhile_not inComment rest
      rw [hc] at hout
      simpa [inComment] using hout
    have hbody : ∀ c ∈ rest.takeWhile inComment, endsLine c = false := by
      intro c hc
      have hin := List.all_eq_true.mp List.all_takeWhile c hc
      simpa [inComment] using hin
    -- the comment starts at its mark, and no other comment does up to the line end
    have hmark : commentMark ∈ lastLine (before ++ [commentMark]) := by
      rw [lastLine_concat_inLine endsLine_commentMark]
      simp
    have hbehind := comments_behind_mark hmark hbody (rest.dropWhile inComment)
    rw [List.takeWhile_append_dropWhile, List.append_assoc, List.singleton_append] at hbehind
    rw [comments, if_pos ⟨rfl, hstart⟩, hbehind, ← ih (.inr hstop)]
    rfl
  | case4 before c rest hblank hmark ih =>
    have hstart : ¬ StartsTrivia c := not_or.mpr ⟨hblank, hmark⟩
    have hlexeme : IsLexeme (firstLexeme (c :: rest)) := isLexeme_firstLexeme hstart
    have hmarkless := hlexeme.mark_not_mem
    have hline : commentMark ∉ lastLine before := by
      refine h.resolve_right ?_
      intro hend
      exact hblank (isBlank_of_endsLine (hend c rfl))
    have hskip : comments before (c :: rest) = _ :=
      (congrArg (comments before) (firstLexeme_append_drop (c :: rest)).symm).trans
        (comments_markless hmarkless _)
    rw [hskip, ← ih (.inl (mark_not_mem_lastLine hline hmarkless))]
    rfl

/-! ## In order -/

/-- The text up to the end of what stands at a place. -/
def Place.through (p : Place) : List Char :=
  p.before ++ p.lexeme

section order
variable {before text : List Char}

/-- Every item is behind what was passed. -/
theorem prefix_of_mem_items {i : Item} (hi : i ∈ items before text) :
    before <+: i.place.before := by
  fun_induction items before text with
  | case1 before =>
    obtain rfl := List.mem_singleton.mp hi
    exact List.prefix_rfl
  | case2 before c rest _ ih => exact (List.prefix_append before [c]).trans (ih hi)
  | case3 before rest _ ih =>
    rcases List.mem_cons.mp hi with rfl | hmem
    · exact List.prefix_rfl
    · exact (List.prefix_append before _).trans (ih hmem)
  | case4 before c rest _ _ ih =>
    rcases List.mem_cons.mp hi with rfl | hmem
    · exact List.prefix_rfl
    · exact (List.prefix_append before _).trans (ih hmem)

/-- An item ends before any later one starts. -/
theorem ordered_items (before text : List Char) :
    (items before text).Pairwise fun i j => i.place.through <+: j.place.before := by
  fun_induction items before text with
  | case1 before => exact List.pairwise_singleton _ _
  | case2 before c rest _ ih => exact ih
  | case3 before rest _ ih => exact List.pairwise_cons.mpr ⟨fun _ hj => prefix_of_mem_items hj, ih⟩
  | case4 before c rest _ _ ih =>
    exact List.pairwise_cons.mpr ⟨fun _ hj => prefix_of_mem_items hj, ih⟩

/-- Every item is in the text, and does not start with a line feed. -/
theorem exists_after_of_mem_items {i : Item} (hi : i ∈ items before text) :
    ∃ after, before ++ text = i.place.before ++ (i.place.lexeme ++ after) ∧
      (i.place.lexeme ++ after).head? ≠ some '\n' := by
  fun_induction items before text with
  | case1 before =>
    obtain rfl := List.mem_singleton.mp hi
    exact ⟨[], rfl, by simp [Item.place]⟩
  | case2 before c rest _ ih =>
    rw [List.append_cons]
    exact ih hi
  | case3 before rest _ ih =>
    have hwhole : commentMark :: rest
        = commentMark :: rest.takeWhile inComment ++ rest.dropWhile inComment := by
      rw [List.cons_append, List.takeWhile_append_dropWhile]
    rcases List.mem_cons.mp hi with rfl | hmem
    · refine ⟨rest.dropWhile inComment, congrArg (before ++ ·) hwhole, ?_⟩
      show some commentMark ≠ some '\n'
      decide
    · rw [hwhole, ← List.append_assoc]
      exact ih hmem
  | case4 before c rest hblank _ ih =>
    have hwhole := firstLexeme_append_drop (c :: rest)
    rcases List.mem_cons.mp hi with rfl | hmem
    · refine ⟨_, congrArg (before ++ ·) hwhole.symm, ?_⟩
      simp only [Item.place, hwhole, List.head?_cons, ne_eq, Option.some.injEq]
      rintro rfl
      exact hblank (by decide)
    · rw [← hwhole, ← List.append_assoc]
      exact ih hmem

end order

/-- The items `is` are what the text consists of, each where counting in characters
    finds it. -/
structure Itemized (text : List Char) (is : List Item) : Prop where
  /-- The lexemes among them are the places of the text. -/
  lexemes : is.filterMap Item.lexeme? = places [] text
  /-- The comments among them are those of the text. -/
  comments : is.filterMap Item.comment? = comments [] text
  /-- Each is behind the end of the ones before it. -/
  ordered : is.Pairwise fun i j => i.place.through <+: j.place.before
  /-- A cursor finds each where counting does. -/
  counted : ∀ i ∈ is, (Cursor.start.pastAll i.place.before).position
    = ⟨lineAt (fun _ => 1) text i.place.before.length,
        columnAt (fun _ => 1) text i.place.before.length⟩

/-- **Every text is itemized** by its items. -/
theorem itemized_items (text : List Char) : Itemized text (items [] text) where
  lexemes := lexemes_items [] text
  comments := comments_items (.inl List.not_mem_nil)
  ordered := ordered_items [] text
  counted i hi := by
    obtain ⟨after, hwhole, hfeed⟩ := exists_after_of_mem_items hi
    have hone : ∀ c : Char, 0 < (fun _ => 1) c := fun _ => Nat.one_pos
    have hcount : (Cursor.start.pastAll i.place.before).position = _ :=
      position_pastAll hone (fun _ => hfeed)
    rwa [← hwhole, endOffset_one, Nat.zero_add, List.nil_append] at hcount

end FloatLang
