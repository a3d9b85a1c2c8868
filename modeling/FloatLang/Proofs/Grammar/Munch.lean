import FloatLang.Token.Basic

/-! # The Lexical Grammar

  What a text consists of, said without a lexer: trivia, and lexemes between
  them.

  - **Trivia** (`Trivia`): blanks and comments. A comment goes on until the next
    line end, or to the end of the text.
  - **Lexeme** (`IsLexeme`): a word, a run of digits and points, or an operator.
  - **Munch** (`Munch`): a text split into its longest trivia, the longest
    lexeme after them, and the rest. Each text has exactly one such split.

  Main statements: `Munch.unique`, and `munch_of_firstLexeme`, by which a split
  is recognised at its seam.
-/

namespace FloatLang

/-! ## Trivia -/

/-- Blanks and comments that `rest` follows. Every comment stops where a line
    end or the end of the text is next. -/
inductive Trivia (rest : List Char) : List Char → Prop where
  /-- No trivia at all. -/
  | nil : Trivia rest []
  /-- A blank, then more trivia. -/
  | blank {c : Char} {trivia : List Char} :
      isBlank c = true → Trivia rest trivia → Trivia rest (c :: trivia)
  /-- A comment, then more trivia. -/
  | comment {body trivia : List Char} :
      (∀ c ∈ body, endsLine c = false) →
      (∀ c, (trivia ++ rest).head? = some c → endsLine c = true) →
      Trivia rest trivia → Trivia rest (commentMark :: (body ++ trivia))

/-- Trivia can only go on at a blank or at a comment mark. -/
def StartsTrivia (c : Char) : Prop := isBlank c = true ∨ c = commentMark

theorem Trivia.head_startsTrivia {rest trivia : List Char} {c : Char}
    (h : Trivia rest (c :: trivia)) : StartsTrivia c := by
  cases h with
  | blank hblank _ => exact .inl hblank
  | comment _ _ _ => exact .inr rfl

/-- Blanks are trivia. -/
theorem trivia_of_isBlank {rest blanks : List Char} (h : ∀ c ∈ blanks, isBlank c = true) :
    Trivia rest blanks := by
  induction blanks with
  | nil => exact .nil
  | cons c blanks ih =>
    have hrest : ∀ d ∈ blanks, isBlank d = true := by
      intro d hd
      exact h d (List.mem_cons_of_mem c hd)
    exact .blank (h c List.mem_cons_self) (ih hrest)

/-- One comment is trivia. -/
theorem trivia_of_comment {rest body : List Char} (hbody : ∀ c ∈ body, endsLine c = false)
    (hstop : ∀ c, rest.head? = some c → endsLine c = true) : Trivia rest (commentMark :: body) := by
  have hnil : Trivia rest [] := .nil
  have hcomment := Trivia.comment hbody (by simpa using hstop) hnil
  rwa [List.append_nil] at hcomment

/-- Trivia followed by trivia are trivia. -/
theorem Trivia.append {rest a b : List Char} (ha : Trivia (b ++ rest) a) (hb : Trivia rest b) :
    Trivia rest (a ++ b) := by
  induction ha with
  | nil => exact hb
  | blank hblank _ ih => exact .blank hblank ih
  | @comment body trivia hbody hstop _ ih =>
    rw [List.cons_append, List.append_assoc]
    exact .comment hbody (by simpa using hstop) ih

/-- A text has one way to be split where a class of characters ends. -/
theorem append_unique {α : Type} {p : α → Bool} {a a' b b' : List α} (h : a ++ b = a' ++ b')
    (ha : ∀ c ∈ a, p c = false) (ha' : ∀ c ∈ a', p c = false)
    (hb : ∀ c, b.head? = some c → p c = true) (hb' : ∀ c, b'.head? = some c → p c = true) :
    a = a' ∧ b = b' := by
  induction a generalizing a' with
  | nil =>
    cases a' with
    | nil => exact ⟨rfl, h⟩
    | cons c rest' =>
      have htrue := hb c (by simp [show b = c :: rest' ++ b' from h])
      simp [ha' c (by simp)] at htrue
  | cons c rest ih =>
    cases a' with
    | nil =>
      have htrue := hb' c (by simp [← show c :: rest ++ b = b' from h])
      simp [ha c (by simp)] at htrue
    | cons d rest' =>
      obtain ⟨rfl, htail⟩ := List.cons.inj (show c :: (rest ++ b) = d :: (rest' ++ b') from h)
      have hrun : ∀ x ∈ rest, p x = false := by
        intro x hx
        exact ha x (List.mem_cons_of_mem c hx)
      have hrun' : ∀ x ∈ rest', p x = false := by
        intro x hx
        exact ha' x (List.mem_cons_of_mem c hx)
      obtain ⟨rfl, hrest⟩ := ih htail hrun hrun'
      exact ⟨rfl, hrest⟩

/-- It has one way to be split before the first mark. -/
theorem append_cons_unique {α : Type} [DecidableEq α] {mark : α} {a a' b b' : List α}
    (h : a ++ mark :: b = a' ++ mark :: b') (ha : mark ∉ a) (ha' : mark ∉ a') :
    a = a' ∧ b = b' := by
  have hunmarked {cs : List α} (hcs : mark ∉ cs) : ∀ c ∈ cs, (c == mark) = false := by
    intro c hc
    rw [beq_eq_false_iff_ne]
    rintro rfl
    exact hcs hc
  have hmarked (cs : List α) : ∀ c, (mark :: cs).head? = some c → (c == mark) = true := by
    intro c hc
    exact beq_iff_eq.mpr (Option.some.inj hc).symm
  obtain ⟨hfront, hback⟩ :=
    append_unique h (hunmarked ha) (hunmarked ha') (hmarked b) (hmarked b')
  exact ⟨hfront, (List.cons.inj hback).2⟩

/-- Trivia are the longest at hand if what follows cannot go on with them. -/
theorem Trivia.longest {rest trivia : List Char} (h : Trivia rest trivia)
    (hstop : ∀ c, rest.head? = some c → ¬ StartsTrivia c) :
    ∀ {rest' trivia' : List Char}, trivia ++ rest = trivia' ++ rest' → Trivia rest' trivia' →
      trivia'.length ≤ trivia.length := by
  induction h with
  | nil =>
    intro rest' trivia' heq h'
    cases trivia' with
    | nil => exact Nat.le_refl _
    | cons c trivia' =>
      have hhead : rest.head? = some c := by simp [show rest = c :: trivia' ++ rest' from heq]
      exact absurd h'.head_startsTrivia (hstop c hhead)
  | @blank c trivia hblank _ ih =>
    intro rest' trivia' heq h'
    cases h' with
    | nil => exact Nat.zero_le _
    | blank _ h' =>
      -- both go on behind the blank
      have htail := (List.cons.inj heq).2
      exact Nat.succ_le_succ (ih htail h')
    | comment _ _ _ =>
      obtain rfl : c = commentMark := (List.cons.inj heq).1
      exact absurd hblank (by decide)
  | @comment body trivia hbody hend _ ih =>
    intro rest' trivia' heq h'
    cases h' with
    | nil => exact Nat.zero_le _
    | blank hblank _ =>
      obtain rfl := (List.cons.inj heq).1
      exact absurd hblank (by decide)
    | @comment body' trivia' hbody' hend' h' =>
      have htail : body ++ (trivia ++ rest) = body' ++ (trivia' ++ rest') := by
        simpa using (List.cons.inj heq).2
      -- both comments stop at the first line end
      obtain ⟨rfl, hrest⟩ := append_unique htail hbody hbody' hend hend'
      have := ih hrest h'
      simp only [List.length_cons, List.length_append]
      omega

/-! ## Lexemes -/

/-- The pieces of text that are tokens. -/
inductive IsLexeme : List Char → Prop where
  /-- A word: a letter, then letters and digits. -/
  | word {c : Char} {rest : List Char} :
      c.isAlpha = true → (∀ d ∈ rest, d.isAlphanum = true) → IsLexeme (c :: rest)
  /-- A run of digits and points. -/
  | numeral {c : Char} {rest : List Char} :
      isNumeral c = true → (∀ d ∈ rest, isNumeral d = true) → IsLexeme (c :: rest)
  /-- An operator. -/
  | operator {c : Char} : isOperator c = true → IsLexeme [c]

/-- The token of a lexeme, and the end of input where there is none. -/
def Token.ofLexeme : List Char → Token
  | [] => .endOfInput
  | c :: rest =>
    if c.isAlpha then .ofWord (c :: rest)
    else if isNumeral c then .ofNumeral (c :: rest)
    else .symbol c

/-- Only where there is no lexeme the input has ended. -/
theorem Token.ofLexeme_eq_endOfInput_iff {lexeme : List Char} :
    Token.ofLexeme lexeme = .endOfInput ↔ lexeme = [] := by
  constructor
  · intro h
    cases lexeme with
    | nil => rfl
    | cons c rest =>
      rw [Token.ofLexeme] at h
      split at h
      · unfold Token.ofWord at h
        split at h <;> cases h
      · split at h <;> cases h
  · rintro rfl
    rfl

/-- The lexeme that a text starts with, if it does not start with trivia. -/
def firstLexeme : List Char → List Char
  | [] => []
  | c :: rest =>
    if c.isAlpha then c :: rest.takeWhile Char.isAlphanum
    else if isNumeral c then c :: rest.takeWhile isNumeral
    else [c]

theorem IsLexeme.ne_nil {lexeme : List Char} (h : IsLexeme lexeme) : lexeme ≠ [] := by
  cases h <;> exact List.cons_ne_nil _ _

theorem firstLexeme_eq_nil_iff {text : List Char} : firstLexeme text = [] ↔ text = [] := by
  constructor
  · intro h
    cases text with
    | nil => rfl
    | cons c rest =>
      rw [firstLexeme] at h
      split at h
      · exact absurd h (List.cons_ne_nil _ _)
      · split at h <;> exact absurd h (List.cons_ne_nil _ _)
  · rintro rfl
    rfl

/-- Of the five classes, a character that is in none of the others is an
    operator. -/
theorem isOperator_of_not {c : Char} (htrivia : ¬ StartsTrivia c) (halpha : ¬ c.isAlpha = true)
    (hnumeral : ¬ isNumeral c = true) : isOperator c = true := by
  simp only [StartsTrivia, not_or] at htrivia
  simp [isOperator, htrivia.1, htrivia.2, halpha, hnumeral]

/-- An operator is in none of the other classes. -/
theorem not_of_isOperator {c : Char} (h : isOperator c = true) :
    ¬ StartsTrivia c ∧ ¬ c.isAlpha = true ∧ ¬ isNumeral c = true := by
  simp only [isOperator, Bool.not_eq_true', Bool.or_eq_false_iff, beq_eq_false_iff_ne] at h
  obtain ⟨⟨⟨hblank, halpha⟩, hnumeral⟩, hmark⟩ := h
  simp [StartsTrivia, hblank, halpha, hnumeral, hmark]

theorem StartsTrivia.not_isAlpha {c : Char} (h : StartsTrivia c) : c.isAlpha = false := by
  rcases h with hblank | rfl
  · simp only [isBlank, Bool.or_eq_true, beq_iff_eq] at hblank
    rcases hblank with ((((rfl | rfl) | rfl) | rfl) | rfl) | rfl <;> decide
  · decide

theorem StartsTrivia.not_isNumeral {c : Char} (h : StartsTrivia c) : isNumeral c = false := by
  rcases h with hblank | rfl
  · simp only [isBlank, Bool.or_eq_true, beq_iff_eq] at hblank
    rcases hblank with ((((rfl | rfl) | rfl) | rfl) | rfl) | rfl <;> decide
  · decide

/-- Neither a letter nor a character of a numeral starts trivia. -/
theorem not_startsTrivia {c : Char} (h : c.isAlpha = true ∨ isNumeral c = true) :
    ¬ StartsTrivia c := by
  intro htrivia
  rcases h with halpha | hnumeral
  · rw [htrivia.not_isAlpha] at halpha
    cases halpha
  · rw [htrivia.not_isNumeral] at hnumeral
    cases hnumeral

/-- No lexeme ends a line. -/
theorem IsLexeme.endsLine_eq_false {lexeme : List Char} (h : IsLexeme lexeme) {c : Char}
    (hc : c ∈ lexeme) : endsLine c = false := by
  rw [Bool.eq_false_iff]
  intro hends
  have hblank : isBlank c = true := isBlank_of_endsLine hends
  have hnumeral : isNumeral c = false := StartsTrivia.not_isNumeral (.inl hblank)
  cases h with
  | @word d rest halpha hrest =>
    have halnum : c.isAlphanum = true := by
      rcases List.mem_cons.mp hc with rfl | hmem
      · exact isAlphanum_of_isAlpha halpha
      · exact hrest c hmem
    rw [Char.isAlphanum, StartsTrivia.not_isAlpha (.inl hblank), Bool.false_or] at halnum
    simp [isNumeral, halnum] at hnumeral
  | numeral hfirst hrest =>
    rcases List.mem_cons.mp hc with rfl | hmem
    · simp [hfirst] at hnumeral
    · simp [hrest c hmem] at hnumeral
  | operator hoperator =>
    obtain rfl := List.mem_singleton.mp hc
    exact (not_of_isOperator hoperator).1 (.inl hblank)

/-- What a text starts with is a lexeme. -/
theorem isLexeme_firstLexeme {c : Char} {rest : List Char} (hc : ¬ StartsTrivia c) :
    IsLexeme (firstLexeme (c :: rest)) := by
  rw [firstLexeme]
  by_cases halpha : c.isAlpha = true
  · rw [if_pos halpha]
    apply IsLexeme.word halpha
    intro d hd
    exact List.all_eq_true.mp List.all_takeWhile d hd
  · rw [if_neg halpha]
    by_cases hnumeral : isNumeral c = true
    · rw [if_pos hnumeral]
      apply IsLexeme.numeral hnumeral
      intro d hd
      exact List.all_eq_true.mp List.all_takeWhile d hd
    · rw [if_neg hnumeral]
      exact .operator (isOperator_of_not hc halpha hnumeral)

/-- A run of a class of characters is no longer than the longest. -/
theorem length_le_length_takeWhile {α : Type} {p : α → Bool} {run rest : List α}
    (h : ∀ c ∈ run, p c = true) : run.length ≤ ((run ++ rest).takeWhile p).length := by
  rw [List.takeWhile_append_of_pos h, List.length_append]
  omega

/-- What a text starts with is the longest lexeme there. -/
theorem IsLexeme.length_le_firstLexeme {lexeme rest : List Char} (h : IsLexeme lexeme) :
    lexeme.length ≤ (firstLexeme (lexeme ++ rest)).length := by
  cases h with
  | word halpha hrest =>
    rw [List.cons_append, firstLexeme, if_pos halpha]
    exact Nat.succ_le_succ (length_le_length_takeWhile hrest)
  | @numeral c _ hnumeral hrest =>
    rw [List.cons_append, firstLexeme, if_neg (not_isAlpha_of_isNumeral hnumeral),
      if_pos hnumeral]
    exact Nat.succ_le_succ (length_le_length_takeWhile hrest)
  | @operator c hoperator =>
    have hne : firstLexeme ([c] ++ rest) ≠ [] := by simp [firstLexeme_eq_nil_iff]
    exact List.length_pos_iff.mpr hne

/-- A text starts with its first lexeme. -/
theorem firstLexeme_isPrefix (text : List Char) : firstLexeme text <+: text := by
  cases text with
  | nil => exact List.prefix_rfl
  | cons c rest =>
    have hrun (p : Char → Bool) : c :: rest.takeWhile p <+: c :: rest :=
      List.cons_prefix_cons.mpr ⟨rfl, List.takeWhile_prefix p⟩
    rw [firstLexeme]
    split
    · exact hrun _
    · split
      · exact hrun _
      · exact List.cons_prefix_cons.mpr ⟨rfl, List.nil_prefix⟩

theorem firstLexeme_append_drop (text : List Char) :
    firstLexeme text ++ text.drop (firstLexeme text).length = text :=
  (List.prefix_iff_eq_append.mp (firstLexeme_isPrefix text))

/-! ## The split -/

/-- A text split into trivia, a lexeme and the rest, the first two as long as
    they can be. There is no lexeme where the text is trivia throughout. -/
structure Munch (text trivia lexeme rest : List Char) : Prop where
  /-- Nothing is lost. -/
  whole : text = trivia ++ lexeme ++ rest
  /-- The first part is trivia. -/
  isTrivia : Trivia (lexeme ++ rest) trivia
  /-- No trivia at the start of the text are longer. -/
  triviaLongest : ∀ trivia' rest', text = trivia' ++ rest' → Trivia rest' trivia' →
    trivia'.length ≤ trivia.length
  /-- The second part is a lexeme if there is one. -/
  isLexeme : lexeme = [] ∨ IsLexeme lexeme
  /-- No lexeme after the trivia is longer. -/
  lexemeLongest : ∀ lexeme' rest', lexeme ++ rest = lexeme' ++ rest' → IsLexeme lexeme' →
    lexeme'.length ≤ lexeme.length

/-- Parts that can be no longer are a split. -/
theorem munch_of_firstLexeme {trivia remaining : List Char} (htrivia : Trivia remaining trivia)
    (hstop : ∀ c, remaining.head? = some c → ¬ StartsTrivia c) :
    Munch (trivia ++ remaining) trivia (firstLexeme remaining)
      (remaining.drop (firstLexeme remaining).length) where
  whole := by rw [List.append_assoc, firstLexeme_append_drop]
  isTrivia := by rwa [firstLexeme_append_drop]
  triviaLongest _ _ heq h := htrivia.longest hstop heq h
  isLexeme := by
    cases remaining with
    | nil => exact .inl rfl
    | cons c rest => exact .inr (isLexeme_firstLexeme (hstop c rfl))
  lexemeLongest lexeme' rest' heq h := by
    rw [firstLexeme_append_drop] at heq
    rw [heq]
    exact h.length_le_firstLexeme

namespace Munch

variable {text trivia trivia' lexeme lexeme' rest rest' : List Char}

/-- **Unique split**: a text is split in one way only. -/
theorem unique (h : Munch text trivia lexeme rest) (h' : Munch text trivia' lexeme' rest') :
    trivia' = trivia ∧ lexeme' = lexeme ∧ rest' = rest := by
  have hwhole : trivia' ++ (lexeme' ++ rest') = trivia ++ (lexeme ++ rest) := by
    rw [← List.append_assoc, ← List.append_assoc, ← h.whole, ← h'.whole]
  have hle := h.triviaLongest _ _ (by rw [h'.whole, List.append_assoc]) h'.isTrivia
  have hge := h'.triviaLongest _ _ (by rw [h.whole, List.append_assoc]) h.isTrivia
  -- trivia of one length at the start of one text are the same
  obtain ⟨rfl, hremaining⟩ := List.append_inj hwhole (Nat.le_antisymm hle hge)
  -- an empty lexeme is no longer than any other
  have hlength : ∀ {x y r s : List Char}, x ++ r = y ++ s → (x = [] ∨ IsLexeme x) →
      (∀ x' r', y ++ s = x' ++ r' → IsLexeme x' → x'.length ≤ y.length) →
      x.length ≤ y.length := by
    rintro x y r s heq (rfl | hx) hlongest
    · exact Nat.zero_le _
    · exact hlongest x r heq.symm hx
  have hle' := hlength hremaining h'.isLexeme h.lexemeLongest
  have hge' := hlength hremaining.symm h.isLexeme h'.lexemeLongest
  obtain ⟨rfl, hrest⟩ := List.append_inj hremaining (Nat.le_antisymm hle' hge')
  exact ⟨rfl, rfl, hrest⟩

end Munch

end FloatLang
