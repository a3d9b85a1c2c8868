import FloatLang.Proofs.Grammar.Items
import FloatLang.Proofs.Lexer.Places
import FloatLang.Proofs.Stream.Decoding

/-! # The Log Is an Account

  A run of a lexer leaves one record for each item of its text, in the order of the
  items. When the stream stops with an error, the record of the error comes as soon as
  the lexer looks past the last character: before the items that end there, and behind
  all others.

  - **Accounts** (`account`): the records of some items and an error.
  - **Quiet** (`Quiet l l'`): between the two states nothing was recorded but the error
    of the stream.
  - **Balanced** (`Balanced whole before total l`): the records made so far and those
    still due are `total`. This is what every function of the lexer keeps.

  Main statement: `log_faithful`.
-/

namespace FloatLang

/-! ## Records of items -/

namespace Item

/-- What is recorded of an item. -/
def event : Item → Event
  | .lexeme p => .returned (.ofLexeme p.lexeme) (Cursor.start.pastAll p.before).position
  | .comment p => .skipped (Cursor.start.pastAll p.before).position

/-- Whether the item ends before `whole` does. -/
def endsBefore (whole : List Char) (i : Item) : Bool :=
  decide (i.place.through.length < whole.length)

end Item

/-- The records of the items `is` of `whole`, with that of the error between the items
    that end before the text does and those that do not. -/
def account (whole : List Char) (error? : Option StreamError) (is : List Item) : List Event :=
  (is.takeWhile (Item.endsBefore whole)).map Item.event ++ error?.toList.map .stopped
    ++ (is.dropWhile (Item.endsBefore whole)).map Item.event

section account
variable {whole : List Char} (error? : Option StreamError) {is : List Item}

/-- Items that end before the text does are recorded first. -/
theorem account_append {early : List Item} (h : ∀ i ∈ early, i.endsBefore whole = true) :
    account whole error? (early ++ is) = early.map Item.event ++ account whole error? is := by
  unfold account
  rw [List.takeWhile_append_of_pos h, List.dropWhile_append_of_pos h, List.map_append]
  simp only [List.append_assoc]

/-- Items that do not are recorded behind the error. -/
theorem account_of_end (h : ∀ i ∈ is, i.endsBefore whole = false) :
    account whole error? is = error?.toList.map .stopped ++ is.map Item.event := by
  unfold account
  cases is with
  | nil => simp
  | cons i is =>
    have hi := h i List.mem_cons_self
    rw [List.takeWhile_cons_of_neg (by simp [hi]), List.dropWhile_cons_of_neg (by simp [hi])]
    rfl

end account

namespace Lexer

variable {σ : Type} [CharStream σ]

/-! ## Quiet steps -/

/-- The error that the stream has still to meet. -/
def pendingError (l : Lexer σ) : Option StreamError :=
  if l.exhausted then none else (drain l.stream).error?

/-- The records of the error that the stream has still to meet. -/
def owed (l : Lexer σ) : List Event :=
  l.pendingError.toList.map .stopped

/-- Nothing is recorded between the two states but the error of the stream, and that
    when the stream ends. -/
structure Quiet (l l' : Lexer σ) : Prop where
  /-- A record that is owed no longer has been made. -/
  paid : l'.log.toList ++ l'.owed = l.log.toList ++ l.owed
  /-- Until the stream ends its error is still to come. -/
  pending : l'.exhausted = false → l'.pendingError = l.pendingError
  /-- A stream that has ended stays so. -/
  running : l'.exhausted = false → l.exhausted = false

namespace Quiet

variable {l m l' : Lexer σ}

theorem refl (l : Lexer σ) : Quiet l l := ⟨rfl, fun _ => rfl, id⟩

theorem trans (h : Quiet l m) (h' : Quiet m l') : Quiet l l' where
  paid := h'.paid.trans h.paid
  pending hl' := (h'.pending hl').trans (h.pending (h'.running hl'))
  running hl' := h.running (h'.running hl')

/-- Until the stream ends nothing is recorded. -/
theorem log_eq (h : Quiet l l') (hl' : l'.exhausted = false) : l'.log.toList = l.log.toList := by
  have hpaid := h.paid
  rw [owed, h.pending hl'] at hpaid
  exact List.append_cancel_right hpaid

end Quiet

theorem quiet_advance (l : Lexer σ) : Quiet l l.advance := by
  by_cases hexhausted : l.exhausted = true
  · unfold advance
    rw [if_pos hexhausted]
    exact ⟨rfl, fun _ => rfl, id⟩
  · rw [Bool.not_eq_true] at hexhausted
    rcases advance_cases hexhausted with ⟨c, s, hpull, heq⟩ | ⟨s, error?, hpull, heq⟩
    · have hpending : l.advance.pendingError = l.pendingError := by
        simp [pendingError, heq, hexhausted, drain_of_delivered hpull]
      have hlog : l.advance.log = l.log := by rw [heq]
      exact ⟨by rw [owed, owed, hpending, hlog], fun _ => hpending, fun _ => hexhausted⟩
    · -- the error that the last pull met is recorded at once
      have hended : l.advance.exhausted = true := by simp [heq]
      have hpending : l.pendingError = error? := by
        simp [pendingError, hexhausted, drain_of_ended hpull]
      refine ⟨?_, fun h => ?_, fun _ => hexhausted⟩
      · rw [owed, owed, hpending, pendingError, if_pos hended, heq]
        cases error? <;> simp [recordError, record]
      · rw [hended] at h
        cases h

theorem quiet_takeWhile (accept : Char → Bool) (l : Lexer σ) :
    Quiet l (l.takeWhile accept).2 := by
  fun_induction takeWhile accept l with
  | case1 l c _ _ run l' hrun ih =>
    rw [hrun] at ih
    exact (quiet_advance l).trans ih
  | case2 l => exact .refl l
  | case3 l => exact .refl l

theorem quiet_skipWhile (accept : Char → Bool) (l : Lexer σ) : Quiet l (l.skipWhile accept) := by
  rw [← takeWhile_snd]
  exact quiet_takeWhile accept l

theorem quiet_skipBlanks (l : Lexer σ) : Quiet l l.skipBlanks :=
  (quiet_skipWhile isBlank l).trans ⟨rfl, fun _ => rfl, id⟩

theorem quiet_takeLexeme (l : Lexer σ) : Quiet l l.takeLexeme.2 := by
  unfold takeLexeme
  cases l.lookahead with
  | none => exact .refl l
  | some c =>
    by_cases halpha : c.isAlpha = true
    · simp only [if_pos halpha]
      exact quiet_takeWhile _ l
    · by_cases hnumeral : isNumeral c = true
      · simp only [if_neg halpha, if_pos hnumeral]
        exact quiet_takeWhile _ l
      · simp only [if_neg halpha, if_neg hnumeral]
        exact quiet_advance l

/-! ## The balance -/

/-- A lexer that has passed `before` of the text `whole`: its records and those that are
    still due make up `total`. -/
structure Balanced (whole before : List Char) (total : List Event) (l : Lexer σ) : Prop where
  /-- The lookahead is absent exactly when the stream has ended. -/
  coherent : l.Coherent
  /-- The rest of the text is unread. -/
  split : whole = before ++ l.unread
  /-- What is due are the records of the items in the rest. -/
  balance : l.log.toList ++ account whole l.pendingError (items before l.unread) = total

/-- Until the stream has ended something is unread. -/
theorem Stands.unread_ne_nil {l : Lexer σ} {before : List Char} (h : l.Stands before)
    (hl : l.Coherent) (hexhausted : l.exhausted = false) : l.unread ≠ [] := by
  obtain ⟨c, hc⟩ := hl.exists_lookahead hexhausted
  intro hnothing
  have hhead := h.head?_unread hl
  rw [hnothing, hc] at hhead
  cases hhead

namespace Balanced

variable {whole before : List Char} {total : List Event} {l m : Lexer σ}

/-- A quiet step past `cs` owes the records of the items that it passes, all of which
    end where it does. -/
theorem passed (h : Balanced whole before total l) (hquiet : Quiet l m) (hm : m.Coherent)
    {cs : List Char} (hstands : m.Stands (before ++ cs)) (hunread : l.unread = cs ++ m.unread)
    {done : List Item} (hitems : items before l.unread = done ++ items (before ++ cs) m.unread)
    (hdone : ∀ i ∈ done, i.place.through = before ++ cs) :
    whole = before ++ cs ++ m.unread ∧
      m.log.toList ++ done.map Item.event
        ++ account whole m.pendingError (items (before ++ cs) m.unread) = total := by
  have hsplit : whole = before ++ cs ++ m.unread := by
    rw [List.append_assoc, ← hunread]
    exact h.split
  refine ⟨hsplit, ?_⟩
  generalize before ++ cs = before' at hstands hitems hdone hsplit ⊢
  have hbalance := h.balance
  rw [hitems] at hbalance
  cases hexhausted : m.exhausted with
  | true =>
    -- nothing is unread, so every item left ends where the text does
    have hnothing : m.unread = [] := if_pos hexhausted
    have hpending : m.pendingError = none := if_pos hexhausted
    rw [hnothing, List.append_nil] at hsplit
    rw [hnothing, items_nil] at hbalance ⊢
    have hend : ∀ i ∈ done ++ [.lexeme ⟨before', []⟩], i.endsBefore whole = false := by
      intro i hi
      have hthrough : i.place.through = whole := by
        rcases List.mem_append.mp hi with hmem | hmem
        · rw [hdone i hmem, hsplit]
        · rw [List.mem_singleton.mp hmem, hsplit]
          exact List.append_nil _
      simp [Item.endsBefore, hthrough]
    have hrest : ∀ i ∈ [Item.lexeme ⟨before', []⟩], i.endsBefore whole = false :=
      fun i hi => hend i (List.mem_append_right _ hi)
    have hlog : m.log.toList = l.log.toList ++ l.owed := by
      have hpaid := hquiet.paid
      rwa [owed, hpending, Option.toList_none, List.map_nil, List.append_nil] at hpaid
    rw [account_of_end _ hend] at hbalance
    rw [hpending, account_of_end _ hrest, hlog, ← hbalance]
    simp [owed]
  | false =>
    have hne := hstands.unread_ne_nil hm hexhausted
    have hlt : before'.length < whole.length := by
      have := List.length_pos_iff.mpr hne
      rw [hsplit, List.length_append]
      omega
    have hearly : ∀ i ∈ done, i.endsBefore whole = true := by
      intro i hi
      rw [Item.endsBefore, hdone i hi]
      exact decide_eq_true hlt
    rw [account_append _ hearly] at hbalance
    rw [hquiet.log_eq hexhausted, hquiet.pending hexhausted, List.append_assoc]
    exact hbalance

/-- Blanks are no items. -/
theorem skipBlanks (h : Balanced whole before total l) (hplaced : l.Placed before) :
    ∃ before', Balanced whole before' total l.skipBlanks ∧ l.skipBlanks.Stands before' := by
  have hmoves := skipBlanks_moves h.coherent
  have hm := hmoves.coherent h.coherent
  obtain ⟨blanks, hblanks, hunread, hstands⟩ : ∃ blanks, (∀ c ∈ blanks, isBlank c = true) ∧
      l.unread = blanks ++ l.skipBlanks.unread ∧ l.skipBlanks.Stands (before ++ blanks) := by
    have hrun : ∀ c ∈ l.unread.takeWhile isBlank, isBlank c = true :=
      fun c hc => List.all_eq_true.mp List.all_takeWhile c hc
    rcases hplaced with ⟨hfresh, rfl⟩ | hstands
    · -- the blank in hand is in no text
      rw [hfresh.ahead_eq, List.takeWhile_cons_of_pos (by decide)] at hmoves
      exact ⟨_, hrun, hfresh.unread_eq h.coherent hmoves, hfresh.stands hmoves⟩
    · rw [hstands.ahead_eq] at hmoves
      exact ⟨_, hrun, hmoves.unread_eq h.coherent hstands, hmoves.stands hstands⟩
  have hitems : items before l.unread
      = [] ++ items (before ++ blanks) l.skipBlanks.unread := by
    rw [hunread, items_blanks hblanks]
    rfl
  obtain ⟨hsplit, hbalance⟩ :=
    h.passed (quiet_skipBlanks l) hm hstands hunread hitems (List.forall_mem_nil _)
  rw [List.map_nil, List.append_nil] at hbalance
  exact ⟨_, ⟨hm, hsplit, hbalance⟩, hstands⟩

/-- A comment is recorded behind its last character. -/
theorem skipComment (h : Balanced whole before total l) (hstands : l.Stands before)
    (hmark : l.lookahead = some commentMark) (hstart : l.lexemeStart = l.lookaheadPosition) :
    ∃ before', Balanced whole before' total l.skipComment ∧ l.skipComment.Stands before' := by
  have hmoves := skipWhile_moves inComment h.coherent
  rw [hstands.ahead_eq] at hmoves
  have hm := hmoves.coherent h.coherent
  have hstands' := hmoves.stands hstands
  have hunread := hmoves.unread_eq h.coherent hstands
  have hhead : l.unread.head? = some commentMark :=
    (hstands.head?_unread h.coherent).trans hmark
  have hrest : l.unread.dropWhile inComment = (l.skipWhile inComment).unread :=
    List.append_cancel_left (List.takeWhile_append_dropWhile.trans hunread)
  have hitems : items before l.unread
      = [.comment ⟨before, l.unread.takeWhile inComment⟩]
        ++ items (before ++ l.unread.takeWhile inComment) (l.skipWhile inComment).unread := by
    rw [items_comment hhead, hrest]
    rfl
  obtain ⟨hsplit, hbalance⟩ := h.passed (quiet_skipWhile inComment l) hm hstands' hunread hitems
    (List.forall_mem_singleton.mpr rfl)
  refine ⟨_, ⟨hm, hsplit, ?_⟩, hstands'⟩
  rw [Lexer.skipComment, record, hstart, hstands.1, Array.toList_push]
  exact hbalance

/-- Trivia are recorded as far as they are comments. -/
theorem skipTrivia (h : Balanced whole before total l) (hplaced : l.Placed before) :
    ∃ before', Balanced whole before' total l.skipTrivia ∧ l.skipTrivia.Stands before' := by
  fun_induction Lexer.skipTrivia l generalizing before with
  | case1 l hmark ih =>
    obtain ⟨before₁, hblanks, hstands₁⟩ := h.skipBlanks hplaced
    obtain ⟨before₂, hcomment, hstands₂⟩ := hblanks.skipComment hstands₁ hmark rfl
    exact ih hcomment (.inr hstands₂)
  | case2 l _ => exact h.skipBlanks hplaced

/-- Where nothing is unread only the end of input is still due. -/
theorem due_at_end (h : Balanced whole before total l) (hended : l.lookahead = none) :
    l.log.toList ++ [Item.event (.lexeme ⟨before, []⟩)] = total := by
  have hexhausted : l.exhausted = true := h.coherent.mp hended
  have hunread : l.unread = [] := if_pos hexhausted
  have hpending : l.pendingError = none := if_pos hexhausted
  have hend : ∀ i ∈ [Item.lexeme ⟨before, []⟩], i.endsBefore whole = false := by
    intro i hi
    rw [List.mem_singleton.mp hi]
    simp [Item.endsBefore, Item.place, Place.through, h.split, hunread]
  have hbalance := h.balance
  rwa [hunread, items_nil, hpending, account_of_end _ hend] at hbalance

/-- Where a lexeme is next the items behind it are still due. -/
theorem due_behind (h : Balanced whole before total l) (hstands : l.Stands before) {c : Char}
    (hlookahead : l.lookahead = some c) (hc : ¬ StartsTrivia c) :
    ∃ before', l.takeLexeme.2.Stands before' ∧ l.takeLexeme.2.Coherent ∧
      whole = before' ++ l.takeLexeme.2.unread ∧
      l.takeLexeme.2.log.toList ++ [Item.event (.lexeme ⟨before, firstLexeme l.unread⟩)]
        ++ account whole l.takeLexeme.2.pendingError (items before' l.takeLexeme.2.unread)
        = total := by
  have hmoves := (takeLexeme_moves h.coherent).2
  rw [hstands.ahead_eq] at hmoves
  have hm := hmoves.coherent h.coherent
  have hstands' := hmoves.stands hstands
  have hunread := hmoves.unread_eq h.coherent hstands
  have hhead : l.unread.head? = some c := (hstands.head?_unread h.coherent).trans hlookahead
  have hrest : l.unread.drop (firstLexeme l.unread).length = l.takeLexeme.2.unread :=
    List.append_cancel_left ((firstLexeme_append_drop l.unread).trans hunread)
  have hitems : items before l.unread
      = [.lexeme ⟨before, firstLexeme l.unread⟩]
        ++ items (before ++ firstLexeme l.unread) l.takeLexeme.2.unread := by
    rw [items_lexeme hhead hc, hrest]
    rfl
  exact ⟨_, hstands', hm, h.passed (quiet_takeLexeme l) hm hstands' hunread hitems
    (List.forall_mem_singleton.mpr rfl)⟩

/-- **A call keeps the balance.** With the end of input everything is recorded. -/
theorem next (h : Balanced whole before total l) (hplaced : l.Placed before) :
    (l.next.1 = .endOfInput → l.next.2.log.toList = total) ∧
      (l.next.1 ≠ .endOfInput →
        ∃ before', Balanced whole before' total l.next.2 ∧ l.next.2.Stands before') := by
  obtain ⟨before', htrivia, hstands⟩ := h.skipTrivia hplaced
  have htoken : l.next.1 = .ofLexeme (firstLexeme l.skipTrivia.unread) := by
    rw [← hstands.ahead_eq]
    exact (takeLexeme_moves htrivia.coherent).1
  have hlog : l.next.2.log.toList = l.skipTrivia.takeLexeme.2.log.toList
      ++ [Item.event (.lexeme ⟨before', firstLexeme l.skipTrivia.unread⟩)] := by
    have hposition : l.skipTrivia.takeLexeme.2.lexemeStart
        = (Cursor.start.pastAll before').position := by
      rw [lexemeStart_takeLexeme, lexemeStart_skipTrivia, hstands.1]
    have hpush : l.next.2.log.toList = l.skipTrivia.takeLexeme.2.log.toList
        ++ [.returned l.next.1 l.skipTrivia.takeLexeme.2.lexemeStart] := Array.toList_push
    rw [hpush, htoken, hposition]
    rfl
  cases hlookahead : l.skipTrivia.lookahead with
  | none =>
    have htake : l.skipTrivia.takeLexeme = (.endOfInput, l.skipTrivia) := by
      rw [Lexer.takeLexeme, hlookahead]
    have hunread : l.skipTrivia.unread = [] := if_pos (htrivia.coherent.mp hlookahead)
    refine ⟨fun _ => ?_, fun hne => absurd (congrArg Prod.fst htake) hne⟩
    rw [hlog, htake, hunread]
    exact htrivia.due_at_end hlookahead
  | some c =>
    obtain ⟨before'', hstands', hm, hsplit, hbalance⟩ :=
      htrivia.due_behind hstands hlookahead (skipTrivia_stops l hlookahead)
    have hne : l.skipTrivia.unread ≠ [] :=
      hstands.unread_ne_nil htrivia.coherent (htrivia.coherent.exhausted_eq_false hlookahead)
    rw [← hlog] at hbalance
    refine ⟨fun hend => ?_, fun _ => ⟨before'', ⟨hm, hsplit, hbalance⟩, hstands'⟩⟩
    rw [htoken, Token.ofLexeme_eq_endOfInput_iff, firstLexeme_eq_nil_iff] at hend
    exact absurd hend hne

/-- **A run records everything.** -/
theorem log_tokens (h : Balanced whole before total l) (hplaced : l.Placed before) :
    l.tokens.2.log.toList = total := by
  fun_induction tokens l generalizing before with
  | case1 l l' hnext =>
    have hlog := (h.next hplaced).1
    rw [hnext] at hlog
    exact hlog rfl
  | case2 l token l' hnext hend entry rest l'' hrest =>
    rename_i ih
    have hbalanced := (h.next hplaced).2
    rw [hnext] at hbalanced
    obtain ⟨before', hl', hstands⟩ := hbalanced hend
    have htail := ih hl' (.inr hstands)
    rwa [hrest] at htail

end Balanced

/-- The log of a run over a stream. -/
theorem log_tokens_ofStream (s : σ) :
    (ofStream s).tokens.2.log.toList
      = account (drain s).text (drain s).error? (items [] (drain s).text) := by
  have hstart : Balanced (drain s).text []
      (account (drain s).text (drain s).error? (items [] (drain s).text)) (ofStream s) := by
    refine ⟨coherent_ofStream s, (unread_ofStream s).symm, ?_⟩
    rw [unread_ofStream]
    rfl
  exact hstart.log_tokens (placed_ofStream s)

end Lexer

/-! ## Faithful logs -/

/-- What is said of an item, and in how much detail. -/
def Item.line : Item → Level × String
  | .lexeme p => (.trace, (Token.ofLexeme p.lexeme).describe ++ " at "
      ++ (Cursor.start.pastAll p.before).position.describe)
  | .comment p => (.debug, "skipped comment starting at "
      ++ (Cursor.start.pastAll p.before).position.describe)

/-- What is said of an error. -/
def StreamError.line (e : StreamError) : Level × String :=
  (.debug, "character source stopped: " ++ e.message)

/-- The log of a run that returned `entries` over a text: it has one record of each item
    of the text and of the error that ended it. The items in `early` are recorded before the
    error, and those in `late` behind it. -/
structure Faithful (text : List Char) (error? : Option StreamError)
    (entries : List (Token × Position)) (log : List Event) (early late : List Item) : Prop where
  /-- These are the items of the text. -/
  itemized : Itemized text (early ++ late)
  /-- The first of them end before the text does. -/
  before_end : ∀ i ∈ early, i.place.through.length < text.length
  /-- The others end where the text ends. -/
  at_end : ∀ i ∈ late, i.place.through = text
  /-- The lexemes among them are what was returned. -/
  returned : entries = ((early ++ late).filterMap Item.lexeme?).map Place.positioned
  /-- Every one of them is recorded. -/
  recorded : log = early.map Item.event ++ error?.toList.map .stopped ++ late.map Item.event
  /-- The records read as what there is to say. -/
  lines : log.map (fun e => (e.level, e.message))
    = early.map Item.line ++ error?.toList.map StreamError.line ++ late.map Item.line

/-- Behind an item that comes to the end of the text so do all others. -/
theorem through_of_mem_dropWhile {whole : List Char} {is : List Item}
    (hfit : ∀ i ∈ is, i.place.through <+: whole)
    (hordered : is.Pairwise fun i j => i.place.through <+: j.place.before) {i : Item}
    (hi : i ∈ is.dropWhile (Item.endsBefore whole)) : i.place.through = whole := by
  induction is with
  | nil => cases hi
  | cons j is ih =>
    obtain ⟨hlater, hordered'⟩ := List.pairwise_cons.mp hordered
    obtain ⟨hj, hfit'⟩ := List.forall_mem_cons.mp hfit
    by_cases hends : j.endsBefore whole = true
    · rw [List.dropWhile_cons_of_pos hends] at hi
      exact ih hfit' hordered' hi
    · rw [List.dropWhile_cons_of_neg hends] at hi
      rw [Item.endsBefore, decide_eq_true_iff, Nat.not_lt] at hends
      rcases List.mem_cons.mp hi with rfl | hmem
      · exact hj.eq_of_length_le hends
      · have hle : j.place.through.length ≤ i.place.through.length :=
          ((hlater i hmem).trans (List.prefix_append _ _)).length_le
        exact (hfit' i hmem).eq_of_length_le (hends.trans hle)

/-- What is accounted for is a faithful log. -/
theorem faithful_account (text : List Char) (error? : Option StreamError) :
    ∃ early late, Faithful text error? ((places [] text).map Place.positioned)
      (account text error? (items [] text)) early late := by
  have hitemized := itemized_items text
  refine ⟨(items [] text).takeWhile (Item.endsBefore text),
    (items [] text).dropWhile (Item.endsBefore text), ?_⟩
  constructor
  case itemized => rwa [List.takeWhile_append_dropWhile]
  case before_end =>
    intro i hi
    exact decide_eq_true_iff.mp (List.all_eq_true.mp List.all_takeWhile i hi)
  case at_end =>
    intro i hi
    refine through_of_mem_dropWhile ?_ hitemized.ordered hi
    intro j hj
    obtain ⟨after, hwhole, _⟩ := exists_after_of_mem_items hj
    rw [← List.append_assoc] at hwhole
    exact ⟨after, hwhole.symm⟩
  case returned => rw [List.takeWhile_append_dropWhile, hitemized.lexemes]
  case recorded => rfl
  case lines =>
    have hitem (is : List Item) :
        (is.map Item.event).map (fun e => (e.level, e.message)) = is.map Item.line := by
      rw [List.map_map]
      apply List.map_congr_left
      rintro (p | p) _ <;> rfl
    rw [account, List.map_append, List.map_append, hitem, hitem, List.map_map]
    rfl

namespace Utf8Reader

/-- The error that a reader meets is the error that it holds afterwards. -/
theorem error?_drain {r : Utf8Reader} (hopen : r.closed = false) (herror : r.error? = none) :
    (drain r).error? = (drain r).stream.error? := by
  fun_induction drain r with
  | case1 r c r' hpull rest ih =>
    rcases next_cases hopen with ⟨d, events, hnext⟩ | ⟨events, error?, stop, hnext, _⟩
    · obtain ⟨-, rfl⟩ := Pull.delivered.inj (hpull.symm.trans hnext)
      exact ih hopen herror
    · cases hpull.symm.trans hnext
  | case2 r r' error? hpull =>
    rcases next_cases hopen with ⟨d, events, hnext⟩ | ⟨events, error?', stop, hnext, _⟩
    · cases hpull.symm.trans hnext
    · obtain ⟨rfl, rfl⟩ := Pull.ended.inj (hpull.symm.trans hnext)
      simp [herror]

end Utf8Reader

namespace Lexer

/-- **The log is faithful**: over a text it has a record of each token returned and of
    each comment, in the order of the text, and nothing else. Over a reader it has those
    of the text that the reader decodes, and one of the error that stops it, if there is
    one, as soon as everything is recorded that ends before the text does. -/
theorem log_faithful :
    (∀ text : List Char, ∃ early late,
      Faithful text none (ofStream text).tokens.1 (ofStream text).tokens.2.log.toList
        early late) ∧
    (∀ events : List ReadEvent, ∃ text rest error? stop early late,
      Utf8.LongestText (supply events).bytes text rest ∧
      Outcome (Utf8.encode text).length rest (supply events).failure? error? stop ∧
      (ofStream ({ events := events } : Utf8Reader)).tokens.2.stream.error? = error? ∧
      Faithful text error? (ofStream ({ events := events } : Utf8Reader)).tokens.1
        (ofStream ({ events := events } : Utf8Reader)).tokens.2.log.toList early late) := by
  constructor
  · intro text
    rw [log_tokens_ofStream, tokens_ofStream, drain_list]
    exact faithful_account text none
  · intro events
    obtain ⟨text, rest, hlongest⟩ := Utf8.exists_longestText (supply events).bytes
    obtain ⟨htext, houtcome⟩ :=
      Utf8Reader.drain_of_supply (r := { events := events }) rfl rfl hlongest
    rw [Nat.zero_add] at houtcome
    obtain ⟨early, late, hfaithful⟩ := faithful_account text
      (drain ({ events := events } : Utf8Reader)).stream.error?
    refine ⟨text, rest, _, _, early, late, hlongest, houtcome, ?_, ?_⟩
    · rw [stream_tokens_ofStream]
    · rw [log_tokens_ofStream, tokens_ofStream_places, Utf8Reader.error?_drain rfl rfl, htext]
      exact hfaithful

/-- A comment that comes to the end of the text is recorded behind the error. -/
example :
    (ofStream ({ events := [.byte 0x2b, .byte 0x23, .byte 0xff] } : Utf8Reader)).tokens.2.log
      = #[.returned (.symbol '+') ⟨1, 1⟩, .stopped (.malformed [0xff] 2), .skipped ⟨1, 2⟩,
        .returned .endOfInput ⟨1, 3⟩] := by
  decide +kernel

end Lexer

end FloatLang
