import FloatLang.Lexer.Event
import FloatLang.Stream.Basic

/-! # The Streaming Lexer

  Turns the characters of a stream into tokens, one token at a time.

  The lexer reads one character ahead and no more: the character that ends a
  token is kept as the `lookahead` and is the first one looked at for the next
  token. The state between two tokens is that character, its position, and
  whether the stream has ended.

  - **Never polled after its end**: once the stream has answered that it has
    ended, `exhausted` is set and the stream is not asked again, even if it
    would deliver more.
  - **Total**: no input is refused. A numeral such as `1.2.3` is read
    permissively, any other character is a token of its own, and past the end
    every call returns the end of input.
  - **Recorded**: every token, comment and stream error leaves an `Event`.

  Each step lowers `budget`, the number of characters that the lexer
  can still see, so every loop ends.
-/

namespace FloatLang

/-- A lexer over a stream. -/
structure Lexer (σ : Type) where
  /-- The stream, read up to and including the lookahead. -/
  stream : σ
  /-- The next character, and none past the end. Before anything is read it is
      a blank, which belongs to no token. -/
  lookahead : Option Char := some ' '
  /-- Whether the stream has answered that it has ended. -/
  exhausted : Bool := false
  /-- Where the lookahead stands. -/
  lookaheadPosition : Position := .start
  /-- Where the next character from the stream stands. -/
  cursor : Cursor := .start
  /-- Where the token most recently returned starts. -/
  lexemeStart : Position := .start
  /-- The records made so far. -/
  log : Array Event := #[]

namespace Lexer

variable {σ : Type}

/-- A lexer that has read nothing yet. -/
def ofStream (s : σ) : Lexer σ := { stream := s }

/-- Adds a record. -/
def record (l : Lexer σ) (e : Event) : Lexer σ :=
  { l with log := l.log.push e }

/-- Adds a record of the error that a stream met, if it met one. -/
def recordError (l : Lexer σ) : Option StreamError → Lexer σ
  | some e => l.record (.stopped e)
  | none => l

section record
variable (l : Lexer σ) (e? : Option StreamError)

@[simp] theorem stream_recordError : (l.recordError e?).stream = l.stream := by
  cases e? <;> rfl

@[simp] theorem lookahead_recordError : (l.recordError e?).lookahead = l.lookahead := by
  cases e? <;> rfl

@[simp] theorem exhausted_recordError : (l.recordError e?).exhausted = l.exhausted := by
  cases e? <;> rfl

@[simp] theorem lookaheadPosition_recordError :
    (l.recordError e?).lookaheadPosition = l.lookaheadPosition := by
  cases e? <;> rfl

@[simp] theorem cursor_recordError : (l.recordError e?).cursor = l.cursor := by
  cases e? <;> rfl

@[simp] theorem lexemeStart_recordError : (l.recordError e?).lexemeStart = l.lexemeStart := by
  cases e? <;> rfl

end record

variable [CharStream σ]

/-! ## One character -/

/-- Replaces the lookahead with the next character of the stream. -/
def advance (l : Lexer σ) : Lexer σ :=
  if l.exhausted then
    { l with lookahead := none, lookaheadPosition := l.cursor.position }
  else
    match pull l.stream with
    | .delivered c s =>
      { l with
        stream := s
        lookahead := some c
        lookaheadPosition := l.cursor.position
        cursor := l.cursor.past c }
    | .ended s error? =>
      { l with
        stream := s
        lookahead := none
        exhausted := true
        lookaheadPosition := l.cursor.position }.recordError error?

/-- The number of characters that the lexer can still see: the lookahead, and
    what the stream may deliver. -/
def budget (l : Lexer σ) : Nat :=
  l.lookahead.toList.length + if l.exhausted then 0 else remaining l.stream

@[simp] theorem budget_record (l : Lexer σ) (e : Event) : (l.record e).budget = l.budget := rfl

@[simp] theorem budget_recordError (l : Lexer σ) (e : Option StreamError) :
    (l.recordError e).budget = l.budget := by
  cases e <;> rfl

/-- Moving past a character uses it up. -/
theorem budget_advance_lt {l : Lexer σ} {c : Char} (h : l.lookahead = some c) :
    l.advance.budget < l.budget := by
  have hbefore : l.budget = 1 + if l.exhausted then 0 else remaining l.stream := by
    simp [budget, h]
  rw [hbefore]
  unfold advance
  by_cases hexhausted : l.exhausted = true
  · -- no character comes after the lookahead
    simp [hexhausted, budget]
  · rw [if_neg hexhausted, if_neg hexhausted]
    split
    · next d s hpull =>
      have hlt := remaining_lt hpull
      simp only [budget, Option.toList_some, List.length_singleton, if_neg hexhausted]
      omega
    · next s error? hpull =>
      rw [budget_recordError]
      simp only [budget, Option.toList_none, List.length_nil, if_true]
      omega

/-! ## Runs of characters -/

/-- Moves past the longest run of characters that satisfy `accept`. -/
def skipWhile (accept : Char → Bool) (l : Lexer σ) : Lexer σ :=
  match _ : l.lookahead with
  | some c => if accept c then skipWhile accept l.advance else l
  | none => l
termination_by l.budget
decreasing_by exact budget_advance_lt (by assumption)

/-- Moves past the longest run of characters that satisfy `accept`, and
    returns the run. -/
def takeWhile (accept : Char → Bool) (l : Lexer σ) : List Char × Lexer σ :=
  match _ : l.lookahead with
  | some c =>
    if accept c then
      let (run, l') := takeWhile accept l.advance
      (c :: run, l')
    else ([], l)
  | none => ([], l)
termination_by l.budget
decreasing_by exact budget_advance_lt (by assumption)

/-- Skipping uses up no more than there is. -/
theorem budget_skipWhile_le (accept : Char → Bool) (l : Lexer σ) :
    (l.skipWhile accept).budget ≤ l.budget := by
  fun_induction skipWhile accept l with
  | case1 l c h _ ih => exact Nat.le_trans ih (Nat.le_of_lt (budget_advance_lt h))
  | case2 => exact Nat.le_refl _
  | case3 => exact Nat.le_refl _

/-- Skipping uses up the lookahead when it is accepted. -/
theorem budget_skipWhile_lt (accept : Char → Bool) {l : Lexer σ} {c : Char}
    (h : l.lookahead = some c) (haccept : accept c = true) :
    (l.skipWhile accept).budget < l.budget := by
  rw [skipWhile]
  split
  · next d hd =>
    obtain rfl : c = d := Option.some.inj (h.symm.trans hd)
    rw [if_pos haccept]
    exact Nat.lt_of_le_of_lt (budget_skipWhile_le accept _) (budget_advance_lt h)
  · next hnone => simp [h] at hnone

/-- Taking a run leaves the lexer where skipping it would. -/
theorem takeWhile_snd (accept : Char → Bool) (l : Lexer σ) :
    (l.takeWhile accept).2 = l.skipWhile accept := by
  fun_induction takeWhile accept l with
  | case1 l c h haccept run l' hrun ih =>
    rw [skipWhile]
    split
    · next d hd =>
      obtain rfl : c = d := Option.some.inj (h.symm.trans hd)
      rw [if_pos haccept, ← ih, hrun]
    · next hnone => simp [h] at hnone
  | case2 l c h haccept =>
    rw [skipWhile]
    split
    · next d hd =>
      obtain rfl : c = d := Option.some.inj (h.symm.trans hd)
      rw [if_neg haccept]
    · rfl
  | case3 l h =>
    rw [skipWhile]
    split
    · next d hd => simp [h] at hd
    · rfl

/-! ## Tokens -/

/-- Moves past blanks and notes where the next lexeme starts. -/
def skipBlanks (l : Lexer σ) : Lexer σ :=
  let l' := l.skipWhile isBlank
  { l' with lexemeStart := l'.lookaheadPosition }

/-- Moves past a comment, whose mark is the lookahead, up to the line end that
    closes it. -/
def skipComment (l : Lexer σ) : Lexer σ :=
  (l.skipWhile inComment).record (.skipped l.lexemeStart)

@[simp] theorem budget_skipBlanks_le (l : Lexer σ) : l.skipBlanks.budget ≤ l.budget :=
  budget_skipWhile_le isBlank l

theorem budget_skipComment_lt {l : Lexer σ} (h : l.lookahead = some commentMark) :
    l.skipComment.budget < l.budget :=
  budget_skipWhile_lt inComment h (by decide)

/-- Moves past blanks and comments to the next lexeme. -/
def skipTrivia (l : Lexer σ) : Lexer σ :=
  if _ : l.skipBlanks.lookahead = some commentMark then
    skipTrivia l.skipBlanks.skipComment
  else l.skipBlanks
termination_by l.budget
decreasing_by
  exact Nat.lt_of_lt_of_le (budget_skipComment_lt (by assumption)) (budget_skipBlanks_le l)

/-- Takes the lexeme that starts at the lookahead: a word, a run of digits and
    points, or a character by itself. -/
def takeLexeme (l : Lexer σ) : Token × Lexer σ :=
  match l.lookahead with
  | none => (.endOfInput, l)
  | some c =>
    if c.isAlpha then
      let (word, l') := l.takeWhile Char.isAlphanum
      (.ofWord word, l')
    else if isNumeral c then
      let (run, l') := l.takeWhile isNumeral
      (.ofNumeral run, l')
    else (.symbol c, l.advance)

/-- The next token. Past the last one it is the end of input, again and
    again. -/
def next (l : Lexer σ) : Token × Lexer σ :=
  let (token, l') := l.skipTrivia.takeLexeme
  (token, l'.record (.returned token l'.lexemeStart))

/-- The next token, or none at the end of input. -/
def next? (l : Lexer σ) : Option Token × Lexer σ :=
  let (token, l') := l.next
  (if token = .endOfInput then none else some token, l')

/-! ## Progress -/

theorem budget_skipTrivia_le (l : Lexer σ) : l.skipTrivia.budget ≤ l.budget := by
  fun_induction skipTrivia l with
  | case1 l h ih =>
    have hlt := budget_skipComment_lt h
    have hle := budget_skipBlanks_le l
    omega
  | case2 l _ => exact budget_skipBlanks_le l

/-- A lexeme uses up at least the lookahead. -/
theorem budget_takeLexeme_lt {l : Lexer σ} (h : l.takeLexeme.1 ≠ .endOfInput) :
    l.takeLexeme.2.budget < l.budget := by
  cases hlookahead : l.lookahead with
  | none => exact absurd (by simp [takeLexeme, hlookahead]) h
  | some c =>
    simp only [takeLexeme, hlookahead]
    by_cases halpha : c.isAlpha = true
    · rw [if_pos halpha]
      show (l.takeWhile Char.isAlphanum).2.budget < l.budget
      rw [takeWhile_snd]
      exact budget_skipWhile_lt _ hlookahead (isAlphanum_of_isAlpha halpha)
    · rw [if_neg halpha]
      by_cases hnumeral : isNumeral c = true
      · rw [if_pos hnumeral]
        show (l.takeWhile isNumeral).2.budget < l.budget
        rw [takeWhile_snd]
        exact budget_skipWhile_lt _ hlookahead hnumeral
      · rw [if_neg hnumeral]
        exact budget_advance_lt hlookahead

/-- Every token but the end of input uses up a character. -/
theorem budget_next_lt {l : Lexer σ} (h : l.next.1 ≠ .endOfInput) :
    l.next.2.budget < l.budget :=
  Nat.lt_of_lt_of_le (budget_takeLexeme_lt (l := l.skipTrivia) h) (budget_skipTrivia_le l)

theorem budget_lt_of_next {l l' : Lexer σ} {t : Token} (h : l.next = (t, l'))
    (hne : t ≠ .endOfInput) : l'.budget < l.budget := by
  have hlt := budget_next_lt (l := l)
  rw [h] at hlt
  exact hlt hne

theorem budget_lt_of_next? {l l' : Lexer σ} {t : Token} (h : l.next? = (some t, l')) :
    l'.budget < l.budget := by
  have hne : l.next.1 ≠ .endOfInput := by
    intro hend
    simp [next?, hend] at h
  have hsnd : l.next.2 = l' := congrArg Prod.snd h
  rw [← hsnd]
  exact budget_next_lt hne

/-! ## Behind the lexer's back -/

/-- Pulls a character from the stream itself. The lexer never sees it. -/
def pullBehind (l : Lexer σ) : Option Char × Lexer σ :=
  match pull l.stream with
  | .delivered c s => (some c, { l with stream := s })
  | .ended s error? => (none, { l with stream := s }.recordError error?)

/-- Takes the error that the stream holds. -/
def releaseError (l : Lexer σ) : Option StreamError × Lexer σ :=
  let (error?, s) := CharStream.releaseError l.stream
  (error?, { l with stream := s })

end Lexer

end FloatLang
