import FloatLang.Proofs.Lexer.Exchange
import FloatLang.Proofs.Lexer.ReadAhead

/-! # A Lexer under Watch

  What a lexer asks its stream, call by call, and what it is told.

  - **Watched** (`watched`): a lexer does the same while its stream keeps a record.
  - **Polls** (`polls`): the answers to all pulls that a lexer makes itself while
    it answers calls. Pulls from behind its back are not among them.
  - **Heard** (`heard`): the characters among them, up to the first end of the
    stream.
  - **Future** (`future`): what a stream would answer if it were read to its end.

  Main statements: `polled_of_munch`, what one call asks for, and
  `polled_append_future`, how it uses up the future.
-/

namespace FloatLang

variable {σ τ : Type}

namespace Lexer

/-! ## What is asked -/

section polls
variable [CharStream σ]

/-- The lexer with its stream under watch. -/
def watched (l : Lexer σ) : Lexer (Watched σ) :=
  l.map fun s => ⟨s, []⟩

/-- What the stream answers while the next token is found. -/
def polled (l : Lexer σ) : List (Option Char) :=
  l.watched.next.2.stream.answers

/-- What the stream answers to the lexer while it answers calls. -/
def polls (l : Lexer σ) : List Call → List (Option Char)
  | [] => []
  | c :: calls =>
    (if c.isOwn then (l.watched.answer c).2.stream.answers else []) ++ (l.answer c).2.polls calls

/-- The characters up to the first end of a stream. -/
def characters : List (Option Char) → List Char
  | some c :: answers => c :: characters answers
  | none :: _ => []
  | [] => []

/-- The characters that the lexer is given while it answers calls, up to the first
    end of the stream. -/
def heard (l : Lexer σ) (calls : List Call) : List Char :=
  characters (l.polls calls)

/-- What the stream would answer if it were read to its end. A lexer that has come
    to the end asks no more. -/
def future (l : Lexer σ) : List (Option Char) :=
  if l.exhausted then [] else (drain l.stream).text.map some ++ [none]

theorem polls_cons (l : Lexer σ) (c : Call) (calls : List Call) :
    l.polls (c :: calls)
      = (if c.forToken then l.polled else []) ++ (l.answer c).2.polls calls := by
  cases c <;> rfl

theorem characters_map_some (cs : List Char) (answers : List (Option Char)) :
    characters (cs.map some ++ answers) = cs ++ characters answers := by
  induction cs with
  | nil => rfl
  | cons c cs ih => exact congrArg (c :: ·) ih

/-- Being watched changes nothing for a lexer. -/
theorem next_watched (l : Lexer σ) :
    l.watched.next.1 = l.next.1 ∧ l.watched.next.2.map Watched.stream = l.next.2 := by
  have h := (next_map Watched.keepsAnswers_stream (l := l.watched) trivial).2
  change l.next = _ at h
  rw [h]
  exact ⟨rfl, rfl⟩

/-- A lexer asks the same of any stream that answers alike. -/
theorem polls_map [CharStream τ] {P : σ → Prop} {f : σ → τ} (hf : KeepsAnswersOn P f)
    {l : Lexer σ} {calls : List Call} (h : P (l.run calls).2.stream) :
    (l.map f).polls calls = l.polls calls := by
  induction calls generalizing l with
  | nil => rfl
  | cons c calls ih =>
    obtain ⟨hanswer, _⟩ := run_map hf (l := (l.answer c).2) h
    obtain ⟨_, _, hrest⟩ := answer_map hf hanswer
    rw [polls_cons, polls_cons, hrest, ih (l := (l.answer c).2) h]
    cases hc : c.forToken with
    | true =>
      -- the records are the same, since under watch the streams answer alike too
      rw [answer_of_forToken l hc, ← (next_watched l).2] at hanswer
      have hwatched := (next_map (Watched.keepsAnswersOn_map hf) (l := l.watched) hanswer).2
      have hpolled : (l.map f).polled = l.polled :=
        congrArg (fun r => r.2.stream.answers) hwatched
      rw [hpolled]
    | false => rfl

/-! ## One call -/

/-- The record of a stream that was read one character ahead. -/
theorem ReadAhead.answers {w w' : Watched σ} {held passed : List Char} {next? : Option Char}
    (h : ReadAhead w held passed next? w') :
    ∃ new, held ++ new = passed ++ next?.toList ∧
      w'.answers = w.answers ++ (new.map some ++ if next?.isNone then [none] else []) := by
  cases h with
  | @character c delivered _ heq hdelivers =>
    refine ⟨delivered, heq, ?_⟩
    rw [Watched.answers_of_delivers hdelivers]
    simp
  | @ended delivered s' _ error? heq hdelivers hend =>
    refine ⟨delivered, by simpa using heq, ?_⟩
    have hrecord := Watched.answers_of_pull s'
    rw [hend] at hrecord
    rw [show w'.answers = s'.answers ++ [none] from hrecord,
      Watched.answers_of_delivers hdelivers, List.append_assoc]
    rfl

/-- **One call**, told by the split of the unread input. -/
theorem next_of_munch {l : Lexer σ} {before trivia lexeme rest : List Char} (hl : l.Coherent)
    (hplaced : l.Placed before) (h : Munch l.unread trivia lexeme rest) :
    l.next.1 = Token.ofLexeme lexeme ∧
      l.next.2.lexemeStart = (Cursor.start.pastAll (before ++ trivia)).position ∧
      l.next.2.Coherent ∧ l.next.2.Stands (before ++ trivia ++ lexeme) ∧
      l.next.2.unread = rest := by
  obtain ⟨_, trivia', lexeme', _, _, hmunch, htoken, hstart, hl', hstands⟩ :=
    next_unread hl hplaced
  obtain ⟨rfl, rfl, rfl⟩ := hmunch.unique h
  exact ⟨htoken, hstart, hl', hstands, rfl⟩

theorem lookahead_next {l : Lexer σ} {before trivia lexeme rest : List Char} (hl : l.Coherent)
    (hplaced : l.Placed before) (h : Munch l.unread trivia lexeme rest) :
    l.next.2.lookahead = rest.head? := by
  obtain ⟨_, _, hl', hstands, hrest⟩ := next_of_munch hl hplaced h
  rw [← hrest, hstands.head?_unread hl']

/-- A call comes to the end of the stream where it leaves no rest. -/
theorem exhausted_next_iff {l : Lexer σ} {before trivia lexeme rest : List Char} (hl : l.Coherent)
    (hplaced : l.Placed before) (h : Munch l.unread trivia lexeme rest) :
    l.next.2.exhausted = true ↔ rest = [] := by
  obtain ⟨_, _, hl', _, _⟩ := next_of_munch hl hplaced h
  have hcoherent : l.next.2.lookahead = none ↔ l.next.2.exhausted = true := hl'
  rw [← hcoherent, lookahead_next hl hplaced h, List.head?_eq_none_iff]

/-- **What a call asks for**: with the characters in hand, the trivia, the lexeme
    and the character behind it. A lexer at its end asks for nothing. -/
theorem polled_of_munch {l : Lexer σ} {before trivia lexeme rest : List Char} (hl : l.Coherent)
    (hplaced : l.Placed before) (h : Munch l.unread trivia lexeme rest) :
    ∃ new, l.held ++ new = trivia ++ lexeme ++ rest.head?.toList ∧
      (l.exhausted = true → new = []) ∧
      l.polled = new.map some ++ if l.next.2.exhausted && !l.exhausted then [none] else [] := by
  -- under watch the lexer makes the same moves
  have hw : l.watched.Coherent := hl
  have hwplaced : l.watched.Placed before := hplaced
  obtain ⟨blank, _, _, hheld, hmoves, hmunch, _⟩ := next_unread hw hwplaced
  rw [← unread_map Watched.keepsAnswers_stream l.watched] at hmunch
  obtain ⟨rfl, rfl, _⟩ := h.unique hmunch
  have hnext : l.watched.next.2.lookahead = l.next.2.lookahead :=
    congrArg lookahead l.next_watched.2
  rw [lookahead_next hl hplaced h] at hnext
  by_cases hexhausted : l.exhausted = true
  · have hwhole := h.whole
    rw [unread, if_pos hexhausted, eq_comm, List.append_eq_nil_iff] at hwhole
    have hnone : l.lookahead = none := hl.mpr hexhausted
    obtain ⟨_, _, hstream⟩ := hmoves.of_exhausted hnone
    refine ⟨[], ?_, fun _ => rfl, ?_⟩
    · rw [hwhole.1, hwhole.2]
      simp [held, hnone]
    · rw [hexhausted, Bool.not_true, Bool.and_false]
      exact congrArg Watched.answers hstream
  · obtain ⟨c, hc⟩ := hl.exists_lookahead (Bool.eq_false_iff.mpr hexhausted)
    have hread := hmoves.readAhead hw (show l.watched.lookahead = some c from hc)
    -- the blank of a fresh lexer was not asked for
    have hblank : [c] = blank ++ l.held := by
      rw [show l.held = l.watched.held from rfl, ← hheld, show l.watched.lookahead = some c from hc]
      rfl
    rw [hblank, hnext] at hread
    obtain ⟨new, hnew, hanswers⟩ := hread.drop.answers
    refine ⟨new, hnew, fun h => absurd h hexhausted, ?_⟩
    have hended : rest.head?.isNone = l.next.2.exhausted := by
      obtain ⟨_, _, hl', _, _⟩ := next_of_munch hl hplaced h
      rw [← lookahead_next hl hplaced h, Bool.eq_iff_iff, Option.isNone_iff_eq_none]
      exact hl'
    rw [Bool.not_eq_true] at hexhausted
    rw [← hended, hexhausted, Bool.not_false, Bool.and_true]
    exact hanswers

/-- Where nothing is unread, a call leaves no rest. -/
theorem rest_eq_nil_of_exhausted {l : Lexer σ} {trivia lexeme rest : List Char}
    (hexhausted : l.exhausted = true) (h : Munch l.unread trivia lexeme rest) : rest = [] := by
  have hwhole := h.whole
  rw [unread, if_pos hexhausted, eq_comm, List.append_eq_nil_iff] at hwhole
  exact hwhole.2

/-- A call uses up what it asks for. -/
theorem polled_append_future {l : Lexer σ} {before : List Char} (hl : l.Coherent)
    (hplaced : l.Placed before) : l.polled ++ l.next.2.future = l.future := by
  obtain ⟨trivia, lexeme, rest, h⟩ := exists_munch l.unread
  obtain ⟨_, _, _, hstands, hrest⟩ := next_of_munch hl hplaced h
  obtain ⟨new, hnew, hquiet, hpolled⟩ := polled_of_munch hl hplaced h
  have hended := exhausted_next_iff hl hplaced h
  rw [hpolled]
  unfold future
  by_cases hexhausted : l.exhausted = true
  · -- a lexer at its end stays there
    have hnil := rest_eq_nil_of_exhausted hexhausted h
    rw [hquiet hexhausted, if_pos hexhausted, if_pos (hended.mpr hnil), hexhausted]
    simp
  · have hwhole := h.whole
    rw [unread, if_neg hexhausted] at hwhole
    rw [if_neg hexhausted, Bool.eq_false_iff.mpr hexhausted, Bool.not_false, Bool.and_true]
    by_cases hnil : rest = []
    · -- the stream delivers what the call asks for, and then ends
      rw [hnil, List.append_nil] at hwhole
      rw [hnil, List.head?_nil, Option.toList_none, List.append_nil, ← hwhole] at hnew
      rw [if_pos (hended.mpr hnil), if_pos (hended.mpr hnil), List.append_nil,
        List.append_cancel_left hnew]
    · have hopen : ¬ l.next.2.exhausted = true := fun hexhausted => hnil (hended.mp hexhausted)
      -- behind the character in hand it delivers the rest
      have hbehind : rest = rest.head?.toList ++ (drain l.next.2.stream).text := by
        have hunread := hrest
        rw [unread, if_neg hopen, hstands.held_eq, lookahead_next hl hplaced h] at hunread
        exact hunread.symm
      rw [hbehind, ← List.append_assoc, ← hnew, List.append_assoc] at hwhole
      rw [if_neg hopen, if_neg hopen, List.append_cancel_left hwhole, List.map_append,
        List.append_nil, List.append_assoc]

end polls

end Lexer

end FloatLang
