import FloatLang.Proofs.Lexer.Unread
import FloatLang.Proofs.Stream.Decoding
import FloatLang.Proofs.Stream.Rationed

/-! # One Character of Read-Ahead

  In every reachable state a call takes one trivia and one lexeme off the unread
  input, and asks the stream for exactly one character more than that.

  - **Read-ahead** (`ReadAhead`): the stream was asked for what was passed and
    for the next character, and for nothing behind it.
  - **Takes** (`Takes`): what a call does to the unread input.
  - **Awaits** (`Awaits`): what is unread of a stream that may go on behind its first
    end, or have no other one.

  Main statement: `next_reads_one_ahead`.
-/

namespace FloatLang

namespace Lexer

variable {σ : Type} [CharStream σ]

/-! ## What the stream is asked for -/

/-- With `held` in hand, passing `passed` to the character behind it takes no
    more from the stream than that character. Where there is none, the stream
    has answered that it has ended. -/
inductive ReadAhead (s : σ) (held passed : List Char) : Option Char → σ → Prop where
  /-- The character behind what is passed was the last one asked for. -/
  | character {c : Char} {delivered : List Char} {s' : σ} :
      held ++ delivered = passed ++ [c] → Delivers s delivered s' →
      ReadAhead s held passed (some c) s'
  /-- The stream ended behind what is passed. -/
  | ended {delivered : List Char} {s' s'' : σ} {error? : Option StreamError} :
      held ++ delivered = passed → Delivers s delivered s' → pull s' = .ended s'' error? →
      ReadAhead s held passed none s''

namespace ReadAhead

variable {s s' s'' : σ} {held passed : List Char} {c : Char} {next? : Option Char}

/-- The character in hand is passed, and the next one delivered. -/
theorem cons (d : Char) (hpull : pull s = .delivered c s') (h : ReadAhead s' [c] passed next? s'') :
    ReadAhead s [d] (d :: passed) next? s'' := by
  cases h with
  | character heq hdelivers => exact .character (congrArg (d :: ·) heq) (.cons hpull hdelivers)
  | ended heq hdelivers hend => exact .ended (congrArg (d :: ·) heq) (.cons hpull hdelivers) hend

/-- What is in hand and does not count is not passed either. -/
theorem drop {blank : List Char} (h : ReadAhead s (blank ++ held) (blank ++ passed) next? s') :
    ReadAhead s held passed next? s' := by
  cases h with
  | character heq hdelivers =>
    rw [List.append_assoc, List.append_assoc] at heq
    exact .character (List.append_cancel_left heq) hdelivers
  | ended heq hdelivers hend =>
    rw [List.append_assoc] at heq
    exact .ended (List.append_cancel_left heq) hdelivers hend

end ReadAhead

/-- Past its end a lexer leaves the stream alone. -/
theorem Moves.of_exhausted {l l' : Lexer σ} {cs : List Char} (h : Moves l cs l')
    (hnone : l.lookahead = none) :
    cs = [] ∧ l'.lookahead = none ∧ l'.stream = l.stream := by
  induction h with
  | stay => exact ⟨rfl, hnone, rfl⟩
  | past hc _ _ =>
    rw [hnone] at hc
    cases hc
  | mark p _ ih => exact ih hnone
  | record e _ ih => exact ih hnone

/-- A movement reads one character ahead. -/
theorem Moves.readAhead {l l' : Lexer σ} {cs : List Char} (h : Moves l cs l') (hl : l.Coherent)
    {c : Char} (hc : l.lookahead = some c) :
    ReadAhead l.stream [c] cs l'.lookahead l'.stream := by
  induction h generalizing c with
  | stay =>
    rw [hc]
    exact .character rfl .nil
  | @past l l' d cs hd hmoves ih =>
    obtain rfl : c = d := Option.some.inj (hc.symm.trans hd)
    -- the stream is asked once for the character behind the lookahead
    rcases advance_cases (hl.exhausted_eq_false hc) with
      ⟨e, s, hpull, heq⟩ | ⟨s, error?, hpull, heq⟩
    · have hrest := ih (coherent_advance hl hc) (by rw [heq])
      rw [heq] at hrest
      exact hrest.cons c hpull
    · -- the stream ended, and nothing more is passed
      obtain ⟨rfl, hnone, hstream⟩ := hmoves.of_exhausted (by simp [heq])
      rw [hnone, hstream, heq, stream_recordError]
      exact .ended rfl .nil hpull
  | mark p _ ih => exact ih hl hc
  | record e _ ih => exact ih hl hc

/-! ## A call in a reachable state -/

/-- What a call does to the unread input `trivia ++ lexeme ++ rest`. -/
structure Takes (l : Lexer σ) (trivia lexeme rest : List Char) : Prop where
  /-- The token is that of the lexeme. -/
  token : l.next.1 = Token.ofLexeme lexeme
  /-- The end of input is returned where no lexeme is left. -/
  endOfInput : l.next.1 = .endOfInput ↔ lexeme = []
  /-- No lexeme is left where all is trivia. -/
  allTrivia : lexeme = [] ↔ Trivia [] l.unread
  /-- The first character of the rest is in hand. -/
  lookahead : l.next.2.lookahead = rest.head?
  /-- The rest is unread. -/
  unread : l.next.2.unread = rest
  /-- The stream delivers what comes behind the character in hand. -/
  behind : rest ≠ [] → (drain l.next.2.stream).text = rest.tail
  /-- The stream was asked for the character in hand, and for nothing else. -/
  readAhead : l.exhausted = false →
    ReadAhead l.stream l.held (trivia ++ lexeme) rest.head? l.next.2.stream
  /-- A stream that has ended was asked for nothing. -/
  ended : l.exhausted = true → l.next.2.stream = l.stream

/-- A call in a reachable state takes trivia and a lexeme. -/
theorem Reachable.takes {l : Lexer σ} (h : Reachable l) :
    ∃ trivia lexeme rest, Munch l.unread trivia lexeme rest ∧ Takes l trivia lexeme rest := by
  obtain ⟨hl, before, hplaced⟩ := h.placed
  obtain ⟨blank, trivia, lexeme, hheld, hmoves, hmunch, htoken, _, hl', hstands⟩ :=
    next_unread hl hplaced
  have hlookahead : l.next.2.lookahead = l.next.2.unread.head? :=
    (hstands.head?_unread hl').symm
  refine ⟨trivia, lexeme, _, hmunch, ?_⟩
  constructor
  case token => exact htoken
  case endOfInput => rw [htoken, Token.ofLexeme_eq_endOfInput_iff]
  case allTrivia => exact hmunch.lexeme_eq_nil_iff
  case lookahead => exact hlookahead
  case unread => rfl
  case behind =>
    intro hne
    rw [← hstands.ahead_eq] at hne ⊢
    exact text_drain hl' hne
  case readAhead =>
    intro hexhausted
    obtain ⟨c, hc⟩ := hl.exists_lookahead hexhausted
    have hread := hmoves.readAhead hl hc
    -- the blank of a fresh lexer was not asked for
    have hblank : [c] = blank ++ l.held := by rw [← hheld, hc, Option.toList_some]
    rw [hblank, hlookahead] at hread
    exact hread.drop
  case ended =>
    intro hexhausted
    exact (hmoves.of_exhausted (hl.mpr hexhausted)).2.2

/-! ## Bytes -/

/-- A reader that ends has read the bytes of what is passed when it is asked for
    the last time. -/
theorem ReadAhead.offset_end {s s' : Utf8Reader} {held passed : List Char}
    (h : ReadAhead s held passed none s') :
    ∃ last error?, pull last = .ended s' error? ∧
      last.offset + Utf8.width held = s.offset + Utf8.width passed := by
  cases h with
  | @ended delivered last _ error? heq hdelivers hend =>
    have hwidth := congrArg Utf8.width heq
    rw [Utf8.width_append] at hwidth
    have hoffset := Utf8Reader.offset_of_delivers hdelivers
    exact ⟨last, error?, hend, by omega⟩

/-- Unless an error is met behind the text, a reader has read the bytes up to the
    next character. -/
theorem ReadAhead.offset {s s' : Utf8Reader} {held passed : List Char} {next? : Option Char}
    (h : ReadAhead s held passed next? s') (hnext : next? ≠ none ∨ s'.error? = none) :
    s'.offset + Utf8.width held = s.offset + Utf8.width (passed ++ next?.toList) := by
  cases next? with
  | none =>
    obtain ⟨last, error?, hend, hoffset⟩ := h.offset_end
    have hstop := Utf8Reader.offset_of_ended hend (hnext.resolve_left fun hne => hne rfl)
    rw [hstop, hoffset, Option.toList_none, List.append_nil]
  | some c =>
    cases h with
    | character heq hdelivers =>
      have hwidth := congrArg Utf8.width heq
      rw [Utf8.width_append] at hwidth
      have hoffset := Utf8Reader.offset_of_delivers hdelivers
      rw [Option.toList_some]
      omega

/-- A call reads the bytes up to the character in hand. -/
theorem Takes.offset {l : Lexer Utf8Reader} {trivia lexeme rest : List Char} (hl : l.Coherent)
    (hmunch : Munch l.unread trivia lexeme rest) (h : Takes l trivia lexeme rest)
    (hrest : rest ≠ [] ∨ l.next.2.stream.error? = none) :
    l.next.2.stream.offset + Utf8.width l.held
      = l.stream.offset + Utf8.width (trivia ++ lexeme ++ rest.head?.toList) := by
  by_cases hexhausted : l.exhausted = true
  · -- there is nothing in hand, and nothing is taken
    have hheld : l.held = [] := by simp [held, hl.mpr hexhausted]
    have hwhole := hmunch.whole
    rw [Lexer.unread, if_pos hexhausted, eq_comm, List.append_eq_nil_iff] at hwhole
    obtain ⟨htaken, hrestnil⟩ := hwhole
    rw [h.ended hexhausted, hheld, htaken, hrestnil]
    rfl
  · apply (h.readAhead (Bool.eq_false_iff.mpr hexhausted)).offset
    rcases hrest with hne | hnone
    · exact .inl (by simpa using hne)
    · exact .inr hnone

/-! ## Streams without an end -/

section awaits
variable {τ : Type} [OpenStream τ] {l : Lexer (Rationed τ)} {text : List Char}

/-- What the lexer has still to read: the character in hand, and what the stream
    delivers up to its first end. Once it has met that end it awaits nothing, however
    the stream goes on. -/
inductive Awaits (l : Lexer (Rationed τ)) : List Char → Prop where
  /-- The end is still to come, and the ration lasts up to it. -/
  | text {behind : List Char} : l.exhausted = false → EndsAfter l.stream.stream behind →
      behind.length < l.stream.ration → Awaits l (l.held ++ behind)
  /-- The end was met. -/
  | nothing : l.exhausted = true → Awaits l []

/-- A lexer that has read nothing awaits the whole text. -/
theorem awaits_ofStream {s : τ} {n : Nat} (h : EndsAfter s text) (hn : text.length < n) :
    (ofStream (Rationed.mk s n)).Awaits text := by
  have hfresh : (ofStream (Rationed.mk s n)).Awaits ((ofStream (Rationed.mk s n)).held ++ text) :=
    .text rfl h hn
  rwa [(fresh_ofStream _).held_eq, List.nil_append] at hfresh

/-- It is what is unread. -/
theorem Awaits.unread_eq (h : l.Awaits text) : l.unread = text := by
  unfold unread
  cases h with
  | @text behind hopen hends hration =>
    have htext : (drain l.stream).text = behind := Rationed.drain_text_of_endsAfter hends hration
    rw [hopen, htext]
    rfl
  | nothing hexhausted => rw [if_pos hexhausted]

/-- A call goes on to what comes behind the lexeme. -/
theorem Awaits.next {trivia lexeme rest : List Char} (h : l.Awaits text) (hl : Reachable l)
    (hmunch : Munch text trivia lexeme rest) (htakes : Takes l trivia lexeme rest) :
    l.next.2.Awaits rest := by
  have hcoherent : l.next.2.Coherent := (Reachable.call .next hl).placed.1
  have hlookahead := htakes.lookahead
  cases rest with
  | nil => exact .nothing (hcoherent.mp hlookahead)
  | cons c tail =>
    have hopen : l.next.2.exhausted = false := hcoherent.exhausted_eq_false hlookahead
    cases h with
    | nothing hexhausted =>
      -- nothing is left of nothing
      have hwhole := hmunch.whole
      simp at hwhole
    | @text behind hexhausted hends hration =>
      have hread := htakes.readAhead hexhausted
      cases hread with
      | character _ hdelivers =>
        obtain ⟨ahead, _, hends', hration'⟩ :=
          Rationed.endsAfter_of_delivers hdelivers hends hration
        have hawaits : l.next.2.Awaits (l.next.2.held ++ ahead) := .text hopen hends' hration'
        rwa [← hawaits.unread_eq, htakes.unread] at hawaits

end awaits

/-- **One character of read-ahead**: in every reachable state a call splits the
    unread input in the one way there is, takes trivia and lexeme, and leaves
    the stream behind the first character of the rest. A reader has then read
    the bytes of just these characters. Only where the text ends it may have
    read on in its last pull, which met an error. A stream that goes on behind its
    first end, be it without another one, is read up to that end call after call. -/
theorem next_reads_one_ahead :
    (∀ {σ : Type} [CharStream σ] {l : Lexer σ}, Reachable l →
      ∃ trivia lexeme rest, Munch l.unread trivia lexeme rest ∧
        (∀ trivia' lexeme' rest', Munch l.unread trivia' lexeme' rest' →
          trivia' = trivia ∧ lexeme' = lexeme ∧ rest' = rest) ∧
        Takes l trivia lexeme rest) ∧
    (∀ {l : Lexer Utf8Reader} {trivia lexeme rest : List Char}, Reachable l →
      Munch l.unread trivia lexeme rest →
      (rest ≠ [] ∨ l.next.2.stream.error? = none →
        l.next.2.stream.offset + Utf8.width l.held
          = l.stream.offset + Utf8.width (trivia ++ lexeme ++ rest.head?.toList)) ∧
      (rest = [] → l.exhausted = false →
        ∃ last error?, pull last = .ended l.next.2.stream error? ∧
          last.offset + Utf8.width l.held = l.stream.offset + Utf8.width (trivia ++ lexeme))) ∧
    (∀ {τ : Type} [OpenStream τ] {s : τ} {text : List Char} {n : Nat}, EndsAfter s text →
      text.length < n → (ofStream (Rationed.mk s n)).Awaits text) ∧
    (∀ {τ : Type} [OpenStream τ] {l : Lexer (Rationed τ)} {text : List Char}, Reachable l →
      l.Awaits text →
      ∃ trivia lexeme rest, Munch text trivia lexeme rest ∧
        (∀ trivia' lexeme' rest', Munch text trivia' lexeme' rest' →
          trivia' = trivia ∧ lexeme' = lexeme ∧ rest' = rest) ∧
        Takes l trivia lexeme rest ∧ l.next.2.Awaits rest) := by
  refine ⟨?_, ?_, awaits_ofStream, ?_⟩
  · intro σ _ l h
    obtain ⟨trivia, lexeme, rest, hmunch, htakes⟩ := h.takes
    exact ⟨trivia, lexeme, rest, hmunch, fun _ _ _ h' => hmunch.unique h', htakes⟩
  · intro l trivia lexeme rest h hmunch
    obtain ⟨trivia', lexeme', rest', hmunch', htakes⟩ := h.takes
    obtain ⟨rfl, rfl, rfl⟩ := hmunch'.unique hmunch
    refine ⟨htakes.offset h.placed.1 hmunch, ?_⟩
    rintro rfl hexhausted
    exact (htakes.readAhead hexhausted).offset_end
  · intro τ _ l text h hawaits
    obtain ⟨trivia, lexeme, rest, hmunch, htakes⟩ := h.takes
    rw [hawaits.unread_eq] at hmunch
    exact ⟨trivia, lexeme, rest, hmunch, fun _ _ _ h' => hmunch.unique h', htakes,
      hawaits.next h hmunch htakes⟩

/-- After `é`, with the comment mark in hand, the next call skips the comment and
    its line end, and takes `+`. The last byte is not read. Over a stream that says once
    that it has ended, and goes on without end, the numeral ends with the first end. -/
theorem next_reads_one_ahead_comment :
    (∃ l : Lexer Utf8Reader,
      l = ((ofStream { events := [.byte 0xc3, .byte 0xa9, .byte 0x23, .byte 0x78, .byte 0x0a,
        .byte 0x2b, .byte 0x29, .byte 0x31] }).answer .next).2 ∧
      Reachable l ∧ l.unread = ['#', 'x', '\n', '+', ')', '1'] ∧
      Munch l.unread ['#', 'x', '\n'] ['+'] [')', '1'] ∧
      Takes l ['#', 'x', '\n'] ['+'] [')', '1'] ∧
      l.stream.offset = 3 ∧ l.next.2.stream.offset = 7) ∧
    (∃ (s : AnswerSequence) (l : Lexer (Rationed AnswerSequence)),
      s = { answer := fun n => if n = 2 then none else some '1' } ∧
      l = ofStream ⟨s, 9⟩ ∧ EndsAfter s ['1', '1'] ∧ Reachable l ∧ l.Awaits ['1', '1'] ∧
      Takes l [] ['1', '1'] [] ∧ l.next.2.Awaits []) := by
  constructor
  · obtain ⟨l, hl⟩ : ∃ l : Lexer Utf8Reader,
        l = ((ofStream { events := [.byte 0xc3, .byte 0xa9, .byte 0x23, .byte 0x78, .byte 0x0a,
          .byte 0x2b, .byte 0x29, .byte 0x31] }).answer .next).2 := ⟨_, rfl⟩
    have hreachable : Reachable l := hl ▸ .call .next (.start _)
    have hunread : l.unread = ['#', 'x', '\n', '+', ')', '1'] := by
      rw [hl]
      decide +kernel
    have hheld : l.held = ['#'] := by
      rw [hl]
      decide +kernel
    have hstream : l.stream.offset = 3 := by
      rw [hl]
      decide +kernel
    have hcomment : Trivia ['+', ')', '1'] (commentMark :: (['x'] ++ ['\n'])) :=
      .comment (by simp [endsLine]) (by simp [endsLine]) (.blank (by decide) .nil)
    have hmunch : Munch l.unread ['#', 'x', '\n'] ['+'] [')', '1'] := by
      rw [hunread]
      exact munch_of_firstLexeme hcomment (by simp [StartsTrivia]; decide)
    obtain ⟨trivia, lexeme, rest, _, hunique, htakes⟩ := next_reads_one_ahead.1 hreachable
    obtain ⟨rfl, rfl, rfl⟩ := hunique _ _ _ hmunch
    have hoffset := (next_reads_one_ahead.2.1 hreachable hmunch).1 (.inl (List.cons_ne_nil _ _))
    rw [hstream, hheld] at hoffset
    exact ⟨l, hl, hreachable, hunread, hmunch, htakes, hstream, Nat.add_right_cancel hoffset⟩
  · obtain ⟨s, hs⟩ : ∃ s : AnswerSequence,
        s = { answer := fun n => if n = 2 then none else some '1' } := ⟨_, rfl⟩
    have hends : EndsAfter s ['1', '1'] := by
      rw [hs]
      exact .delivered rfl (.delivered rfl (.ended rfl))
    have hawaits := next_reads_one_ahead.2.2.1 (n := 9) hends (by decide)
    have hreachable : Reachable (ofStream (Rationed.mk s 9)) := .start _
    have htrivia : Trivia ['1', '1'] [] := .nil
    have hnumeral : Munch ['1', '1'] [] ['1', '1'] [] :=
      munch_of_firstLexeme htrivia (by simp [StartsTrivia]; decide)
    obtain ⟨trivia, lexeme, rest, _, hunique, htakes, hawaits'⟩ :=
      next_reads_one_ahead.2.2.2 hreachable hawaits
    obtain ⟨rfl, rfl, rfl⟩ := hunique _ _ _ hnumeral
    exact ⟨s, _, hs, rfl, hends, hreachable, hawaits, htakes, hawaits'⟩

end Lexer

end FloatLang
