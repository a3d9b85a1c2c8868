import FloatLang.Proofs.Lexer.Turns

/-! # A Lexer Comes to the End

  A lexer that is left alone asks its stream for each character once, then for its
  end once, and never again, even where the stream would go on. Each of its tokens
  uses up characters of its own.

  - **Asked in order** (`polls_append_future`): what is asked so far, and what is
    still to be asked, is what the stream delivers up to its first end.
  - **Finishes** (`Finishes`): what holds of a run over a text.

  Main statement: `run_finishes`.
-/

namespace FloatLang

/-- A token is made of characters of its own: those of the `k`-th place. -/
structure Accounted (text : List Char) (k : Nat) (t : Token) : Prop where
  /-- There is at least one. -/
  some_char : (place text k).lexeme ≠ []
  /-- They stand in the text. -/
  split : ∃ after, text = (place text k).before ++ (place text k).lexeme ++ after
  /-- They make the token. -/
  token : t = .ofLexeme (place text k).lexeme
  /-- They are behind those of every earlier token. -/
  apart : ∀ j, j < k → (place text j).before.length + (place text j).lexeme.length
    ≤ (place text k).before.length

/-- The lexeme at a place is accounted to its token alone. -/
theorem accounted_place {text : List Char} {k : Nat} (hne : (place text k).lexeme ≠ []) :
    Accounted text k (.ofLexeme (place text k).lexeme) := by
  obtain ⟨after, hfits⟩ := fits_place text k
  constructor
  case some_char => exact hne
  case split => exact ⟨after, by rw [List.append_assoc]; exact hfits.split⟩
  case token => rfl
  case apart =>
    intro j hjk
    have hlength := (prefix_placeFrom_of_lt [] text hjk).length_le
    rwa [List.length_append] at hlength

/-- Numbers below `n` are `n` at most. -/
theorem countP_range_le {p : Nat → Bool} {n : Nat} (h : ∀ k, p k = true → k < n) (m : Nat) :
    (List.range m).countP p ≤ n := by
  induction m with
  | zero => exact Nat.zero_le n
  | succ m ih =>
    rw [List.range_succ, List.countP_append, List.countP_singleton]
    by_cases hm : p m = true
    · have hle := List.countP_le_length (p := p) (l := List.range m)
      have hlt := h m hm
      rw [List.length_range] at hle
      rw [if_pos hm]
      omega
    · rw [if_neg hm]
      exact ih

/-- There are no more tokens in a text than characters. -/
theorem countP_places_le (text : List Char) (n : Nat) :
    ((List.range n).map fun k => (place text k).positioned).countP (fun t => t.1 ≠ .endOfInput)
      ≤ text.length := by
  rw [List.countP_map]
  apply countP_range_le
  intro k hk
  have hne : (placeFrom [] text k).lexeme ≠ [] := by
    intro hnil
    have htoken : (place text k).positioned.1 ≠ .endOfInput := by simpa using hk
    exact htoken (Token.ofLexeme_eq_endOfInput_iff.mpr hnil)
  exact lt_length_of_placeFrom hne

namespace Lexer

variable {σ : Type} [CharStream σ]

/-- What holds of a run of a lexer that is left alone, over a stream that delivers
    `text` up to its first end. -/
structure Finishes (text : List Char) (calls : List Call) (polls : List (Option Char))
    (turns : List (Token × Position)) (replies : List (Answer Empty)) (l : Lexer σ) : Prop where
  /-- The stream has ended exactly when there is no lookahead. -/
  coherent : l.exhausted = true ↔ l.lookahead = none
  /-- The stream was asked for the text and for its end, and for nothing behind
      it. -/
  asked : polls <+: text.map some ++ [none]
  /-- It was asked once more than there are characters, or less often. -/
  asked_le : polls.length ≤ text.length + 1
  /-- From the end of input on it has been asked for everything. -/
  asked_all : .endOfInput ∈ turns.map Prod.fst →
    polls = text.map some ++ [none] ∧ polls.length = text.length + 1
  /-- What is answered to each call is the token that it finds, or none at the end of
      input. -/
  answered : Answered .start calls turns replies
  /-- Every token before the end of input has characters of its own. -/
  accounted : ∀ k (h : k < turns.length), turns[k].1 ≠ .endOfInput →
    Accounted text k turns[k].1
  /-- So there are no more of them than characters. -/
  count_le : turns.countP (fun t => t.1 ≠ .endOfInput) ≤ text.length
  /-- Behind the end of input nothing else is found, and nowhere else. -/
  stays : ∀ k (h : k < turns.length), turns[k].1 = .endOfInput →
    l.next.1 = .endOfInput ∧ l.next.2.lexemeStart = turns[k].2 ∧ l.next?.1 = none

/-! ## Runs -/

/-- **Asked in order**: what a lexer asks, and what it has still to ask, is all that
    there is to ask. -/
theorem polls_append_future {l : Lexer σ} {before : List Char} (hl : l.Coherent)
    (hplaced : l.Placed before) {calls : List Call} (hown : ∀ c ∈ calls, c.isOwn = true) :
    l.polls calls ++ (l.run calls).2.future = l.future := by
  induction calls generalizing l before with
  | nil => rfl
  | cons c calls ih =>
    have hrest : ∀ d ∈ calls, d.isOwn = true := by
      intro d hd
      exact hown d (List.mem_cons_of_mem c hd)
    rw [polls_cons, run_cons, List.append_assoc]
    cases hc : c.forToken with
    | true =>
      obtain ⟨trivia, lexeme, rest, h⟩ := exists_munch l.unread
      obtain ⟨_, _, hl', hstands, _⟩ := next_of_munch hl hplaced h
      rw [answer_of_forToken l hc, ih hl' (.inr hstands) hrest]
      exact polled_append_future hl hplaced
    | false =>
      obtain rfl := Call.eq_lexemeStart hc (hown c List.mem_cons_self)
      exact ih hl hplaced hrest

/-- Once the end of input is found, the stream has ended. -/
theorem exhausted_run {l : Lexer σ} {before : List Char} (hl : l.Coherent)
    (hplaced : l.Placed before) {calls : List Call}
    (hend : l.exhausted = true ∨ .endOfInput ∈ (l.turns calls).map Prod.fst) :
    (l.run calls).2.exhausted = true := by
  induction calls generalizing l before with
  | nil => exact hend.resolve_right (by simp [turns])
  | cons c calls ih =>
    rw [run_cons]
    rw [turns_cons, List.map_append, List.mem_append] at hend
    cases hc : c.forToken with
    | true =>
      obtain ⟨trivia, lexeme, rest, h⟩ := exists_munch l.unread
      obtain ⟨htoken, _, hl', hstands, _⟩ := next_of_munch hl hplaced h
      have hended := exhausted_next_iff hl hplaced h
      rw [answer_of_forToken l hc, hc] at hend
      rw [answer_of_forToken l hc]
      apply ih hl' (.inr hstands)
      rcases hend with hexhausted | hfirst | hlater
      · exact .inl (hended.mpr (rest_eq_nil_of_exhausted hexhausted h))
      · -- without a lexeme there is no rest
        have htoken' : l.next.1 = .endOfInput := by simpa [eq_comm] using hfirst
        rw [htoken, Token.ofLexeme_eq_endOfInput_iff] at htoken'
        subst htoken'
        exact .inl (hended.mpr h.rest_eq_nil)
      · exact .inr hlater
    | false =>
      obtain ⟨s, log, heq⟩ := answer_aside l hc
      rw [heq, hc] at hend
      rw [heq]
      apply ih (l := { l with stream := s, log := log }) hl hplaced
      rcases hend with hexhausted | hfirst | hlater
      · exact .inl hexhausted
      · simp at hfirst
      · exact .inr hlater

/-- A call behind the end of input finds it again, at the same position. -/
theorem next_of_ended (s : σ) {calls : List Call} (hown : ∀ c ∈ calls, c.isOwn = true) {k : Nat}
    (hk : k < ((ofStream s).turns calls).length)
    (hend : ((ofStream s).turns calls)[k].1 = .endOfInput) :
    (((ofStream s).run calls).2.next.1, ((ofStream s).run calls).2.next.2.lexemeStart)
      = ((ofStream s).turns calls)[k] := by
  -- one more token is the next one of the same run
  have hown' : ∀ c ∈ calls ++ [.next], c.isOwn = true := by
    intro c hc
    rcases List.mem_append.mp hc with hc | hc
    · exact hown c hc
    · rw [List.mem_singleton.mp hc]
      rfl
  have hone : ∀ l : Lexer σ, l.turns [.next] = [(l.next.1, l.next.2.lexemeStart)] :=
    fun _ => rfl
  have htracked := tracked_places (drain s).text ((calls ++ [Call.next]).countP Call.forToken)
  rw [← turns_ofStream s hown', turns_append] at htracked
  have hlast := htracked.staying k ((ofStream s).turns calls).length hk (by simp [hone])
  rw [List.getElem_append_left hk, List.getElem_append_right (Nat.le_refl _)] at hlast
  simpa [hone] using hlast hend

/-- A run over a stream finishes on what it delivers up to its first end. -/
theorem finishes_ofStream (s : σ) {calls : List Call} (hown : ∀ c ∈ calls, c.isOwn = true) :
    Finishes (drain s).text calls ((ofStream s).polls calls) ((ofStream s).turns calls)
      ((ofStream s).replies calls) ((ofStream s).run calls).2 := by
  have hfuture := polls_append_future (coherent_ofStream s) (placed_ofStream s) hown
  have hturns := turns_ofStream s hown
  have hasked : (ofStream s).polls calls <+: (drain s).text.map some ++ [none] := ⟨_, hfuture⟩
  constructor
  case coherent => exact (reachable_run (.start s) calls).placed.1.symm
  case asked => exact hasked
  case asked_le =>
    have hle := hasked.length_le
    simpa using hle
  case asked_all =>
    intro hend
    have hexhausted := exhausted_run (coherent_ofStream s) (placed_ofStream s) (.inr hend)
    rw [future, if_pos hexhausted, List.append_nil] at hfuture
    rw [hfuture]
    simp [future, ofStream]
  case answered => exact answered_run (ofStream s) calls
  case accounted =>
    intro k hk hne
    simp only [hturns, List.getElem_map, List.getElem_range] at hne ⊢
    apply accounted_place
    intro hnil
    exact hne (Token.ofLexeme_eq_endOfInput_iff.mpr hnil)
  case count_le =>
    rw [hturns]
    exact countP_places_le _ _
  case stays =>
    intro k hk hend
    obtain ⟨htoken, hstart⟩ := Prod.ext_iff.mp (next_of_ended s hown hk hend)
    have hnext : ((ofStream s).run calls).2.next.1 = .endOfInput := htoken.trans hend
    exact ⟨hnext, hstart, by simp [next?, hnext]⟩

/-- **A lexer comes to the end.** Whatever tokens are asked for, it asks its stream
    for what comes up to the first end, each time in order and never behind it,
    every token that it answers with has characters of its own, and once the end of
    input is found nothing else ever is. It does not matter how the stream goes on behind its
    first end, be it without another one. -/
theorem run_finishes :
    (∀ {σ : Type} [CharStream σ] (s : σ) {calls : List Call}, (∀ c ∈ calls, c.isOwn = true) →
      Finishes (drain s).text calls ((ofStream s).polls calls) ((ofStream s).turns calls)
        ((ofStream s).replies calls) ((ofStream s).run calls).2) ∧
    (∀ {τ : Type} [OpenStream τ] {s : τ} {text : List Char} {calls : List Call} {n : Nat},
      EndsAfter s text → (∀ c ∈ calls, c.isOwn = true) → text.length < n →
      Finishes text calls ((rationed s n).polls calls) ((rationed s n).turns calls)
        ((rationed s n).replies calls) ((rationed s n).run calls).2) := by
  constructor
  · intro σ _ s calls hown
    exact finishes_ofStream s hown
  · intro τ _ s text calls n h hown hn
    have hfinishes := finishes_ofStream (Rationed.mk s n) hown
    rwa [Rationed.drain_text_of_endsAfter h hn] at hfinishes

/-- A stream that says once that it has ended, and goes on without end, is asked
    three times. -/
theorem run_finishes_resumed :
    ∃ (s : AnswerSequence) (calls : List Call),
      s = { answer := fun n => if n = 2 then none else some '+' } ∧
      calls = [.next, .next?, .lexemeStart, .next, .next?] ∧
      EndsAfter s ['+', '+'] ∧
      (∀ c ∈ calls, c.isOwn = true) ∧
      Finishes ['+', '+'] calls [some '+', some '+', none]
        [(.symbol '+', ⟨1, 1⟩), (.symbol '+', ⟨1, 2⟩), (.endOfInput, ⟨1, 3⟩),
          (.endOfInput, ⟨1, 3⟩)]
        [.token (.symbol '+') ⟨1, 1⟩, .token? (some (.symbol '+')), .position ⟨1, 2⟩,
          .token .endOfInput ⟨1, 3⟩, .token? none] ((rationed s 9).run calls).2 ∧
      ((rationed s 9).run calls).2.stream.ration = 6 := by
  obtain ⟨s, hs⟩ : ∃ s : AnswerSequence,
      s = { answer := fun n => if n = 2 then none else some '+' } := ⟨_, rfl⟩
  obtain ⟨calls, hcalls⟩ : ∃ calls : List Call,
      calls = [.next, .next?, .lexemeStart, .next, .next?] := ⟨_, rfl⟩
  have hends : EndsAfter s ['+', '+'] := by
    rw [hs]
    exact .delivered rfl (.delivered rfl (.ended rfl))
  have hown : ∀ c ∈ calls, c.isOwn = true := by
    rw [hcalls]
    exact List.all_eq_true.mp rfl
  have hpolls : (rationed s 9).polls calls = [some '+', some '+', none] := by
    rw [hs, hcalls]
    decide +kernel
  have hturns : (rationed s 9).turns calls
      = [(.symbol '+', ⟨1, 1⟩), (.symbol '+', ⟨1, 2⟩), (.endOfInput, ⟨1, 3⟩),
        (.endOfInput, ⟨1, 3⟩)] := by
    rw [hs, hcalls]
    decide +kernel
  have hreplies : (rationed s 9).replies calls
      = [.token (.symbol '+') ⟨1, 1⟩, .token? (some (.symbol '+')), .position ⟨1, 2⟩,
        .token .endOfInput ⟨1, 3⟩, .token? none] := by
    rw [hs, hcalls]
    decide +kernel
  have hration : ((rationed s 9).run calls).2.stream.ration = 6 := by
    rw [hs, hcalls]
    decide +kernel
  have hfinishes := run_finishes.2 (n := 9) hends hown (by simp)
  rw [hpolls, hturns, hreplies] at hfinishes
  exact ⟨s, calls, hs, hcalls, hends, hown, hfinishes, hration⟩

end Lexer

end FloatLang
