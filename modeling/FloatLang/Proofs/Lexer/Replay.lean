import FloatLang.Proofs.Grammar.Seam
import FloatLang.Proofs.Lexer.Rationed
import FloatLang.Proofs.Stream.Decoding

/-! # Replaying What a Lexer Heard

  A lexer depends on its stream only through the characters that it pulls itself.
  Whatever was done to the stream in the meantime, a fresh lexer over just these
  characters gives the same answers.

  - **Simulation** (`Simulation`): a relation between two lexers that calls keep.
    A call from behind the back of the first is none for the second.
  - **Replaying** (`Replays`): the second has still to read what the first has in
    hand and will hear.
  - **Reading alike** (`ReadsAlike`): both have the same input still to read, and
    nobody takes any of it.

  Main statement: `replies_heard`.
-/

namespace FloatLang

variable {σ τ : Type}

namespace Lexer

section runs
variable [CharStream σ] [CharStream τ]

/-! ## Simulations -/

/-- A relation between two lexers, and the calls that the first one has still to
    answer, that every call keeps. -/
structure Simulation (R : Lexer σ → Lexer τ → List Call → Prop) : Prop where
  /-- Their last lexemes start at the same position. -/
  lexemeStart : ∀ {l m calls}, R l m calls → l.lexemeStart = m.lexemeStart
  /-- A call for a token finds the same one. -/
  next : ∀ {l m c calls}, R l m (c :: calls) → c.forToken = true →
    l.next.1 = m.next.1 ∧ R l.next.2 m.next.2 calls
  /-- Any other call is none for the second lexer. -/
  aside : ∀ {l m c calls}, R l m (c :: calls) → c.forToken = false → R (l.answer c).2 m calls

/-- **Simulated lexers** give the same replies and find the same tokens. -/
theorem Simulation.replies_eq {R : Lexer σ → Lexer τ → List Call → Prop} (hR : Simulation R)
    {l : Lexer σ} {m : Lexer τ} {calls : List Call} (h : R l m calls) :
    l.replies calls = m.replies (calls.filter Call.isOwn) ∧
      l.turns calls = m.turns (calls.filter Call.isOwn) := by
  induction calls generalizing l m with
  | nil => exact ⟨rfl, rfl⟩
  | cons c calls ih =>
    cases hc : c.forToken with
    | true =>
      obtain ⟨htoken, hnext⟩ := hR.next h hc
      have hstart := hR.lexemeStart hnext
      obtain ⟨hreplies, hturns⟩ := ih hnext
      rw [List.filter_cons_of_pos (Call.isOwn_of_forToken hc), replies_cons, replies_cons,
        turns_cons, turns_cons, answer_of_forToken l hc, answer_of_forToken m hc,
        own?_answer_of_forToken hc htoken hstart, htoken, hstart, hreplies, hturns]
      exact ⟨rfl, rfl⟩
    | false =>
      obtain ⟨hreplies, hturns⟩ := ih (hR.aside h hc)
      rw [replies_cons, turns_cons, hc, hreplies, hturns]
      cases hown : c.isOwn with
      | true =>
        obtain rfl := Call.eq_lexemeStart hc hown
        have hreply : (l.answer .lexemeStart).1.own? = (m.answer .lexemeStart).1.own? := by
          show some (Answer.position _) = some (Answer.position _)
          rw [hR.lexemeStart h]
        rw [List.filter_cons_of_pos rfl, replies_cons, turns_cons, hreply]
        exact ⟨rfl, rfl⟩
      | false =>
        rw [List.filter_cons_of_neg (by simp [hown]), own?_answer_of_not_isOwn l hown]
        exact ⟨rfl, rfl⟩

/-! ## Lexers behind the same text -/

/-- Two lexers that have passed the same text. -/
structure Aligned (before : List Char) (l : Lexer σ) (m : Lexer τ) : Prop where
  /-- The first is coherent. -/
  coherent : l.Coherent
  /-- So is the second. -/
  coherent' : m.Coherent
  /-- The first has passed the text. -/
  placed : l.Placed before
  /-- So has the second. -/
  placed' : m.Placed before
  /-- Their last lexemes start at the same position. -/
  lexemeStart : l.lexemeStart = m.lexemeStart

omit [CharStream σ] [CharStream τ] in
theorem aligned_ofStream (s : σ) (t : τ) : Aligned [] (ofStream s) (ofStream t) where
  coherent := coherent_ofStream s
  coherent' := coherent_ofStream t
  placed := placed_ofStream s
  placed' := placed_ofStream t
  lexemeStart := rfl

/-- A call that splits off the same trivia and the same lexeme finds the same
    token. -/
theorem Aligned.next {before trivia lexeme rest rest' : List Char} {l : Lexer σ} {m : Lexer τ}
    (h : Aligned before l m) (hl : Munch l.unread trivia lexeme rest)
    (hm : Munch m.unread trivia lexeme rest') :
    l.next.1 = m.next.1 ∧ Aligned (before ++ trivia ++ lexeme) l.next.2 m.next.2 := by
  obtain ⟨htoken, hstart, hcoherent, hstands, _⟩ := next_of_munch h.coherent h.placed hl
  obtain ⟨htoken', hstart', hcoherent', hstands', _⟩ := next_of_munch h.coherent' h.placed' hm
  exact ⟨htoken.trans htoken'.symm, hcoherent, hcoherent', .inr hstands, .inr hstands',
    hstart.trans hstart'.symm⟩

omit [CharStream τ] in
/-- What is done to the stream of one does not matter. -/
theorem Aligned.aside {before : List Char} {l : Lexer σ} {m : Lexer τ} (h : Aligned before l m)
    {c : Call} (hc : c.forToken = false) : Aligned before (l.answer c).2 m := by
  obtain ⟨s, log, heq⟩ := answer_aside l hc
  rw [heq]
  exact ⟨h.coherent, h.coherent', h.placed, h.placed', h.lexemeStart⟩

/-! ## Hearing the same -/

/-- A lexer at its end asks no more. -/
theorem polls_of_exhausted {l : Lexer σ} {before : List Char} (hl : l.Coherent)
    (hplaced : l.Placed before) (hexhausted : l.exhausted = true) (calls : List Call) :
    l.polls calls = [] := by
  induction calls generalizing l before with
  | nil => rfl
  | cons c calls ih =>
    rw [polls_cons]
    cases hc : c.forToken with
    | true =>
      obtain ⟨trivia, lexeme, rest, h⟩ := exists_munch l.unread
      obtain ⟨_, _, hl', hstands, _⟩ := next_of_munch hl hplaced h
      obtain ⟨new, _, hquiet, hpolled⟩ := polled_of_munch hl hplaced h
      have hexhausted' := (exhausted_next_iff hl hplaced h).mpr
        (rest_eq_nil_of_exhausted hexhausted h)
      rw [answer_of_forToken l hc, ih hl' (.inr hstands) hexhausted', hpolled, hquiet hexhausted,
        hexhausted]
      simp
    | false =>
      obtain ⟨s, log, heq⟩ := answer_aside l hc
      rw [heq]
      exact ih (l := { l with stream := s, log := log }) hl hplaced hexhausted

/-- What is heard while a token is found comes first. -/
theorem heard_cons {l : Lexer σ} {before trivia lexeme rest : List Char} (hl : l.Coherent)
    (hplaced : l.Placed before) (h : Munch l.unread trivia lexeme rest) {c : Call}
    (hc : c.forToken = true) (calls : List Call) :
    l.held ++ l.heard (c :: calls)
      = trivia ++ lexeme ++ rest.head?.toList ++ l.next.2.heard calls := by
  obtain ⟨_, _, hl', hstands, _⟩ := next_of_munch hl hplaced h
  obtain ⟨new, hnew, _, hpolled⟩ := polled_of_munch hl hplaced h
  unfold heard
  rw [polls_cons, if_pos hc, answer_of_forToken l hc, hpolled, ← hnew, List.append_assoc,
    characters_map_some, List.append_assoc]
  -- where the stream ends, nothing is heard behind it
  cases hended : l.next.2.exhausted && !l.exhausted with
  | true =>
    have hexhausted : l.next.2.exhausted = true := (Bool.and_eq_true_iff.mp hended).1
    rw [polls_of_exhausted hl' (.inr hstands) hexhausted calls]
    rfl
  | false => rfl

theorem heard_of_exhausted {l : Lexer σ} {before : List Char} (hl : l.Coherent)
    (hplaced : l.Placed before) (hexhausted : l.exhausted = true) (calls : List Call) :
    l.heard calls = [] := by
  unfold heard
  rw [polls_of_exhausted hl hplaced hexhausted]
  rfl

/-- `m` still has to read what `l` has in hand and will hear. -/
def Replays (l : Lexer σ) (m : Lexer τ) (calls : List Call) : Prop :=
  ∃ before, Aligned before l m ∧ m.unread = l.held ++ l.heard calls

/-- **A replay** goes on call by call. -/
theorem simulation_replays : Simulation (Replays : Lexer σ → Lexer τ → List Call → Prop) where
  lexemeStart := by
    rintro l m calls ⟨before, haligned, _⟩
    exact haligned.lexemeStart
  next := by
    rintro l m c calls ⟨before, haligned, hunread⟩ hc
    obtain ⟨trivia, lexeme, rest, h⟩ := exists_munch l.unread
    obtain ⟨_, _, hl', hstands, _⟩ := next_of_munch haligned.coherent haligned.placed h
    have hlookahead := lookahead_next haligned.coherent haligned.placed h
    rw [heard_cons haligned.coherent haligned.placed h hc, List.append_assoc] at hunread
    -- the character behind the lexeme is heard as well, so the split is the same
    have hhead : rest.head? = (rest.head?.toList ++ l.next.2.heard calls).head? := by
      cases hrest : rest with
      | nil =>
        have hexhausted := (exhausted_next_iff haligned.coherent haligned.placed h).mpr hrest
        rw [heard_of_exhausted hl' (.inr hstands) hexhausted]
        rfl
      | cons d tail => rfl
    have hm := h.replace hhead
    rw [← hunread] at hm
    obtain ⟨htoken, haligned'⟩ := haligned.next h hm
    obtain ⟨_, _, _, _, hunread'⟩ := next_of_munch haligned.coherent' haligned.placed' hm
    refine ⟨htoken, _, haligned', ?_⟩
    rw [hunread', hstands.held_eq, hlookahead]
  aside := by
    rintro l m c calls ⟨before, haligned, hunread⟩ hc
    refine ⟨before, haligned.aside hc, ?_⟩
    obtain ⟨s, log, heq⟩ := answer_aside l hc
    unfold heard at hunread ⊢
    rw [polls_cons, hc] at hunread
    rw [hunread, heq]
    rfl

/-! ## Reading the same -/

variable (σ) in
/-- The call leaves what a stream delivers as it is. -/
def Call.Spares (c : Call) : Prop :=
  c.forToken = false → ∀ l : Lexer σ, (drain (l.answer c).2.stream).text = (drain l.stream).text

/-- A call that the lexer answers itself does nothing to the stream but ask for
    tokens. -/
theorem Call.spares_of_isOwn {c : Call} (hown : c.isOwn = true) : c.Spares σ := by
  intro hc l
  obtain rfl := Call.eq_lexemeStart hc hown
  rfl

/-- Of a reader the error may be taken as well. -/
theorem Call.spares_reader {c : Call} (hc : c ≠ .pullBehind) : c.Spares Utf8Reader := by
  intro hnone l
  cases c with
  | next => cases hnone
  | next? => cases hnone
  | lexemeStart => rfl
  | stream => rfl
  | pullBehind => exact absurd rfl hc
  | releaseError => exact Utf8Reader.drain_text_releaseError l.stream

/-- Two lexers that have the same input still to read, and calls that leave it as it
    is. -/
def ReadsAlike (l : Lexer σ) (m : Lexer τ) (calls : List Call) : Prop :=
  ∃ before, Aligned before l m ∧ l.unread = m.unread ∧ ∀ c ∈ calls, c.Spares σ

/-- **Lexers over the same text** go on alike. -/
theorem simulation_readsAlike :
    Simulation (ReadsAlike : Lexer σ → Lexer τ → List Call → Prop) where
  lexemeStart := by
    rintro l m calls ⟨before, haligned, _⟩
    exact haligned.lexemeStart
  next := by
    rintro l m c calls ⟨before, haligned, hunread, hspares⟩ hc
    obtain ⟨trivia, lexeme, rest, h⟩ := exists_munch l.unread
    have hm := h
    rw [hunread] at hm
    obtain ⟨htoken, haligned'⟩ := haligned.next h hm
    obtain ⟨_, _, _, _, hrest⟩ := next_of_munch haligned.coherent haligned.placed h
    obtain ⟨_, _, _, _, hrest'⟩ := next_of_munch haligned.coherent' haligned.placed' hm
    exact ⟨htoken, _, haligned', hrest.trans hrest'.symm,
      fun d hd => hspares d (List.mem_cons_of_mem c hd)⟩
  aside := by
    rintro l m c calls ⟨before, haligned, hunread, hspares⟩ hc
    refine ⟨before, haligned.aside hc, ?_, fun d hd => hspares d (List.mem_cons_of_mem c hd)⟩
    have htext := hspares c List.mem_cons_self hc l
    obtain ⟨s, log, heq⟩ := answer_aside l hc
    rw [heq] at htext ⊢
    rw [← hunread, unread, unread, show (drain s).text = _ from htext]
    rfl

/-- A lexer over a stream that is left alone does the same over its text. -/
theorem readsAlike_ofStream (s : σ) {calls : List Call} (hspares : ∀ c ∈ calls, c.Spares σ) :
    ReadsAlike (ofStream s) (ofStream (drain s).text) calls := by
  refine ⟨[], aligned_ofStream _ _, ?_, hspares⟩
  rw [unread_ofStream, unread_ofStream, drain_list]

/-- A fresh lexer over what a lexer will hear replays it. -/
theorem replays_heard (s : σ) (calls : List Call) :
    Replays (ofStream s) (ofStream ((ofStream s).heard calls)) calls := by
  refine ⟨[], aligned_ofStream _ _, ?_⟩
  rw [unread_ofStream, drain_list, (fresh_ofStream s).held_eq]
  rfl

/-- **Only what a lexer hears matters.** Whatever the stream, and whatever is done
    to it between the calls, a fresh lexer over the characters that the lexer was
    given gives the same replies. A stream that is left alone, or a reader of which
    at most the error is taken, is lexed like the text that it delivers before it
    ends or fails. Where a stream has no end, this holds of all calls that
    return. -/
theorem replies_heard :
    (∀ {σ : Type} [CharStream σ] (s : σ) (calls : List Call),
      (ofStream s).replies calls
        = (ofStream ((ofStream s).heard calls)).replies (calls.filter Call.isOwn)) ∧
    (∀ {σ : Type} [CharStream σ] (s : σ) (calls : List Call),
      (ofStream s).replies (calls.filter Call.isOwn)
        = (ofStream (drain s).text).replies (calls.filter Call.isOwn)) ∧
    (∀ {events : List ReadEvent} {text : List Char} {rest : List UInt8} {calls : List Call},
      Utf8.LongestText (supply events).bytes text rest → .pullBehind ∉ calls →
      (ofStream ({ events := events } : Utf8Reader)).replies calls
        = (ofStream text).replies (calls.filter Call.isOwn)) ∧
    (∀ {τ : Type} [OpenStream τ] {s : τ} {calls : List Call} {n m : Nat},
      Lasts s calls n → n ≤ m →
      (rationed s m).replies calls
        = (ofStream ((rationed s n).heard calls)).replies (calls.filter Call.isOwn)) := by
  have hheard {σ : Type} [CharStream σ] (s : σ) (calls : List Call) :
      (ofStream s).replies calls
        = (ofStream ((ofStream s).heard calls)).replies (calls.filter Call.isOwn) :=
    (simulation_replays.replies_eq (replays_heard s calls)).1
  refine ⟨hheard, ?_, ?_, ?_⟩
  · intro σ _ s calls
    have hspares : ∀ c ∈ calls.filter Call.isOwn, c.Spares σ := by
      intro c hc
      exact Call.spares_of_isOwn (List.mem_filter.mp hc).2
    have hreplies := (simulation_readsAlike.replies_eq (readsAlike_ofStream s hspares)).1
    simpa only [List.filter_filter, Bool.and_self] using hreplies
  · intro events text rest calls hlongest hbehind
    have hspares : ∀ c ∈ calls, c.Spares Utf8Reader := by
      intro c hc
      apply Call.spares_reader
      rintro rfl
      exact hbehind hc
    have halike := readsAlike_ofStream { events := events } hspares
    rw [Utf8Reader.drain_text_of_supply rfl hlongest] at halike
    exact (simulation_readsAlike.replies_eq halike).1
  · intro τ _ s calls n m h hm
    rw [(run_of_lasts h hm).1]
    exact hheard _ calls

end runs

/-- A reader that fails behind `a`, and an operator that comes without end. -/
theorem replies_heard_unending :
    (Utf8.LongestText (supply [.byte 0x61, .byte 0xff]).bytes ['a'] [0xff] ∧
      .pullBehind ∉ [Call.next, .releaseError, .next?, .lexemeStart] ∧
      (ofStream ({ events := [.byte 0x61, .byte 0xff] } : Utf8Reader)).replies
          [.next, .releaseError, .next?, .lexemeStart]
        = [.token (.identifier "a") ⟨1, 1⟩, .token? none, .position ⟨1, 2⟩]) ∧
    ∃ s : AnswerSequence, s = { answer := fun _ => some '+' } ∧
      Lasts s [.next, .pullBehind, .next] 5 ∧
      ∀ n, 5 ≤ n → (rationed s n).replies [.next, .pullBehind, .next]
        = [.token (.symbol '+') ⟨1, 1⟩, .token (.symbol '+') ⟨1, 2⟩] := by
  constructor
  · have hmalformed : Utf8.LongestText [0xff] [] [0xff] := by
      apply Utf8.longestText_nil
      intro c rest heq
      obtain ⟨first, tail, hchar, hwidth⟩ := Utf8.utf8EncodeChar_eq_cons c
      rw [hchar] at heq
      obtain rfl : (0xff : UInt8) = first := (List.cons.inj heq).1
      exact absurd hwidth (by simp [Utf8.announcedWidth])
    have hlongest : Utf8.LongestText (supply [.byte 0x61, .byte 0xff]).bytes ['a'] [0xff] :=
      hmalformed.cons 'a'
    have hbehind : .pullBehind ∉ [Call.next, .releaseError, .next?, .lexemeStart] := by simp
    refine ⟨hlongest, hbehind, ?_⟩
    rw [replies_heard.2.2.1 hlongest hbehind]
    decide +kernel
  · obtain ⟨s, hs⟩ : ∃ s : AnswerSequence, s = { answer := fun _ => some '+' } := ⟨_, rfl⟩
    have hleft : ((rationed s 5).run [.next, .pullBehind, .next]).2.stream.ration = 1 := by
      rw [hs]
      decide +kernel
    have hlasts : Lasts s [.next, .pullBehind, .next] 5 :=
      Nat.lt_of_lt_of_eq Nat.one_pos hleft.symm
    refine ⟨s, hs, hlasts, ?_⟩
    intro n hn
    rw [replies_heard.2.2.2 hlasts hn, hs]
    decide +kernel

end Lexer

end FloatLang
