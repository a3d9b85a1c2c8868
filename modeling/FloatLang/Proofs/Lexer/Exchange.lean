import FloatLang.Proofs.Lexer.Runs
import FloatLang.Proofs.Stream.Watched

/-! # A Lexer over Another Stream

  A lexer depends on the answers of its stream and on nothing else of it. Put
  another stream that answers alike in its place (`Lexer.map`), and the lexer does
  the same.

  The streams may part at some time (`KeepsAnswersOn P`): until then `P` holds, so
  if it holds behind a call, the call is the same over both.

  Main statements: `next_map` for a call and `run_map` for a run.
-/

namespace FloatLang

variable {σ τ : Type}

namespace Lexer

/-- The lexer with another stream in place of its own. -/
def map (f : σ → τ) (l : Lexer σ) : Lexer τ where
  stream := f l.stream
  lookahead := l.lookahead
  exhausted := l.exhausted
  lookaheadPosition := l.lookaheadPosition
  cursor := l.cursor
  lexemeStart := l.lexemeStart
  log := l.log

theorem map_recordError (f : σ → τ) (l : Lexer σ) (error? : Option StreamError) :
    (l.recordError error?).map f = (l.map f).recordError error? := by
  cases error? <;> rfl

section steps
variable [CharStream σ] (accept : Char → Bool) {l : Lexer σ} {c : Char}

theorem takeWhile_of_accept (hc : l.lookahead = some c) (haccept : accept c = true) :
    l.takeWhile accept
      = (c :: (l.advance.takeWhile accept).1, (l.advance.takeWhile accept).2) := by
  rw [takeWhile]
  split
  · next d hd =>
    obtain rfl : c = d := Option.some.inj (hc.symm.trans hd)
    rw [if_pos haccept]
  · next hnone =>
    rw [hc] at hnone
    cases hnone

theorem takeWhile_of_not (hstop : ∀ c, l.lookahead = some c → ¬ accept c = true) :
    l.takeWhile accept = ([], l) := by
  rw [takeWhile]
  split
  · next d hd => rw [if_neg (hstop d hd)]
  · rfl

end steps

section map
variable [CharStream σ] [CharStream τ] {P : σ → Prop} {f : σ → τ} (hf : KeepsAnswersOn P f)
include hf

theorem advance_map {l : Lexer σ} (h : P l.advance.stream) :
    P l.stream ∧ (l.map f).advance = l.advance.map f := by
  unfold advance at h ⊢
  by_cases hexhausted : l.exhausted = true
  · rw [if_pos hexhausted] at h ⊢
    rw [if_pos (show (l.map f).exhausted = true from hexhausted)]
    exact ⟨h, rfl⟩
  · rw [if_neg hexhausted] at h ⊢
    rw [if_neg (show ¬ (l.map f).exhausted = true from hexhausted)]
    have hanswer := hf.pull_eq l.stream
    cases hpull : pull l.stream with
    | delivered c s =>
      rw [hpull] at h hanswer
      obtain ⟨hP, hpull'⟩ := hanswer h
      rw [show pull (l.map f).stream = _ from hpull']
      exact ⟨hP, rfl⟩
    | ended s error? =>
      rw [hpull] at h hanswer
      rw [stream_recordError] at h
      obtain ⟨hP, hpull'⟩ := hanswer h
      rw [show pull (l.map f).stream = _ from hpull', map_recordError]
      exact ⟨hP, rfl⟩

theorem takeWhile_map (accept : Char → Bool) {l : Lexer σ} (h : P (l.takeWhile accept).2.stream) :
    P l.stream ∧
      (l.map f).takeWhile accept = ((l.takeWhile accept).1, (l.takeWhile accept).2.map f) := by
  fun_induction takeWhile accept l with
  | case1 l c hc haccept run l' hrun ih =>
    rw [hrun] at ih
    obtain ⟨hadvance, htake⟩ := ih h
    obtain ⟨hP, hmap⟩ := advance_map hf hadvance
    refine ⟨hP, ?_⟩
    rw [takeWhile_of_accept accept (l := l.map f) hc haccept, hmap, htake]
  | case2 l c hc haccept =>
    refine ⟨h, takeWhile_of_not accept ?_⟩
    intro d hd
    obtain rfl : c = d := Option.some.inj (hc.symm.trans hd)
    exact haccept
  | case3 l hnone =>
    refine ⟨h, takeWhile_of_not accept ?_⟩
    intro d hd
    rw [show l.lookahead = some d from hd] at hnone
    cases hnone

theorem skipWhile_map (accept : Char → Bool) {l : Lexer σ} (h : P (l.skipWhile accept).stream) :
    P l.stream ∧ (l.map f).skipWhile accept = (l.skipWhile accept).map f := by
  rw [← takeWhile_snd] at h
  obtain ⟨hP, htake⟩ := takeWhile_map hf accept h
  rw [← takeWhile_snd, ← takeWhile_snd, htake]
  exact ⟨hP, rfl⟩

theorem skipBlanks_map {l : Lexer σ} (h : P l.skipBlanks.stream) :
    P l.stream ∧ (l.map f).skipBlanks = l.skipBlanks.map f := by
  obtain ⟨hP, hskip⟩ := skipWhile_map hf isBlank h
  unfold skipBlanks
  rw [hskip]
  exact ⟨hP, rfl⟩

theorem skipComment_map {l : Lexer σ} (h : P l.skipComment.stream) :
    P l.stream ∧ (l.map f).skipComment = l.skipComment.map f := by
  obtain ⟨hP, hskip⟩ := skipWhile_map hf inComment h
  unfold skipComment
  rw [hskip]
  exact ⟨hP, rfl⟩

theorem skipTrivia_map {l : Lexer σ} (h : P l.skipTrivia.stream) :
    P l.stream ∧ (l.map f).skipTrivia = l.skipTrivia.map f := by
  fun_induction skipTrivia l with
  | case1 l hmark ih =>
    obtain ⟨hrest, htrivia⟩ := ih h
    obtain ⟨hcomment, hskip⟩ := skipComment_map hf hrest
    obtain ⟨hP, hblanks⟩ := skipBlanks_map hf hcomment
    have hmark' : (l.map f).skipBlanks.lookahead = some commentMark := by
      rw [hblanks]
      exact hmark
    rw [skipTrivia, dif_pos hmark', hblanks, hskip, htrivia]
    exact ⟨hP, rfl⟩
  | case2 l hmark =>
    obtain ⟨hP, hblanks⟩ := skipBlanks_map hf h
    have hmark' : ¬ (l.map f).skipBlanks.lookahead = some commentMark := by
      rw [hblanks]
      exact hmark
    rw [skipTrivia, dif_neg hmark', hblanks]
    exact ⟨hP, rfl⟩

theorem takeLexeme_map {l : Lexer σ} (h : P l.takeLexeme.2.stream) :
    P l.stream ∧ (l.map f).takeLexeme = (l.takeLexeme.1, l.takeLexeme.2.map f) := by
  have hlookahead : (l.map f).lookahead = l.lookahead := rfl
  unfold takeLexeme at h ⊢
  rw [hlookahead]
  cases hc : l.lookahead with
  | none =>
    rw [hc] at h
    exact ⟨h, rfl⟩
  | some c =>
    rw [hc] at h
    by_cases halpha : c.isAlpha = true
    · simp only [if_pos halpha] at h ⊢
      obtain ⟨hP, htake⟩ := takeWhile_map hf _ h
      exact ⟨hP, by rw [htake]⟩
    · by_cases hnumeral : isNumeral c = true
      · simp only [if_neg halpha, if_pos hnumeral] at h ⊢
        obtain ⟨hP, htake⟩ := takeWhile_map hf _ h
        exact ⟨hP, by rw [htake]⟩
      · simp only [if_neg halpha, if_neg hnumeral] at h ⊢
        obtain ⟨hP, hadvance⟩ := advance_map hf h
        exact ⟨hP, by rw [hadvance]⟩

/-- **A call depends on the answers of the stream** and on nothing else of it. -/
theorem next_map {l : Lexer σ} (h : P l.next.2.stream) :
    P l.stream ∧ (l.map f).next = (l.next.1, l.next.2.map f) := by
  obtain ⟨htrivia, hlexeme⟩ := takeLexeme_map hf (l := l.skipTrivia) h
  obtain ⟨hP, hskip⟩ := skipTrivia_map hf htrivia
  unfold next
  rw [hskip, hlexeme]
  exact ⟨hP, rfl⟩

/-- So does any call: the lexer gives the same reply, and does the same after
    it. -/
theorem answer_map {l : Lexer σ} {c : Call} (h : P (l.answer c).2.stream) :
    P l.stream ∧ ((l.map f).answer c).1.own? = (l.answer c).1.own? ∧
      ((l.map f).answer c).2 = (l.answer c).2.map f := by
  cases hc : c.forToken with
  | true =>
    rw [answer_of_forToken l hc] at h ⊢
    obtain ⟨hP, hnext⟩ := next_map hf h
    refine ⟨hP, own?_answer_of_forToken hc (congrArg Prod.fst hnext) ?_, ?_⟩
    · rw [hnext]
      rfl
    · rw [answer_of_forToken _ hc, hnext]
  | false =>
    cases c with
    | next => cases hc
    | next? => cases hc
    | lexemeStart => exact ⟨h, rfl, rfl⟩
    | stream => exact ⟨h, rfl, rfl⟩
    | pullBehind =>
      simp only [answer, pullBehind] at h ⊢
      have hanswer := hf.pull_eq l.stream
      cases hpull : pull l.stream with
      | delivered c s =>
        rw [hpull] at h hanswer
        obtain ⟨hP, hpull'⟩ := hanswer h
        rw [show pull (l.map f).stream = _ from hpull']
        exact ⟨hP, rfl, rfl⟩
      | ended s error? =>
        rw [hpull] at h hanswer
        simp only [stream_recordError] at h
        obtain ⟨hP, hpull'⟩ := hanswer h
        rw [show pull (l.map f).stream = _ from hpull']
        exact ⟨hP, rfl, (map_recordError f { l with stream := s } error?).symm⟩
    | releaseError =>
      obtain ⟨hP, hrelease⟩ := hf.releaseError_eq l.stream h
      refine ⟨hP, rfl, ?_⟩
      show { l.map f with stream := (CharStream.releaseError (f l.stream)).2 } = _
      rw [hrelease]
      rfl

/-- **A run depends on the answers of the stream** and on nothing else of it. -/
theorem run_map {l : Lexer σ} {calls : List Call} (h : P (l.run calls).2.stream) :
    P l.stream ∧ (l.map f).replies calls = l.replies calls ∧
      (l.map f).turns calls = l.turns calls := by
  induction calls generalizing l with
  | nil => exact ⟨h, rfl, rfl⟩
  | cons c calls ih =>
    obtain ⟨hanswer, hreplies, hturns⟩ := ih (l := (l.answer c).2) h
    obtain ⟨hP, hown, hrest⟩ := answer_map hf hanswer
    rw [replies_cons, replies_cons, turns_cons, turns_cons, hown, hrest, hreplies, hturns]
    refine ⟨hP, rfl, ?_⟩
    cases hc : c.forToken with
    | true =>
      rw [answer_of_forToken l hc] at hanswer
      rw [(next_map hf hanswer).2]
      rfl
    | false => rfl

end map

/-- A stream that answers alike leaves the same input unread. -/
theorem unread_map [CharStream σ] [CharStream τ] {f : σ → τ} (hf : KeepsAnswers f) (l : Lexer σ) :
    (l.map f).unread = l.unread := by
  unfold unread
  show (if l.exhausted then [] else l.held ++ (drain (f l.stream)).text) = _
  rw [hf.drain_text]

end Lexer

end FloatLang
