import FloatLang.Proofs.Lexer.Unread

/-! # Runs of Calls

  What a lexer answers, call after call, and what of it is its own.

  - **Own calls** (`Call.isOwn`): those that the lexer answers itself. The others
    reach past it to its stream.
  - **Replies** (`replies`): what a lexer answers itself. What its stream
    answers from behind its back is left out.
  - **Turns** (`turns`): the token that each call finds, with its position.
  - **Answered** (`Answered`): the replies to calls tell what their turns are.

  Main statement: `answered_run`.
-/

namespace FloatLang.Lexer

variable {σ τ : Type}

/-! ## Calls -/

/-- Whether a call is for a token. -/
def Call.forToken : Call → Bool
  | .next | .next? => true
  | .lexemeStart | .stream | .pullBehind | .releaseError => false

/-- Whether the lexer answers the call itself. The other calls reach past it to
    its stream. -/
def Call.isOwn : Call → Bool
  | .next | .next? | .lexemeStart => true
  | .stream | .pullBehind | .releaseError => false

theorem Call.isOwn_of_forToken {c : Call} (hc : c.forToken = true) : c.isOwn = true := by
  cases c with
  | next => rfl
  | next? => rfl
  | _ => cases hc

/-- The own call for no token asks for the start of the last one. -/
theorem Call.eq_lexemeStart {c : Call} (hc : c.forToken = false) (hown : c.isOwn = true) :
    c = .lexemeStart := by
  cases c with
  | next => cases hc
  | next? => cases hc
  | lexemeStart => rfl
  | _ => cases hown

/-- An answer that a lexer gives itself: it holds no stream. -/
def Answer.own? : Answer σ → Option (Answer Empty)
  | .token t p => some (.token t p)
  | .token? t? => some (.token? t?)
  | .position p => some (.position p)
  | .stream _ => none
  | .char? _ => none
  | .error? _ => none

section answers
variable [CharStream σ] [CharStream τ]

/-- A call for a token finds the next one. -/
theorem answer_of_forToken (l : Lexer σ) {c : Call} (hc : c.forToken = true) :
    (l.answer c).2 = l.next.2 := by
  cases c with
  | next => rfl
  | next? => rfl
  | _ => cases hc

/-- Any other call leaves the lexer as it is, apart from its stream and its
    records. -/
theorem answer_aside (l : Lexer σ) {c : Call} (hc : c.forToken = false) :
    ∃ s log, (l.answer c).2 = { l with stream := s, log := log } := by
  cases c with
  | next => cases hc
  | next? => cases hc
  | lexemeStart => exact ⟨l.stream, l.log, rfl⟩
  | stream => exact ⟨l.stream, l.log, rfl⟩
  | pullBehind =>
    simp only [answer, pullBehind]
    cases pull l.stream with
    | delivered c s => exact ⟨s, l.log, rfl⟩
    | ended s error? =>
      cases error? with
      | none => exact ⟨s, l.log, rfl⟩
      | some e => exact ⟨s, l.log.push (.stopped e), rfl⟩
  | releaseError => exact ⟨(CharStream.releaseError l.stream).2, l.log, rfl⟩

/-! ## Replies and turns -/

/-- What the lexer answers itself while it answers calls. -/
def replies (l : Lexer σ) (calls : List Call) : List (Answer Empty) :=
  (l.run calls).1.filterMap Answer.own?

/-- The token that each call for a token finds, with the position of its first
    character. -/
def turns (l : Lexer σ) : List Call → List (Token × Position)
  | [] => []
  | c :: calls =>
    let l' := (l.answer c).2
    if c.forToken then (l.next.1, l'.lexemeStart) :: l'.turns calls else l'.turns calls

theorem replies_cons (l : Lexer σ) (c : Call) (calls : List Call) :
    l.replies (c :: calls)
      = (l.answer c).1.own?.toList ++ (l.answer c).2.replies calls := by
  unfold replies
  rw [run]
  show List.filterMap Answer.own? ((l.answer c).1 :: _) = _
  rw [List.filterMap_cons]
  cases (l.answer c).1.own? <;> rfl

theorem turns_cons (l : Lexer σ) (c : Call) (calls : List Call) :
    l.turns (c :: calls)
      = (if c.forToken then [(l.next.1, l.next.2.lexemeStart)] else [])
        ++ (l.answer c).2.turns calls := by
  cases c <;> rfl

/-- The answer to a call for a token tells the token and its position, or the
    token alone. -/
theorem own?_answer_of_forToken {l : Lexer σ} {m : Lexer τ} {c : Call} (hc : c.forToken = true)
    (htoken : l.next.1 = m.next.1) (hstart : l.next.2.lexemeStart = m.next.2.lexemeStart) :
    (l.answer c).1.own? = (m.answer c).1.own? := by
  cases c with
  | next =>
    show some (Answer.token l.next.1 l.next.2.lexemeStart)
      = some (Answer.token m.next.1 m.next.2.lexemeStart)
    rw [htoken, hstart]
  | next? =>
    show some (Answer.token? (if l.next.1 = .endOfInput then none else some l.next.1))
      = some (Answer.token? (if m.next.1 = .endOfInput then none else some m.next.1))
    rw [htoken]
  | _ => cases hc

/-- A call that the lexer does not answer itself gives no reply. -/
theorem own?_answer_of_not_isOwn (l : Lexer σ) {c : Call} (hc : c.isOwn = false) :
    (l.answer c).1.own? = none := by
  cases c with
  | stream => rfl
  | pullBehind => rfl
  | releaseError => rfl
  | _ => cases hc

/-! ## What the replies tell -/

/-- Behind a token that starts at `start`, the replies to calls are told by their
    turns. -/
inductive Answered : Position → List Call → List (Token × Position) → List (Answer Empty) → Prop
    where
  /-- No call is left. -/
  | done {start : Position} : Answered start [] [] []
  /-- A token, with its position. -/
  | next {start p : Position} {t : Token} {calls : List Call} {turns : List (Token × Position)}
      {replies : List (Answer Empty)} : Answered p calls turns replies →
      Answered start (.next :: calls) ((t, p) :: turns) (.token t p :: replies)
  /-- A token before the end of input. -/
  | found {start p : Position} {t : Token} {calls : List Call} {turns : List (Token × Position)}
      {replies : List (Answer Empty)} : t ≠ .endOfInput → Answered p calls turns replies →
      Answered start (.next? :: calls) ((t, p) :: turns) (.token? (some t) :: replies)
  /-- None at the end of input. -/
  | ended {start p : Position} {calls : List Call} {turns : List (Token × Position)}
      {replies : List (Answer Empty)} : Answered p calls turns replies →
      Answered start (.next? :: calls) ((.endOfInput, p) :: turns) (.token? none :: replies)
  /-- The position of the last token. -/
  | lexemeStart {start : Position} {calls : List Call} {turns : List (Token × Position)}
      {replies : List (Answer Empty)} : Answered start calls turns replies →
      Answered start (.lexemeStart :: calls) turns (.position start :: replies)
  /-- Nothing where the stream answers. -/
  | aside {start : Position} {c : Call} {calls : List Call} {turns : List (Token × Position)}
      {replies : List (Answer Empty)} : c.isOwn = false → Answered start calls turns replies →
      Answered start (c :: calls) turns replies

/-- **Every reply is told by the turns**, whatever is called in whatever order. -/
theorem answered_run (l : Lexer σ) (calls : List Call) :
    Answered l.lexemeStart calls (l.turns calls) (l.replies calls) := by
  induction calls generalizing l with
  | nil => exact .done
  | cons c calls ih =>
    rw [replies_cons, turns_cons]
    cases hown : c.isOwn with
    | false =>
      -- the lexer is left as it is, apart from its stream
      have hnone : c.forToken = false := by
        apply Bool.eq_false_iff.mpr
        intro htoken
        rw [Call.isOwn_of_forToken htoken] at hown
        cases hown
      obtain ⟨s, log, heq⟩ := answer_aside l hnone
      rw [own?_answer_of_not_isOwn l hown, hnone, heq]
      exact .aside hown (ih { l with stream := s, log := log })
    | true =>
      cases c with
      | next => exact .next (ih l.next.2)
      | lexemeStart => exact .lexemeStart (ih l)
      | next? =>
        have hreply : (l.answer .next?).1.own?
            = some (.token? (if l.next.1 = .endOfInput then none else some l.next.1)) := rfl
        rw [hreply]
        by_cases hend : l.next.1 = .endOfInput
        · rw [if_pos hend, hend]
          exact .ended (ih l.next.2)
        · rw [if_neg hend]
          exact .found hend (ih l.next.2)
      | _ => cases hown

/-! ## Runs -/

theorem run_cons (l : Lexer σ) (c : Call) (calls : List Call) :
    (l.run (c :: calls)).2 = ((l.answer c).2.run calls).2 := rfl

theorem turns_append (l : Lexer σ) (calls calls' : List Call) :
    l.turns (calls ++ calls') = l.turns calls ++ (l.run calls).2.turns calls' := by
  induction calls generalizing l with
  | nil => rfl
  | cons c calls ih =>
    rw [List.cons_append, turns_cons, turns_cons, ih, run_cons, List.append_assoc]

theorem reachable_run {l : Lexer σ} (h : Reachable l) (calls : List Call) :
    Reachable (l.run calls).2 := by
  induction calls generalizing l with
  | nil => exact h
  | cons c calls ih => exact ih (.call c h)

end answers

end FloatLang.Lexer
