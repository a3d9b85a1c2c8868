import FloatLang.Proofs.Lexer.Exchange
import FloatLang.Proofs.Stream.Interruptions

/-! # A Lexer over an Interrupted Reader

  Interrupted reads change nothing for whoever asks a reader, and so nothing for a lexer
  over it: neither tokens nor positions, errors, offsets or records.

  - **Answers** (`Answer.map`): those of a lexer over another stream that answers
    alike.
  - **Same course** (`SameCourse`): two lexers give the same answers and make the same
    records, the reader being shown by its offset.

  Main statement: `interruptions_unseen`.
-/

namespace FloatLang

namespace Lexer

variable {σ τ : Type}

/-! ## All answers -/

/-- The same answer about another stream. -/
def Answer.map (f : σ → τ) : Answer σ → Answer τ
  | .token t p => .token t p
  | .token? t? => .token? t?
  | .position p => .position p
  | .stream s => .stream (f s)
  | .char? c? => .char? c?
  | .error? e? => .error? e?

/-- From behind the back of a lexer its stream answers. -/
theorem answer_pullBehind [CharStream σ] (l : Lexer σ) :
    (l.answer .pullBehind).1 = .char? (pull l.stream).char? := by
  simp only [answer, pullBehind]
  cases pull l.stream <;> rfl

section map
variable [CharStream σ] [CharStream τ] {f : σ → τ} (hf : KeepsAnswers f)
include hf

/-- Over a stream that always answers alike every answer is the same, also those from
    behind the lexer's back. -/
theorem answer_map_all (l : Lexer σ) (c : Call) :
    (l.map f).answer c = ((l.answer c).1.map f, (l.answer c).2.map f) := by
  obtain ⟨-, -, hstate⟩ := answer_map hf (l := l) (c := c) trivial
  refine Prod.ext ?_ hstate
  cases c with
  | next =>
    obtain ⟨-, hnext⟩ := next_map hf (l := l) trivial
    show Answer.token (l.map f).next.1 (l.map f).next.2.lexemeStart = _
    rw [hnext]
    rfl
  | next? =>
    obtain ⟨-, hnext⟩ := next_map hf (l := l) trivial
    show Answer.token? (l.map f).next?.1 = _
    rw [next?, hnext]
    rfl
  | lexemeStart => rfl
  | stream => rfl
  | pullBehind =>
    show ((l.map f).answer .pullBehind).1 = (l.answer .pullBehind).1.map f
    rw [answer_pullBehind, answer_pullBehind]
    show Answer.char? (pull (f l.stream)).char? = .char? (pull l.stream).char?
    rw [(hf.pull_eq l.stream trivial).2, Pull.char?_map]
  | releaseError =>
    show Answer.error? (CharStream.releaseError (f l.stream)).1
      = .error? (CharStream.releaseError l.stream).1
    rw [(hf.releaseError_eq l.stream trivial).2]

/-- So are all answers of a run, and its records. -/
theorem run_map_all (l : Lexer σ) (calls : List Call) :
    (l.map f).run calls = ((l.run calls).1.map (Answer.map f), (l.run calls).2.map f) := by
  induction calls generalizing l with
  | nil => rfl
  | cons c calls ih =>
    rw [run, run, answer_map_all hf]
    show (_ :: (((l.answer c).2.map f).run calls).1, (((l.answer c).2.map f).run calls).2) = _
    rw [ih]
    rfl

end map

/-! ## Interruptions -/

/-- The lexers give the same answers to the calls and make the same records. A reader
    that is asked for is shown by the number of bytes that it has read. -/
structure SameCourse (l m : Lexer Utf8Reader) (calls : List Call) : Prop where
  /-- The same answers. -/
  answers : (l.run calls).1.map (Answer.map Utf8Reader.offset)
    = (m.run calls).1.map (Answer.map Utf8Reader.offset)
  /-- The same records. -/
  log : (l.run calls).2.log = (m.run calls).2.log

/-- A reader that is never interrupted any more takes the lexer the same course. -/
theorem sameCourse_calm (l : Lexer Utf8Reader) (calls : List Call) :
    SameCourse l (l.map Utf8Reader.calm) calls := by
  have hrun := run_map_all Utf8Reader.keepsAnswers_calm l calls
  constructor
  case answers =>
    -- interruptions do not count as bytes
    have hshown (a : Answer Utf8Reader) :
        (a.map Utf8Reader.calm).map Utf8Reader.offset = a.map Utf8Reader.offset := by
      cases a <;> rfl
    rw [hrun, List.map_map]
    exact (List.map_congr_left fun a _ => hshown a).symm
  case log =>
    rw [hrun]
    rfl

/-- Lexers over readers that differ in their interruptions only. -/
theorem sameCourse_of_interrupted {events events' : List ReadEvent}
    (h : Interrupted events events') (calls : List Call) :
    SameCourse (ofStream { events := events }) (ofStream { events := events' }) calls := by
  have hcalm : (ofStream ({ events := events } : Utf8Reader)).map Utf8Reader.calm
      = (ofStream ({ events := events' } : Utf8Reader)).map Utf8Reader.calm :=
    congrArg ofStream (Utf8Reader.calm_eq h)
  have hfirst := sameCourse_calm (ofStream { events := events }) calls
  have hsecond := sameCourse_calm (ofStream { events := events' }) calls
  rw [hcalm] at hfirst
  exact ⟨hfirst.answers.trans hsecond.answers.symm, hfirst.log.trans hsecond.log.symm⟩

/-- The same for the calls on a reader itself. -/
theorem answers_of_interrupted {events events' : List ReadEvent} (h : Interrupted events events')
    (calls : List Utf8Reader.Call) :
    (Utf8Reader.run { events := events } calls).1
      = (Utf8Reader.run { events := events' } calls).1 := by
  have hfirst := Utf8Reader.run_calm { events := events } calls
  have hsecond := Utf8Reader.run_calm { events := events' } calls
  rw [Utf8Reader.calm_eq h, hsecond] at hfirst
  exact (congrArg Prod.fst hfirst).symm

/-- **Interruptions are unseen**: wherever reads are interrupted, a reader answers its
    calls alike, and a lexer over it answers and records alike. This holds of endless
    readers as well, however many of their reads are looked at, if one has so many
    interruptions more than the other. -/
theorem interruptions_unseen :
    (∀ {events events' : List ReadEvent}, Interrupted events events' →
      (∀ calls, (Utf8Reader.run { events := events } calls).1
        = (Utf8Reader.run { events := events' } calls).1) ∧
      (∀ calls, SameCourse (ofStream { events := events }) (ofStream { events := events' })
        calls)) ∧
    (∀ {e e' : EndlessReader} {n n' : Nat}, Interrupted (e.first n) (e'.first n') →
      (∀ k, e.outcome (n + k) = e'.outcome (n' + k)) → ∀ k,
      (∀ calls, (Utf8Reader.run { events := e.first (n + k) } calls).1
        = (Utf8Reader.run { events := e'.first (n' + k) } calls).1) ∧
      (∀ calls, SameCourse (ofStream { events := e.first (n + k) })
        (ofStream { events := e'.first (n' + k) }) calls)) := by
  refine ⟨fun h => ⟨answers_of_interrupted h, sameCourse_of_interrupted h⟩, ?_⟩
  intro e e' n n' h hsame k
  have hfollowing : e'.following n' k = e.following n k :=
    (List.map_congr_left fun i _ => hsame i).symm
  have hinterrupted : Interrupted (e.first (n + k)) (e'.first (n' + k)) := by
    rw [EndlessReader.first_add, EndlessReader.first_add, hfollowing]
    exact h.append _
  exact ⟨answers_of_interrupted hinterrupted, sameCourse_of_interrupted hinterrupted⟩

/-- Interruptions within `é` and before a failure, and one before an operator that comes
    without end. -/
theorem interruptions_unseen_failure :
    ∃ (i f : ReadFailure) (events events' : List ReadEvent) (e e' : EndlessReader),
      i = { kind := .interrupted } ∧ f = { kind := .timedOut } ∧
      events = [.byte 0xc3, .byte 0xa9, .failure f] ∧
      events' = [.byte 0xc3, .failure i, .failure i, .byte 0xa9, .failure i, .failure f] ∧
      Interrupted events events' ∧
      (Utf8Reader.run { events := events' } [.next, .offset, .next, .releaseError]).1
        = [.char? (some 'é'), .offset 2, .char? none, .error? (some (.unreadable f 2))] ∧
      SameCourse (ofStream { events := events }) (ofStream { events := events' })
        [.next, .lexemeStart, .stream, .next, .releaseError] ∧
      (∀ k, e.outcome k = .byte 0x2b) ∧ e'.outcome 0 = .failure i ∧
      (∀ k, e'.outcome (k + 1) = .byte 0x2b) ∧
      ∀ k, SameCourse (ofStream { events := e.first k }) (ofStream { events := e'.first (k + 1) })
        [.next, .stream] := by
  obtain ⟨i, hi⟩ : ∃ i : ReadFailure, i = { kind := .interrupted } := ⟨_, rfl⟩
  obtain ⟨f, hf⟩ : ∃ f : ReadFailure, f = { kind := .timedOut } := ⟨_, rfl⟩
  have hinterruption : (ReadEvent.failure i).isInterruption = true := by
    rw [hi]
    rfl
  have hevents : Interrupted [.byte 0xc3, .byte 0xa9, .failure f]
      [.byte 0xc3, .failure i, .failure i, .byte 0xa9, .failure i, .failure f] :=
    .outcome _ (.interruption hinterruption (.interruption hinterruption
      (.outcome _ (.interruption hinterruption (.outcome _ .nil)))))
  obtain ⟨e, he⟩ : ∃ e : EndlessReader, ∀ k, e.outcome k = .byte 0x2b :=
    ⟨⟨fun _ => .byte 0x2b, fun n => ⟨n, Nat.le_refl n, rfl⟩⟩, fun _ => rfl⟩
  obtain ⟨e', hfirst, hothers⟩ : ∃ e' : EndlessReader,
      e'.outcome 0 = .failure i ∧ ∀ k, e'.outcome (k + 1) = .byte 0x2b :=
    ⟨⟨fun k => if k = 0 then .failure i else .byte 0x2b, fun n => ⟨n + 1, Nat.le_succ n, rfl⟩⟩,
      rfl, fun _ => rfl⟩
  have hendless : Interrupted (e.first 0) (e'.first 1) := by
    have hone : e'.first 1 = [e'.outcome 0] := rfl
    rw [hone, hfirst]
    exact .interruption hinterruption .nil
  have hsame : ∀ k, e.outcome (0 + k) = e'.outcome (1 + k) := by
    intro k
    rw [he, Nat.add_comm 1 k, hothers]
  obtain ⟨hanswers, hcourse⟩ := interruptions_unseen.1 hevents
  refine ⟨i, f, _, _, e, e', hi, hf, rfl, rfl, hevents, ?_, hcourse _, he, hfirst, hothers, ?_⟩
  · rw [← hanswers, hf]
    decide +kernel
  · intro k
    have hcourse' := (interruptions_unseen.2 hendless hsame k).2 [.next, .stream]
    rwa [Nat.zero_add, Nat.add_comm 1 k] at hcourse'

end Lexer

end FloatLang
