import FloatLang.Stream.Basic

/-! # Watched Streams

  A stream that keeps a record of its answers. Put in the place of a stream it
  changes nothing for whoever asks, and shows afterwards what was asked.

  - **Same answers** (`KeepsAnswers f`): `f` leads from one stream to another that
    cannot be told from it by pulling. `KeepsAnswersOn P f`: as long as `P` holds.
  - **Watched** (`Watched σ`): a stream with the answers that it has given.
-/

namespace FloatLang

variable {σ τ : Type}

/-! ## Streams that answer alike -/

/-- The same answer, with another stream left behind. -/
def Pull.map (f : σ → τ) : Pull σ → Pull τ
  | .delivered c s => .delivered c (f s)
  | .ended s error? => .ended (f s) error?

@[simp] theorem Pull.stream_map (f : σ → τ) (p : Pull σ) : (p.map f).stream = f p.stream := by
  cases p <;> rfl

@[simp] theorem Pull.char?_map (f : σ → τ) (p : Pull σ) : (p.map f).char? = p.char? := by
  cases p <;> rfl

/-- The stream that `f` leads to answers alike as long as `P` holds: where it holds
    behind a question it did before, and the answer was the same. -/
structure KeepsAnswersOn [CharStream σ] [CharStream τ] (P : σ → Prop) (f : σ → τ) : Prop where
  /-- The same characters come. -/
  pull_eq : ∀ s, P (pull s).stream → P s ∧ pull (f s) = (pull s).map f
  /-- The same error is held. -/
  releaseError_eq : ∀ s, P (releaseError s).2 →
    P s ∧ releaseError (f s) = ((releaseError s).1, f (releaseError s).2)

/-- The stream that `f` leads to always answers alike. -/
def KeepsAnswers [CharStream σ] [CharStream τ] (f : σ → τ) : Prop :=
  KeepsAnswersOn (fun _ => True) f

/-- Streams that answer alike deliver the same text. -/
theorem KeepsAnswers.drain_text [CharStream σ] [CharStream τ] {f : σ → τ}
    (hf : KeepsAnswers f) (s : σ) : (drain (f s)).text = (drain s).text := by
  fun_induction drain s with
  | case1 s c s' hpull rest ih =>
    have hdelivered : pull (f s) = .delivered c (f s') := by
      rw [(hf.pull_eq s trivial).2, hpull, Pull.map]
    rw [drain_of_delivered hdelivered, ih]
  | case2 s s' error? hpull =>
    have hended : pull (f s) = .ended (f s') error? := by
      rw [(hf.pull_eq s trivial).2, hpull, Pull.map]
    rw [drain_of_ended hended]

/-! ## The record -/

/-- A stream with the answers that it has given since it is watched. -/
structure Watched (σ : Type) where
  /-- The stream. -/
  stream : σ
  /-- Its answers in order: a character, or none where the stream had ended. -/
  answers : List (Option Char)

namespace Watched
variable [CharStream σ]

/-- Passes the question on, and makes a record of the answer. -/
def ask (w : Watched σ) : Pull (Watched σ) :=
  (pull w.stream).map fun s => ⟨s, w.answers ++ [(pull w.stream).char?]⟩

instance : CharStream (Watched σ) where
  pull := ask
  releaseError w :=
    let (error?, s) := CharStream.releaseError w.stream
    (error?, { w with stream := s })
  remaining w := remaining w.stream
  remaining_lt {w c w'} h := by
    unfold ask at h
    cases hpull : pull w.stream with
    | delivered d s =>
      rw [hpull] at h
      cases h
      exact remaining_lt hpull
    | ended s error? =>
      rw [hpull] at h
      cases h

/-- The stream that `f` leads to, with the same record. -/
def map (f : σ → τ) (w : Watched σ) : Watched τ :=
  ⟨f w.stream, w.answers⟩

/-- Being watched changes no answer. -/
theorem keepsAnswers_stream : KeepsAnswers (Watched.stream : Watched σ → σ) := by
  constructor
  case pull_eq =>
    intro w _
    refine ⟨trivial, ?_⟩
    show pull w.stream = (ask w).map Watched.stream
    unfold ask
    cases pull w.stream <;> rfl
  case releaseError_eq => exact fun _ _ => ⟨trivial, rfl⟩

/-- Streams that answer alike do so under watch, and leave the same record. -/
theorem keepsAnswersOn_map [CharStream τ] {P : σ → Prop} {f : σ → τ} (hf : KeepsAnswersOn P f) :
    KeepsAnswersOn (fun w => P w.stream) (Watched.map f) := by
  constructor
  case pull_eq =>
    intro w h
    have hstream : (pull w).stream.stream = (pull w.stream).stream := by
      show (ask w).stream.stream = _
      rw [ask, Pull.stream_map]
    rw [hstream] at h
    obtain ⟨hP, hpull⟩ := hf.pull_eq w.stream h
    refine ⟨hP, ?_⟩
    show ask (w.map f) = (ask w).map (Watched.map f)
    unfold ask
    rw [show pull (w.map f).stream = _ from hpull]
    cases pull w.stream <;> rfl
  case releaseError_eq =>
    intro w h
    obtain ⟨hP, hrelease⟩ := hf.releaseError_eq w.stream h
    refine ⟨hP, ?_⟩
    show ((releaseError (f w.stream)).1, (⟨(releaseError (f w.stream)).2, _⟩ : Watched τ)) = _
    rw [hrelease]
    rfl

/-- Every answer is put on record. -/
theorem answers_of_pull (w : Watched σ) :
    (pull w).stream.answers = w.answers ++ [(pull w).char?] := by
  show (ask w).stream.answers = w.answers ++ [(ask w).char?]
  unfold ask
  rw [Pull.stream_map, Pull.char?_map]

/-- Every character on the way is on record. -/
theorem answers_of_delivers {w w' : Watched σ} {cs : List Char} (h : Delivers w cs w') :
    w'.answers = w.answers ++ cs.map some := by
  induction h with
  | nil => rw [List.map_nil, List.append_nil]
  | @cons w w' _ c cs hpull _ ih =>
    have hrecord := answers_of_pull w
    rw [hpull] at hrecord
    rw [ih, show w'.answers = w.answers ++ [some c] from hrecord, List.append_assoc]
    rfl

end Watched

end FloatLang
