import FloatLang.Proofs.Stream.Watched

/-! # Streams without an End

  A stream may go on for ever, such as one character again and again. Whoever reads
  it to its end waits for ever; but whoever stops has been given so many answers and
  no more.

  - **Open** (`OpenStream`): a stream that may have no end, or go on behind it.
  - **Rationed** (`Rationed τ`): an open stream that is cut off when it has given a
    number of answers. It is a character stream.

  Main statement: `Rationed.keepsAnswersOn_more`, a larger ration changes nothing as
  long as the smaller one lasts.
-/

namespace FloatLang

/-- A stream of characters that may have no end. -/
class OpenStream (τ : Type) where
  /-- Asks for the next character. -/
  ask : τ → Pull τ
  /-- Hands over the error that the stream holds, if any. -/
  surrender : τ → Option StreamError × τ := fun s => (none, s)

/-- A stream that gives the answers of a sequence one after the other. -/
structure AnswerSequence where
  /-- The answers, counted from zero: a character, or an end of input. -/
  answer : Nat → Option Char
  /-- How often the stream was asked. -/
  asked : Nat := 0

instance : OpenStream AnswerSequence where
  ask s :=
    match s.answer s.asked with
    | some c => .delivered c { s with asked := s.asked + 1 }
    | none => .ended { s with asked := s.asked + 1 } none

/-- `EndsAfter s text`: the stream delivers `text`, and then answers for the first
    time that it has ended. What it answers later is open. -/
inductive EndsAfter {τ : Type} [OpenStream τ] : τ → List Char → Prop where
  /-- It has ended. -/
  | ended {s s' : τ} {error? : Option StreamError} :
      OpenStream.ask s = .ended s' error? → EndsAfter s []
  /-- It delivers a character. -/
  | delivered {s s' : τ} {c : Char} {text : List Char} :
      OpenStream.ask s = .delivered c s' → EndsAfter s' text → EndsAfter s (c :: text)

/-- An open stream that is cut off some time. -/
structure Rationed (τ : Type) where
  /-- The stream. -/
  stream : τ
  /-- How many answers it still gives. -/
  ration : Nat

namespace Rationed

variable {τ : Type} [OpenStream τ]

/-- Passes the question on as long as the ration lasts. -/
def ask (r : Rationed τ) : Pull (Rationed τ) :=
  match r.ration with
  | 0 => .ended r none
  | n + 1 => (OpenStream.ask r.stream).map fun s => ⟨s, n⟩

instance : CharStream (Rationed τ) where
  pull := ask
  releaseError r :=
    let (error?, s) := OpenStream.surrender r.stream
    (error?, { r with stream := s })
  remaining := ration
  remaining_lt {r c r'} h := by
    obtain ⟨s, ration⟩ := r
    cases ration with
    | zero => cases h
    | succ n =>
      change (OpenStream.ask s).map _ = _ at h
      cases hask : OpenStream.ask s with
      | delivered d s' =>
        rw [hask] at h
        cases h
        exact Nat.lt_succ_self n
      | ended s' error? =>
        rw [hask] at h
        cases h

/-- As long as the ration lasts the stream itself is asked. -/
theorem pull_succ (s : τ) (n : Nat) :
    pull (⟨s, n + 1⟩ : Rationed τ) = (OpenStream.ask s).map fun s => ⟨s, n⟩ := rfl

/-- With one answer more than there are characters the first end is reached. -/
theorem drain_text_of_endsAfter {s : τ} {text : List Char} (h : EndsAfter s text) {n : Nat}
    (hn : text.length < n) : (drain (⟨s, n⟩ : Rationed τ)).text = text := by
  induction h generalizing n with
  | @ended s s' error? hask =>
    obtain ⟨n, rfl⟩ := Nat.exists_eq_add_one_of_ne_zero (Nat.ne_zero_of_lt hn)
    have hpull := pull_succ s n
    rw [hask, Pull.map] at hpull
    rw [drain_of_ended hpull]
  | @delivered s s' c text hask _ ih =>
    obtain ⟨n, rfl⟩ := Nat.exists_eq_add_one_of_ne_zero (Nat.ne_zero_of_lt hn)
    have hpull := pull_succ s n
    rw [hask, Pull.map] at hpull
    rw [drain_of_delivered hpull, ih (Nat.lt_of_succ_lt_succ hn)]

/-- What is delivered comes before the first end, and the rest up to it is still to
    come. -/
theorem endsAfter_of_delivers {r r' : Rationed τ} {cs text : List Char} (hd : Delivers r cs r')
    (h : EndsAfter r.stream text) (hn : text.length < r.ration) :
    ∃ rest, text = cs ++ rest ∧ EndsAfter r'.stream rest ∧ rest.length < r'.ration := by
  induction hd generalizing text with
  | nil => exact ⟨text, rfl, h, hn⟩
  | @cons r r₁ r' c cs hpull _ ih =>
    obtain ⟨s, ration⟩ := r
    obtain ⟨n, rfl⟩ := Nat.exists_eq_add_one_of_ne_zero (Nat.ne_zero_of_lt hn)
    rw [pull_succ] at hpull
    cases h with
    | ended hask =>
      rw [hask] at hpull
      cases hpull
    | delivered hask hends =>
      rw [hask] at hpull
      cases hpull
      obtain ⟨rest, hrest, hbehind⟩ := ih hends (Nat.lt_of_succ_lt_succ hn)
      exact ⟨rest, congrArg (c :: ·) hrest, hbehind⟩

/-- The same stream with `k` answers more. -/
def more (k : Nat) (r : Rationed τ) : Rationed τ :=
  { r with ration := r.ration + k }

/-- **A larger ration** changes nothing as long as the smaller one lasts. -/
theorem keepsAnswersOn_more (k : Nat) :
    KeepsAnswersOn (fun r => 0 < r.ration) (more k : Rationed τ → Rationed τ) := by
  constructor
  case pull_eq =>
    rintro ⟨s, ration⟩ h
    cases ration with
    | zero => exact absurd h (Nat.lt_irrefl 0)
    | succ n =>
      refine ⟨Nat.succ_pos n, ?_⟩
      have hmore : more k (⟨s, n + 1⟩ : Rationed τ) = ⟨s, n + k + 1⟩ :=
        congrArg (Rationed.mk s) (Nat.succ_add n k)
      rw [hmore]
      show (OpenStream.ask s).map _ = ((OpenStream.ask s).map _).map (more k)
      cases OpenStream.ask s <;> rfl
  case releaseError_eq => exact fun r h => ⟨h, rfl⟩

end Rationed

end FloatLang
