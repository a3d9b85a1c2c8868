import FloatLang.Stream.Error

/-! # Character Streams

  A lexer pulls its characters from a stream, one at a time, and never gives
  one back. All that it can ask is `pull`.

  A stream may answer that it has ended and deliver characters later all the
  same; its users decide whether to ask again. What a stream may not do is
  deliver without end: `remaining` bounds the characters still to come, and
  every delivery lowers it. This is what makes reading to the end total.

  - `List Char`: the characters of a text.
  - `Script`: prepared answers, which counts how often it was asked.
  - `Utf8Reader` (in its own module): decodes the bytes of a reader.

  Core Lean only; no Mathlib.
-/

namespace FloatLang

/-- The answer to a pull, with the stream as it is left. -/
inductive Pull (σ : Type) where
  /-- The next character. -/
  | delivered (character : Char) (stream : σ)
  /-- No character. Where this pull met an error, the error comes along. -/
  | ended (stream : σ) (error? : Option StreamError)

namespace Pull

variable {σ : Type}

/-- The character delivered, if any. -/
def char? : Pull σ → Option Char
  | .delivered c _ => some c
  | .ended _ _ => none

/-- The stream after the pull. -/
def stream : Pull σ → σ
  | .delivered _ s => s
  | .ended s _ => s

/-- The error that the pull met, if any. -/
def error? : Pull σ → Option StreamError
  | .delivered _ _ => none
  | .ended _ e => e

end Pull

/-- An ordered stream of characters. -/
class CharStream (σ : Type) where
  /-- Asks for the next character. -/
  pull : σ → Pull σ
  /-- Hands over the error that ended the stream, if one is held. -/
  releaseError : σ → Option StreamError × σ := fun s => (none, s)
  /-- A bound on the characters still to come. -/
  remaining : σ → Nat
  /-- Every delivery lowers the bound. -/
  remaining_lt : ∀ {s c s'}, pull s = .delivered c s' → remaining s' < remaining s

export CharStream (pull releaseError remaining remaining_lt)

/-! ## Reading to the end -/

/-- What comes of reading a stream until it answers that it has ended. -/
structure Drained (σ : Type) where
  /-- The characters delivered, in order. -/
  text : List Char
  /-- The stream after the last pull. -/
  stream : σ
  /-- The error that the last pull met, if any. -/
  error? : Option StreamError

/-- Pulls until the stream answers that it has ended. -/
def drain {σ : Type} [CharStream σ] (s : σ) : Drained σ :=
  match _ : pull s with
  | .delivered c s' =>
    let rest := drain s'
    { rest with text := c :: rest.text }
  | .ended s' error? => { text := [], stream := s', error? := error? }
termination_by remaining s
decreasing_by exact remaining_lt (by assumption)

section drain
variable {σ : Type} [CharStream σ] {s s' : σ}

theorem drain_of_delivered {c : Char} (h : pull s = .delivered c s') :
    drain s = { drain s' with text := c :: (drain s').text } := by
  rw [drain]
  split
  · next d t hpull =>
    rw [h] at hpull
    cases hpull
    rfl
  · next t e hpull =>
    rw [h] at hpull
    cases hpull

theorem drain_of_ended {error? : Option StreamError} (h : pull s = .ended s' error?) :
    drain s = { text := [], stream := s', error? := error? } := by
  rw [drain]
  split
  · next d t hpull =>
    rw [h] at hpull
    cases hpull
  · next t e hpull =>
    rw [h] at hpull
    cases hpull
    rfl

end drain

/-- The stream delivers the characters one after the other, and is left as it
    is after the last of them. -/
inductive Delivers {σ : Type} [CharStream σ] : σ → List Char → σ → Prop where
  /-- Nothing is asked of the stream. -/
  | nil {s : σ} : Delivers s [] s
  /-- The stream is asked once more. -/
  | cons {s s' s'' : σ} {c : Char} {cs : List Char} :
      pull s = .delivered c s' → Delivers s' cs s'' → Delivers s (c :: cs) s''

/-! ## The characters of a text -/

/-- A list of characters delivers them in order. -/
instance : CharStream (List Char) where
  pull
    | [] => .ended [] none
    | c :: rest => .delivered c rest
  remaining := List.length
  remaining_lt {s c s'} h := by
    cases s with
    | nil => cases h
    | cons d rest =>
      cases h
      exact Nat.lt_succ_self _

@[simp] theorem pull_nil : pull ([] : List Char) = .ended [] none := rfl

@[simp] theorem pull_cons (c : Char) (rest : List Char) :
    pull (c :: rest) = .delivered c rest := rfl

/-- Reading a list to its end gives the list. -/
@[simp] theorem drain_list (cs : List Char) :
    drain cs = { text := cs, stream := [], error? := none } := by
  induction cs with
  | nil => exact drain_of_ended pull_nil
  | cons c rest ih => rw [drain_of_delivered (pull_cons c rest), ih]

/-! ## Prepared answers -/

/-- A stream that gives prepared answers. After the last of them it has ended
    for good; an end among them does not last. -/
structure Script where
  /-- The answers to come: a character, or an end of input. -/
  answers : List (Option Char)
  /-- How often the stream was asked. -/
  asked : Nat := 0
  deriving DecidableEq, Inhabited

namespace Script

/-- Gives the next answer. -/
def answer (s : Script) : Pull Script :=
  match s.answers with
  | some c :: rest => .delivered c { answers := rest, asked := s.asked + 1 }
  | none :: rest => .ended { answers := rest, asked := s.asked + 1 } none
  | [] => .ended { answers := [], asked := s.asked + 1 } none

instance : CharStream Script where
  pull := answer
  remaining s := s.answers.length
  remaining_lt {s c s'} h := by
    obtain ⟨answers, asked⟩ := s
    match answers with
    | [] => cases h
    | none :: rest => cases h
    | some d :: rest =>
      cases h
      exact Nat.lt_succ_self _

end Script

end FloatLang
