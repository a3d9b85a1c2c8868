import FloatLang.Proofs.Stream.Calls
import FloatLang.Proofs.Stream.Watched

/-! # Interrupted Reads

  A read that is cut short by a signal is tried again. Nobody who asks a reader can
  tell that it happened, wherever it happened.

  - **Interrupted** (`Interrupted events events'`): the same outcomes with interruptions
    in between.
  - **Calm** (`calm`): the reader that is never interrupted any more. It answers as the
    reader does (`keepsAnswers_calm`), call after call (`run_calm`).
-/

namespace FloatLang

/-! ## Outcomes -/

/-- The second outcomes are the first with interruptions in between, before them or
    behind them. -/
inductive Interrupted : List ReadEvent → List ReadEvent → Prop where
  /-- No outcomes at all. -/
  | nil : Interrupted [] []
  /-- The same outcome. -/
  | outcome {events events' : List ReadEvent} (e : ReadEvent) :
      Interrupted events events' → Interrupted (e :: events) (e :: events')
  /-- An interruption comes in between. -/
  | interruption {events events' : List ReadEvent} {e : ReadEvent} :
      e.isInterruption = true → Interrupted events events' → Interrupted events (e :: events')

/-- The outcomes that are no interruptions. -/
def uninterrupted (events : List ReadEvent) : List ReadEvent :=
  events.filter fun e => !e.isInterruption

/-- Apart from the interruptions the outcomes are the same. -/
theorem Interrupted.uninterrupted_eq {events events' : List ReadEvent}
    (h : Interrupted events events') : uninterrupted events = uninterrupted events' := by
  induction h with
  | nil => rfl
  | outcome e _ ih =>
    unfold uninterrupted at ih ⊢
    rw [List.filter_cons, List.filter_cons, ih]
  | interruption hinterruption _ ih =>
    rw [ih]
    exact (List.filter_cons_of_neg (by simp [hinterruption])).symm

/-- More of the same outcomes may follow. -/
theorem Interrupted.append {events events' : List ReadEvent} (h : Interrupted events events')
    (more : List ReadEvent) : Interrupted (events ++ more) (events' ++ more) := by
  induction h with
  | nil =>
    induction more with
    | nil => exact .nil
    | cons e more ih => exact .outcome e ih
  | outcome e _ ih => exact .outcome e ih
  | interruption hinterruption _ ih => exact .interruption hinterruption ih

namespace Utf8Reader

/-! ## Reads -/

/-- The reader that is never interrupted any more. -/
def calm (r : Utf8Reader) : Utf8Reader :=
  { r with events := uninterrupted r.events }

/-- The next outcome is no interruption, so it is there with and without them. -/
theorem nextEvent_uninterrupted (events : List ReadEvent) :
    nextEvent (uninterrupted events)
      = ((nextEvent events).1, uninterrupted (nextEvent events).2) := by
  have hkept {e : ReadEvent} (h : e.isInterruption = false) (rest : List ReadEvent) :
      uninterrupted (e :: rest) = e :: uninterrupted rest :=
    List.filter_cons_of_pos (by simp [h])
  fun_induction nextEvent events with
  | case1 => rfl
  | case2 f rest hinterrupted ih =>
    have hdropped : uninterrupted (.failure f :: rest) = uninterrupted rest :=
      List.filter_cons_of_neg (by simp [ReadEvent.isInterruption, hinterrupted])
    rw [hdropped, ih]
  | case3 f rest hfailed =>
    rw [hkept (by simp [ReadEvent.isInterruption, hfailed]), nextEvent, if_neg hfailed]
  | case4 event rest hevent =>
    cases event with
    | byte b => rw [hkept rfl]; rfl
    | endOfFile => rw [hkept rfl]; rfl
    | failure f => exact absurd rfl (hevent f)

theorem read_calm (r : Utf8Reader) : r.calm.read = (r.read.1, r.read.2.calm) := by
  rw [read_eq, read_eq]
  show (_, _) = _
  rw [calm, nextEvent_uninterrupted]
  rfl

theorem complete_calm (r : Utf8Reader) (start : Nat) (bytes : List UInt8) (missing : Nat) :
    r.calm.complete start bytes missing
      = ((r.complete start bytes missing).1, (r.complete start bytes missing).2.calm) := by
  induction missing generalizing r bytes with
  | zero => rfl
  | succ missing ih =>
    rw [complete, complete, read_calm]
    obtain ⟨event, r'⟩ := r.read
    cases event with
    | byte b => exact ih r' (bytes ++ [b])
    | endOfFile => rfl
    | failure f => rfl

theorem readChar_calm (r : Utf8Reader) :
    r.calm.readChar = (r.readChar.1, r.readChar.2.calm) := by
  have hcalm := read_calm r
  have hoffset : r.calm.offset = r.offset := rfl
  obtain ⟨event, r', hread⟩ : ∃ event r', r.read = (event, r') := ⟨_, _, rfl⟩
  rw [hread] at hcalm
  cases event with
  | endOfFile => simp only [readChar, hread, hcalm]
  | failure f => simp only [readChar, hread, hcalm, hoffset]
  | byte first =>
    cases hwidth : Utf8.announcedWidth first with
    | none => simp only [readChar, hread, hcalm, hwidth, hoffset]
    | some width =>
      -- the bytes read so far and their start stay as they are
      have hcomplete := complete_calm r' r.offset [first] (width - 1)
      obtain ⟨result, r'', hresult⟩ :
          ∃ result r'', r'.complete r.offset [first] (width - 1) = (result, r'') := ⟨_, _, rfl⟩
      rw [hresult] at hcomplete
      cases result with
      | error e => simp only [readChar, hread, hcalm, hwidth, hoffset, hresult, hcomplete]
      | ok bytes =>
        cases hdecode : Utf8.decodeChar? bytes <;>
          simp only [readChar, hread, hcalm, hwidth, hoffset, hresult, hcomplete, hdecode]

/-! ## Pulls -/

theorem next_calm (r : Utf8Reader) : r.calm.next = r.next.map calm := by
  by_cases hclosed : r.closed = true
  · rw [next_of_closed hclosed, next_of_closed (r := r.calm) hclosed]
    rfl
  · have hopen : ¬ r.calm.closed = true := hclosed
    rw [next, next, if_neg hclosed, if_neg hopen, readChar_calm]
    obtain ⟨result, r'⟩ := r.readChar
    cases result with
    | error e => rfl
    | ok c? => cases c? <;> rfl

/-- **A calm reader answers alike.** -/
theorem keepsAnswers_calm : KeepsAnswers calm where
  pull_eq r _ := ⟨trivial, next_calm r⟩
  releaseError_eq _ _ := ⟨trivial, rfl⟩

theorem answer_calm (r : Utf8Reader) (call : Call) :
    r.calm.answer call = ((r.answer call).1, (r.answer call).2.calm) := by
  cases call with
  | next => rw [answer_next, answer_next, next_calm, Pull.char?_map, Pull.stream_map]
  | offset => rfl
  | releaseError => rfl

/-- So it does call after call. -/
theorem run_calm (r : Utf8Reader) (calls : List Call) :
    r.calm.run calls = ((r.run calls).1, (r.run calls).2.calm) := by
  induction calls generalizing r with
  | nil => rfl
  | cons call calls ih => rw [run_cons, run_cons, answer_calm, ih]

/-- Readers that differ in their interruptions only are one calm reader. -/
theorem calm_eq {events events' : List ReadEvent} (h : Interrupted events events') :
    calm { events := events } = calm { events := events' } := by
  unfold calm
  rw [h.uninterrupted_eq]

end Utf8Reader

end FloatLang
