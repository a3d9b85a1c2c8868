import FloatLang.Stream.Utf8Reader

/-! # Calls on a Reader

  Whatever can be asked of a UTF-8 reader, in any order, and how many of its reads
  that takes.

  - **Attempts** (`attempts`): the reads that are not cut short by a signal. A call
    takes four of them at most, whatever they bring.
  - **Endless** (`EndlessReader`): a reader whose reads never come to an end. It may
    be interrupted, but not for ever.

  Main statements: `run_within`, outcomes behind those that a run may take change
  nothing, and from it `EndlessReader.exists_run_first`, a run on an endless reader
  is a run on its first reads.
-/

namespace FloatLang

/-! ## Outcomes -/

namespace ReadEvent

/-- The byte that was read, if any. -/
def byte? : ReadEvent → Option UInt8
  | .byte b => some b
  | .endOfFile | .failure _ => none

/-- Whether the read was cut short by a signal, to be tried again. -/
def isInterruption : ReadEvent → Bool
  | .failure f => f.kind = .interrupted
  | .byte _ | .endOfFile => false

end ReadEvent

/-- How many of the reads are not interrupted. -/
def attempts (events : List ReadEvent) : Nat :=
  events.countP fun e => !e.isInterruption

@[simp] theorem attempts_nil : attempts [] = 0 := rfl

theorem attempts_append (a b : List ReadEvent) : attempts (a ++ b) = attempts a + attempts b :=
  List.countP_append

theorem attempts_cons_of_interruption {e : ReadEvent} (h : e.isInterruption = true)
    (events : List ReadEvent) : attempts (e :: events) = attempts events := by
  unfold attempts
  rw [List.countP_cons_of_neg (by simp [h])]

theorem attempts_cons_of_not_interruption {e : ReadEvent} (h : e.isInterruption = false)
    (events : List ReadEvent) : attempts (e :: events) = attempts events + 1 := by
  unfold attempts
  rw [List.countP_cons_of_pos (by simp [h])]

namespace Utf8Reader

/-! ## Calls -/

/-- What can be asked of a reader. -/
inductive Call where
  /-- The next character. -/
  | next
  /-- The number of bytes read so far. -/
  | offset
  /-- The error that the reader holds. -/
  | releaseError
  deriving DecidableEq, Repr, Inhabited

/-- The answer to a call. -/
inductive Answer where
  /-- A character, or none where the stream has ended. -/
  | char? (answer : Option Char)
  /-- A number of bytes. -/
  | offset (answer : Nat)
  /-- An error, or none where the reader holds none. -/
  | error? (answer : Option StreamError)
  deriving DecidableEq, Inhabited

/-- Answers a call. -/
def answer (r : Utf8Reader) : Call → Answer × Utf8Reader
  | .next => (.char? r.next.char?, r.next.stream)
  | .offset => (.offset r.offset, r)
  | .releaseError => (.error? (CharStream.releaseError r).1, (CharStream.releaseError r).2)

/-- Answers calls one after the other. -/
def run (r : Utf8Reader) : List Call → List Answer × Utf8Reader
  | [] => ([], r)
  | call :: calls =>
    let (first, r') := r.answer call
    let (rest, r'') := r'.run calls
    (first :: rest, r'')

theorem answer_next (r : Utf8Reader) :
    r.answer .next = (.char? r.next.char?, r.next.stream) := rfl

theorem run_cons (r : Utf8Reader) (call : Call) (calls : List Call) :
    r.run (call :: calls)
      = ((r.answer call).1 :: ((r.answer call).2.run calls).1, ((r.answer call).2.run calls).2) :=
  rfl

/-! ## Outcomes that are not needed yet -/

theorem extend_nil (r : Utf8Reader) : r.extend [] = r := by
  rw [extend, List.append_nil]

theorem extend_offset (r : Utf8Reader) (more : List ReadEvent) :
    (r.extend more).offset = r.offset := rfl

/-- `f` answers `a` and leaves `r'`, whatever outcomes stand behind those to come,
    and takes no more than `k` attempts. -/
structure Within {α : Type} (k : Nat) (f : Utf8Reader → α × Utf8Reader) (r : Utf8Reader) (a : α)
    (r' : Utf8Reader) : Prop where
  /-- Further outcomes are left where they are. -/
  extended : ∀ more, f (r.extend more) = (a, r'.extend more)
  /-- So many attempts are used up. -/
  attempts_le : attempts r.events ≤ attempts r'.events + k

theorem Within.answers {α : Type} {k : Nat} {f : Utf8Reader → α × Utf8Reader}
    {r r' : Utf8Reader} {a : α} (h : Within k f r a r') : f r = (a, r') := by
  have hnil := h.extended []
  rwa [extend_nil, extend_nil] at hnil

variable {r : Utf8Reader}

theorem nextEvent_append {events : List ReadEvent} (h : 0 < attempts events) :
    (∀ more, nextEvent (events ++ more) = ((nextEvent events).1, (nextEvent events).2 ++ more)) ∧
      attempts events = attempts (nextEvent events).2 + 1 := by
  fun_induction nextEvent events with
  | case1 => exact absurd h (Nat.lt_irrefl 0)
  | case2 f rest hinterrupted ih =>
    have hattempt : (ReadEvent.failure f).isInterruption = true := by
      simp [ReadEvent.isInterruption, hinterrupted]
    rw [attempts_cons_of_interruption hattempt] at h ⊢
    obtain ⟨happend, hrest⟩ := ih h
    refine ⟨?_, hrest⟩
    intro more
    rw [List.cons_append, nextEvent, if_pos hinterrupted, happend]
  | case3 f rest hfailed =>
    have hattempt : (ReadEvent.failure f).isInterruption = false := by
      simp [ReadEvent.isInterruption, hfailed]
    refine ⟨?_, attempts_cons_of_not_interruption hattempt rest⟩
    intro more
    rw [List.cons_append, nextEvent, if_neg hfailed]
  | case4 event rest hevent =>
    cases event with
    | byte b => exact ⟨fun _ => rfl, attempts_cons_of_not_interruption rfl rest⟩
    | endOfFile => exact ⟨fun _ => rfl, attempts_cons_of_not_interruption rfl rest⟩
    | failure f => exact absurd rfl (hevent f)

/-- One read counts its byte, if it brings one. -/
theorem read_eq (r : Utf8Reader) :
    r.read = ((nextEvent r.events).1, { r with
      events := (nextEvent r.events).2
      offset := r.offset + (nextEvent r.events).1.byte?.toList.length }) := by
  unfold read
  obtain ⟨event, rest⟩ := nextEvent r.events
  cases event <;> rfl

theorem read_within (h : 0 < attempts r.events) : ∃ event r', Within 1 read r event r' := by
  obtain ⟨happend, hattempts⟩ := nextEvent_append h
  refine ⟨r.read.1, r.read.2, ?_, ?_⟩
  case refine_1 =>
    intro more
    rw [read_eq, read_eq, extend, happend]
    rfl
  case refine_2 =>
    rw [read_eq]
    exact Nat.le_of_eq hattempts

theorem complete_within {missing : Nat} (h : missing ≤ attempts r.events) (start : Nat)
    (bytes : List UInt8) :
    ∃ result r', Within missing (fun r => r.complete start bytes missing) r result r' := by
  induction missing generalizing r bytes with
  | zero => exact ⟨.ok bytes, r, fun _ => rfl, Nat.le_refl _⟩
  | succ missing ih =>
    obtain ⟨event, r', hread, hle⟩ := read_within (Nat.zero_lt_of_lt h)
    cases event with
    | byte b =>
      obtain ⟨result, r'', hcomplete, hle'⟩ := ih (r := r') (by omega) (bytes ++ [b])
      refine ⟨result, r'', ?_, by omega⟩
      intro more
      simp only [complete, hread, hcomplete]
    | endOfFile =>
      refine ⟨.error (.malformed bytes start), r', ?_, by omega⟩
      intro more
      simp only [complete, hread]
    | failure f =>
      refine ⟨.error (.unreadable f r.offset), r', ?_, by omega⟩
      intro more
      simp only [complete, hread, extend_offset]

theorem readChar_within (h : 4 ≤ attempts r.events) :
    ∃ result r', Within 4 readChar r result r' := by
  obtain ⟨event, r', hread, hle⟩ := read_within (Nat.zero_lt_of_lt h)
  cases event with
  | endOfFile =>
    refine ⟨.ok none, r', ?_, by omega⟩
    intro more
    simp only [readChar, hread]
  | failure f =>
    refine ⟨.error (.unreadable f r.offset), r', ?_, by omega⟩
    intro more
    simp only [readChar, hread, extend_offset]
  | byte first =>
    cases hwidth : Utf8.announcedWidth first with
    | none =>
      refine ⟨.error (.malformed [first] r.offset), r', ?_, by omega⟩
      intro more
      simp only [readChar, hread, hwidth, extend_offset]
    | some width =>
      -- a sequence has four bytes at most
      have hwidth4 : width ≤ 4 := by
        have := Utf8.announcedWidth_eq_some_iff.mp hwidth
        omega
      have hmissing : width - 1 ≤ attempts r'.events := by omega
      obtain ⟨result, r'', hcomplete, hle'⟩ := complete_within hmissing r.offset [first]
      cases result with
      | error e =>
        refine ⟨.error e, r'', ?_, by omega⟩
        intro more
        simp only [readChar, hread, hwidth, extend_offset, hcomplete]
      | ok bytes =>
        cases hdecode : Utf8.decodeChar? bytes with
        | none =>
          refine ⟨.error (.malformed bytes r.offset), r'', ?_, by omega⟩
          intro more
          simp only [readChar, hread, hwidth, extend_offset, hcomplete, hdecode]
        | some c =>
          refine ⟨.ok (some c), r'', ?_, by omega⟩
          intro more
          simp only [readChar, hread, hwidth, extend_offset, hcomplete, hdecode]

/-- A call takes no more than the four attempts that a character may take. -/
theorem answer_within (h : 4 ≤ attempts r.events) (call : Call) :
    ∃ a r', Within 4 (fun r => r.answer call) r a r' := by
  cases call with
  | offset => exact ⟨.offset r.offset, r, fun _ => rfl, Nat.le_add_right _ 4⟩
  | releaseError =>
    exact ⟨.error? r.error?, { r with error? := none }, fun _ => rfl, Nat.le_add_right _ 4⟩
  | next =>
    by_cases hclosed : r.closed = true
    · refine ⟨.char? none, r, ?_, Nat.le_add_right _ 4⟩
      intro more
      have hclosed' : (r.extend more).closed = true := hclosed
      rw [answer_next, next_of_closed hclosed']
      rfl
    · obtain ⟨result, r', hread, hle⟩ := readChar_within h
      have hopen : ∀ more, ¬ (r.extend more).closed = true := fun _ => hclosed
      match result with
      | .ok (some c) =>
        refine ⟨.char? (some c), r', ?_, hle⟩
        intro more
        rw [answer_next, next, if_neg (hopen more), hread]
        rfl
      | .ok none =>
        refine ⟨.char? none, { r' with closed := true }, ?_, hle⟩
        intro more
        rw [answer_next, next, if_neg (hopen more), hread]
        rfl
      | .error e =>
        refine ⟨.char? none, { r' with closed := true, error? := some e }, ?_, hle⟩
        intro more
        rw [answer_next, next, if_neg (hopen more), hread]
        rfl

/-- **A run takes four attempts a call**: with so many to come, it does the same
    whatever outcomes stand behind them. -/
theorem run_within {calls : List Call} (h : 4 * calls.length ≤ attempts r.events) :
    ∃ answers r', Within (4 * calls.length) (fun r => r.run calls) r answers r' := by
  induction calls generalizing r with
  | nil => exact ⟨[], r, fun _ => rfl, Nat.le_refl _⟩
  | cons call calls ih =>
    rw [List.length_cons] at h ⊢
    obtain ⟨first, r', hanswer, hle⟩ := answer_within (r := r) (by omega) call
    obtain ⟨rest, r'', hrun, hle'⟩ := ih (r := r') (by omega)
    refine ⟨first :: rest, r'', ?_, by omega⟩
    intro more
    simp only [run, hanswer, hrun]

end Utf8Reader

/-! ## Endless readers -/

/-- A reader whose reads never come to an end. -/
structure EndlessReader where
  /-- The outcomes of its reads, counted from zero. -/
  outcome : Nat → ReadEvent
  /-- It is not interrupted for ever. -/
  recovers : ∀ n, ∃ m, n ≤ m ∧ (outcome m).isInterruption = false

namespace EndlessReader

variable (e : EndlessReader)

/-- The outcomes of the first `n` reads. -/
def first (n : Nat) : List ReadEvent :=
  (List.range n).map e.outcome

/-- The outcomes of the `k` reads after the first `n`. -/
def following (n k : Nat) : List ReadEvent :=
  (List.range k).map fun i => e.outcome (n + i)

theorem first_add (n k : Nat) : e.first (n + k) = e.first n ++ e.following n k := by
  unfold first following
  rw [List.range_add, List.map_append, List.map_map]
  rfl

/-- However many attempts are wanted, they come some time. -/
theorem exists_le_attempts (k : Nat) : ∃ n, k ≤ attempts (e.first n) := by
  induction k with
  | zero => exact ⟨0, Nat.zero_le _⟩
  | succ k ih =>
    obtain ⟨n, hn⟩ := ih
    obtain ⟨m, hm, hattempt⟩ := e.recovers n
    -- the next attempt stands behind those of the first reads
    have hlast : e.following m 1 = [e.outcome m] := rfl
    obtain ⟨j, rfl⟩ := Nat.exists_eq_add_of_le hm
    refine ⟨n + j + 1, ?_⟩
    rw [first_add, first_add, hlast, attempts_append, attempts_append,
      attempts_cons_of_not_interruption hattempt, attempts_nil]
    omega

/-- **Runs on an endless reader** are runs on its first reads: with enough of them,
    more make no difference. -/
theorem exists_run_first (calls : List Utf8Reader.Call) :
    ∃ n, ∀ k, Utf8Reader.run { events := e.first (n + k) } calls
      = ((Utf8Reader.run { events := e.first n } calls).1,
          (Utf8Reader.run { events := e.first n } calls).2.extend (e.following n k)) := by
  obtain ⟨n, hn⟩ := e.exists_le_attempts (4 * calls.length)
  obtain ⟨answers, r', hrun⟩ := Utf8Reader.run_within (r := { events := e.first n }) hn
  refine ⟨n, ?_⟩
  intro k
  rw [hrun.answers, first_add]
  exact hrun.extended (e.following n k)

end EndlessReader

end FloatLang
