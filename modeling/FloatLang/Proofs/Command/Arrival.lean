import FloatLang.Command.Arrival
import FloatLang.Proofs.Command.Validity
import FloatLang.Proofs.Lexer.Exchange
import FloatLang.Proofs.Stream.Calls

/-! # Listing as a Program Arrives

  A program that arrives in parts is listed as it is when all of it is there, however
  it is divided: what is listed early never has to be taken back.

  - **Not dry** (`Utf8Reader.isDry`): a reader that did not end for want of outcomes
    has taken those that are there, and further ones change nothing.
  - **Resumed** (`Progress.resume`): what is listed in the end, if further outcomes
    come.

  Main statement: `run_arriving`.
-/

namespace FloatLang

/-! ## Outcomes that are there -/

namespace Utf8Reader

variable {r : Utf8Reader} (more : List ReadEvent)

/-- Without an attempt among them the outcomes are used up. -/
theorem nextEvent_of_attempts_eq_zero {events : List ReadEvent} (h : attempts events = 0) :
    nextEvent events = (.endOfFile, []) := by
  fun_induction nextEvent events with
  | case1 => rfl
  | case2 f rest hinterrupted ih =>
    apply ih
    rwa [attempts_cons_of_interruption (by simp [ReadEvent.isInterruption, hinterrupted])] at h
  | case3 f rest hfailed =>
    rw [attempts_cons_of_not_interruption (by simp [ReadEvent.isInterruption, hfailed])] at h
    cases h
  | case4 event rest hevent =>
    cases event with
    | byte b => cases (attempts_cons_of_not_interruption rfl rest).symm.trans h
    | endOfFile => cases (attempts_cons_of_not_interruption rfl rest).symm.trans h
    | failure f => exact absurd rfl (hevent f)

/-- A read that finds an outcome, or leaves some, is the same with more of them. -/
theorem read_extend (h : r.read.1 ≠ .endOfFile ∨ r.read.2.events ≠ []) :
    (r.extend more).read = (r.read.1, r.read.2.extend more) := by
  have hattempt : 0 < attempts r.events := by
    apply Nat.pos_of_ne_zero
    intro hzero
    rw [read_eq, nextEvent_of_attempts_eq_zero hzero] at h
    simp at h
  obtain ⟨event, r', hread⟩ := read_within hattempt
  rw [hread.extended, hread.answers]

/-- So is a sequence that is complete, or leaves some outcomes. -/
theorem complete_extend (start missing : Nat) (bytes : List UInt8)
    (h : (∃ whole, (r.complete start bytes missing).1 = .ok whole) ∨
      (r.complete start bytes missing).2.events ≠ []) :
    (r.extend more).complete start bytes missing
      = ((r.complete start bytes missing).1, (r.complete start bytes missing).2.extend more) := by
  induction missing generalizing r bytes with
  | zero => rfl
  | succ missing ih =>
    have hextend := read_extend (r := r) more
    rw [complete] at h ⊢
    rw [complete]
    obtain ⟨event, r', hread⟩ : ∃ event r', r.read = (event, r') := ⟨_, _, rfl⟩
    rw [hread] at h hextend ⊢
    cases event with
    | byte b =>
      rw [hextend (.inl (by simp))]
      exact ih (bytes ++ [b]) h
    | endOfFile =>
      have hleft : r'.events ≠ [] := h.resolve_left (by simp)
      rw [hextend (.inr hleft)]
    | failure f =>
      rw [hextend (.inl (by simp))]
      rfl

/-- So is a character. -/
theorem readChar_extend
    (h : (∃ c, r.readChar.1 = .ok (some c)) ∨ r.readChar.2.events ≠ []) :
    (r.extend more).readChar = (r.readChar.1, r.readChar.2.extend more) := by
  have hextend := read_extend (r := r) more
  obtain ⟨event, r', hread⟩ : ∃ event r', r.read = (event, r') := ⟨_, _, rfl⟩
  rw [hread] at hextend
  cases event with
  | endOfFile =>
    have hleft : r'.events ≠ [] := by simpa [readChar, hread] using h
    simp only [readChar, hread, hextend (.inr hleft)]
  | failure f => simp only [readChar, hread, hextend (.inl (by simp)), extend_offset]
  | byte first =>
    have hfirst := hextend (.inl (by simp))
    cases hwidth : Utf8.announcedWidth first with
    | none => simp only [readChar, hread, hfirst, hwidth, extend_offset]
    | some width =>
      obtain ⟨result, r'', hresult⟩ :
          ∃ result r'', r'.complete r.offset [first] (width - 1) = (result, r'') := ⟨_, _, rfl⟩
      have hcomplete := complete_extend (r := r') more r.offset (width - 1) [first]
      rw [hresult] at hcomplete
      cases result with
      | error e =>
        have hleft : r''.events ≠ [] := by simpa [readChar, hread, hwidth, hresult] using h
        simp only [readChar, hread, hfirst, hwidth, extend_offset, hresult,
          hcomplete (.inr hleft)]
      | ok bytes =>
        have hwhole := hcomplete (.inl ⟨bytes, rfl⟩)
        cases hdecode : Utf8.decodeChar? bytes <;>
          simp only [readChar, hread, hfirst, hwidth, extend_offset, hresult, hwhole, hdecode]

/-- **A reader that is not dry** has what it needs: further outcomes change nothing. -/
theorem keepsAnswersOn_extend : KeepsAnswersOn (fun r => r.isDry = false) (extend · more) := by
  constructor
  case releaseError_eq => exact fun r h => ⟨h, rfl⟩
  case pull_eq =>
    intro r h
    have h : r.next.stream.isDry = false := h
    show r.isDry = false ∧ (r.extend more).next = r.next.map (extend · more)
    by_cases hclosed : r.closed = true
    · rw [next_of_closed hclosed] at h ⊢
      rw [next_of_closed (r := r.extend more) hclosed]
      exact ⟨h, rfl⟩
    · have hopen : ¬ (r.extend more).closed = true := hclosed
      refine ⟨by simp [isDry, hclosed], ?_⟩
      have hextend := readChar_extend (r := r) more
      rw [next, if_neg hclosed] at h
      rw [next, next, if_neg hopen, if_neg hclosed]
      obtain ⟨result, r', hread⟩ : ∃ result r', r.readChar = (result, r') := ⟨_, _, rfl⟩
      rw [hread] at h hextend ⊢
      cases result with
      | error e =>
        have hleft : r'.events ≠ [] := by simpa [isDry, Pull.stream] using h
        rw [hextend (.inr hleft)]
        rfl
      | ok c? =>
        cases c? with
        | none =>
          have hleft : r'.events ≠ [] := by simpa [isDry, Pull.stream] using h
          rw [hextend (.inr hleft)]
          rfl
        | some c =>
          rw [hextend (.inl ⟨c, rfl⟩)]
          rfl

end Utf8Reader

/-- A call that leaves the reader with what it needs is the same with further
    outcomes. -/
theorem Lexer.next_extend {l l' : Lexer Utf8Reader} {token : Token}
    (hnext : l.next = (token, l')) (hdry : ¬ l'.stream.isDry = true) (more : List ReadEvent) :
    (l.extend more).next = (token, l'.extend more) := by
  have hleft : l.next.2.stream.isDry = false := by
    rw [hnext]
    exact Bool.eq_false_iff.mpr hdry
  have hmap := (next_map (Utf8Reader.keepsAnswersOn_extend more) hleft).2
  rw [hnext] at hmap
  exact hmap

theorem Lexer.extend_extend (l : Lexer Utf8Reader) (first second : List ReadEvent) :
    (l.extend first).extend second = l.extend (first ++ second) := by
  show { l with stream := (l.stream.extend first).extend second } = _
  unfold Utf8Reader.extend
  rw [List.append_assoc]
  rfl

namespace Command

/-! ## What is left to list -/

theorem listed_cons (entry : Token × Position) (entries : List (Token × Position))
    (error? : Option StreamError) :
    listed (entry :: entries) error? = (listed entries error?).after (positionLine entry) := by
  have hlines : positionListing (entry :: entries)
      = positionLine entry ++ positionListing entries := by
    unfold positionListing
    rw [List.map_cons, String.join_cons]
  unfold listed
  rw [hlines]
  cases error? <;> rfl

/-- At the end of input its line is left to list. -/
theorem listFrom_of_end {l : Lexer Utf8Reader} (h : l.next.1 = .endOfInput) :
    listFrom l = listed [(l.next.1, l.next.2.lexemeStart)] l.next.2.stream.error? := by
  rw [listFrom_eq, Lexer.tokens_of_end h]

/-- Any other token is listed before what is left behind it. -/
theorem listFrom_of_next {l : Lexer Utf8Reader} (h : l.next.1 ≠ .endOfInput) :
    listFrom l
      = (listFrom l.next.2).after (positionLine (l.next.1, l.next.2.lexemeStart)) := by
  rw [listFrom_eq, listFrom_eq, Lexer.tokens_of_next h, listed_cons]

/-! ## What is listed in the end -/

/-- What is listed in the end, if `more` outcomes come. -/
def Progress.resume (more : List ReadEvent) : Progress → Outcome
  | .waiting lines l => (listFrom (l.extend more)).after lines
  | .finished outcome => outcome

theorem Progress.resume_after (line : String) (more : List ReadEvent) (p : Progress) :
    (p.after line).resume more = (p.resume more).after line := by
  cases p with
  | waiting lines l =>
    show Outcome.after (line ++ lines) _ = Outcome.after line (Outcome.after lines _)
    unfold Outcome.after
    rw [String.append_assoc]
  | finished outcome => rfl

/-- **Settled** is settled: what is listed of a part is listed of the whole. -/
theorem resume_listSettled (l : Lexer Utf8Reader) (more : List ReadEvent) :
    (listSettled l).resume more = listFrom (l.extend more) := by
  fun_induction listSettled l with
  | case1 l token l' hnext hdry => rfl
  | case2 l l' hdry hnext =>
    -- the end of input is found where nothing more is asked for
    have hextend := Lexer.next_extend hnext hdry more
    show listFrom l = _
    rw [listFrom_of_end (by rw [hnext]), listFrom_of_end (by rw [hextend]), hnext, hextend]
    rfl
  | case3 l token l' hnext hdry hend ih =>
    have hextend := Lexer.next_extend hnext hdry more
    have hrest := listFrom_of_next (l := l.extend more) (by rw [hextend]; exact hend)
    rw [hextend] at hrest
    rw [Progress.resume_after, ih, hrest]
    rfl

/-- What is left to list is listed in the same way part by part. -/
theorem listParts_eq (l : Lexer Utf8Reader) (parts : List (List ReadEvent)) :
    listParts l parts = listFrom (l.extend parts.flatten) := by
  induction parts generalizing l with
  | nil =>
    show listFrom l = listFrom { l with stream := l.stream.extend [] }
    rw [Utf8Reader.extend_nil]
  | cons part parts ih =>
    unfold listParts
    rw [List.flatten_cons, ← Lexer.extend_extend, ← resume_listSettled]
    cases listSettled (l.extend part) with
    | waiting lines l' => exact congrArg (Outcome.after lines) (ih l')
    | finished outcome => rfl

/-- **Listing as a program arrives**: where positions of standard input are listed,
    it makes no difference in which parts the input arrives. -/
theorem run_arriving {arguments : List String} {o : Options}
    (hoptions : Options.ofArguments arguments = .ok o) (hinput : o.input? = none)
    (hspans : o.spans = false) (parts : List (List ReadEvent))
    (file? : String → Option (List UInt8)) :
    run arguments ⟨parts.flatten, file?⟩ = listParts (Lexer.ofStream { events := [] }) parts := by
  unfold run
  rw [hoptions, listParts_eq]
  show list ⟨parts.flatten, file?⟩ o = _
  unfold list
  rw [hinput, hspans]
  rfl

end Command

end FloatLang
