import FloatLang.Proofs.Stream.Calls
import FloatLang.Proofs.Stream.Decoding

/-! # Bytes Conserved

  A reader of UTF-8 takes bytes before it knows whether they are a character. None of
  them is lost on the way, whatever is asked of the reader and wherever it fails: the
  bytes taken are those of the characters answered, and behind them the leftover that
  the error tells of.

  - **Reads** (`Reads`): what a function of the reader takes.
  - **Leftover** (`Leftover`): the bytes that belong to no character, by the error
    that stopped the reader.
  - **Conserved** (`Conserved`): the account of a run.

  Main statement: `run_conserved`.
-/

namespace FloatLang

/-- The bytes that reads deliver. -/
def bytesOf (events : List ReadEvent) : List UInt8 :=
  events.filterMap ReadEvent.byte?

theorem bytesOf_append (a b : List ReadEvent) : bytesOf (a ++ b) = bytesOf a ++ bytesOf b :=
  List.filterMap_append

namespace Utf8Reader

/-! ## What is read -/

/-- Between `r` and `r'` the reader has used up these outcomes, and nothing else has
    changed but the offset. -/
structure Reads (r : Utf8Reader) (used : List ReadEvent) (r' : Utf8Reader) : Prop where
  /-- They are the next outcomes. -/
  outcomes : r.events = used ++ r'.events
  /-- The offset counts their bytes. -/
  left : r' = { r with events := r'.events, offset := r.offset + (bytesOf used).length }

namespace Reads

variable {r r' r'' : Utf8Reader} {used used' : List ReadEvent}

theorem refl (r : Utf8Reader) : Reads r [] r where
  outcomes := rfl
  left := rfl

theorem trans (h : Reads r used r') (h' : Reads r' used' r'') : Reads r (used ++ used') r'' where
  outcomes := by rw [h.outcomes, h'.outcomes, List.append_assoc]
  left := by
    rw [h'.left, h.left, bytesOf_append, List.length_append, Nat.add_assoc]

theorem offset_eq (h : Reads r used r') : r'.offset = r.offset + (bytesOf used).length := by
  rw [h.left]

theorem closed_eq (h : Reads r used r') : r'.closed = r.closed := by
  rw [h.left]

theorem error?_eq (h : Reads r used r') : r'.error? = r.error? := by
  rw [h.left]

end Reads

/-- The bytes that belong to no character when the reader stops after `stop` bytes,
    by the error that stopped it. -/
inductive Leftover (stop : Nat) : Option StreamError → List UInt8 → Prop where
  /-- Without an error there are none. -/
  | none : Leftover stop none []
  /-- Malformed bytes are those that the error shows, up to the last byte read. -/
  | malformed {tail : List UInt8} {start : Nat} :
      1 ≤ tail.length → tail.length ≤ 4 → start + tail.length = stop →
      Leftover stop (some (.malformed tail start)) tail
  /-- A failed read breaks off a character before its last byte. -/
  | unreadable {tail : List UInt8} {f : ReadFailure} :
      tail.length ≤ 3 → Leftover stop (some (.unreadable f stop)) tail

/-- What comes of a sequence that started with `bytes` when `more` is read of it. -/
inductive Completed (start missing stop : Nat) (bytes more : List UInt8) :
    Except StreamError (List UInt8) → Prop where
  /-- All is read. -/
  | whole : more.length = missing → Completed start missing stop bytes more (.ok (bytes ++ more))
  /-- The file ends before the last byte. -/
  | cutShort : more.length < missing →
      Completed start missing stop bytes more (.error (.malformed (bytes ++ more) start))
  /-- A read fails before the last byte. -/
  | brokenOff {f : ReadFailure} : more.length < missing →
      Completed start missing stop bytes more (.error (.unreadable f stop))

theorem Completed.cons {start missing stop : Nat} {bytes more : List UInt8} {b : UInt8}
    {result : Except StreamError (List UInt8)}
    (h : Completed start missing stop (bytes ++ [b]) more result) :
    Completed start (missing + 1) stop bytes (b :: more) result := by
  have hbytes : bytes ++ [b] ++ more = bytes ++ b :: more := (List.append_cons bytes b more).symm
  cases h with
  | whole hlength => exact hbytes ▸ .whole (congrArg Nat.succ hlength)
  | cutShort hlength => exact hbytes ▸ .cutShort (Nat.succ_lt_succ hlength)
  | brokenOff hlength => exact .brokenOff (Nat.succ_lt_succ hlength)

variable {r r' : Utf8Reader}

theorem nextEvent_reads (events : List ReadEvent) :
    ∃ used, events = used ++ (nextEvent events).2 ∧
      bytesOf used = (nextEvent events).1.byte?.toList := by
  fun_induction nextEvent events with
  | case1 => exact ⟨[], rfl, rfl⟩
  | case2 f rest _ ih =>
    obtain ⟨used, hused, hbytes⟩ := ih
    exact ⟨.failure f :: used, congrArg (_ :: ·) hused, hbytes⟩
  | case3 f rest => exact ⟨[.failure f], rfl, rfl⟩
  | case4 event rest => exact ⟨[event], rfl, by cases event <;> rfl⟩

theorem read_reads {event : ReadEvent} (h : r.read = (event, r')) :
    ∃ used, Reads r used r' ∧ bytesOf used = event.byte?.toList := by
  obtain ⟨used, hused, hbytes⟩ := nextEvent_reads r.events
  rw [read_eq] at h
  obtain ⟨rfl, rfl⟩ := Prod.mk.inj h
  exact ⟨used, ⟨hused, by rw [hbytes]⟩, hbytes⟩

theorem complete_reads {start missing : Nat} {bytes : List UInt8}
    {result : Except StreamError (List UInt8)} (h : r.complete start bytes missing = (result, r')) :
    ∃ used, Reads r used r' ∧ Completed start missing r'.offset bytes (bytesOf used) result := by
  induction missing generalizing r bytes with
  | zero =>
    obtain ⟨rfl, rfl⟩ := Prod.mk.inj h
    have hwhole : Completed start 0 r.offset bytes [] (.ok (bytes ++ [])) := .whole rfl
    rw [List.append_nil] at hwhole
    exact ⟨[], Reads.refl r, hwhole⟩
  | succ missing ih =>
    unfold complete at h
    cases hread : r.read with
    | mk event r₁ =>
      obtain ⟨used, hreads, hbytes⟩ := read_reads hread
      rw [hread] at h
      cases event with
      | byte b =>
        obtain ⟨used', hreads', hcompleted⟩ := ih h
        refine ⟨used ++ used', hreads.trans hreads', ?_⟩
        rw [bytesOf_append, hbytes]
        exact hcompleted.cons
      | endOfFile =>
        obtain ⟨rfl, rfl⟩ := Prod.mk.inj h
        have hcut : Completed start (missing + 1) r₁.offset bytes []
            (.error (.malformed (bytes ++ []) start)) := .cutShort (Nat.succ_pos missing)
        rw [List.append_nil] at hcut
        exact ⟨used, hreads, by rw [hbytes]; exact hcut⟩
      | failure f =>
        obtain ⟨rfl, rfl⟩ := Prod.mk.inj h
        have hoffset : r₁.offset = r.offset := by
          rw [hreads.offset_eq, hbytes]
          rfl
        refine ⟨used, hreads, ?_⟩
        rw [hbytes, hoffset]
        exact .brokenOff (Nat.succ_pos missing)

/-- What a sequence leaves behind that was not completed. -/
theorem Completed.leftover {start missing stop : Nat} {b : UInt8} {more : List UInt8}
    {error : StreamError} (h : Completed start missing stop [b] more (.error error))
    (hmissing : missing ≤ 3) (hstop : start + (b :: more).length = stop) :
    Leftover stop (some error) (b :: more) := by
  have hlength : (b :: more).length = more.length + 1 := List.length_cons
  cases h with
  | cutShort hmore =>
    have hle : (b :: more).length ≤ 4 := by omega
    exact .malformed (Nat.succ_pos more.length) hle hstop
  | brokenOff hmore =>
    have hle : (b :: more).length ≤ 3 := by omega
    exact .unreadable hle

/-- What comes of the bytes read for the next character. -/
inductive Decoded (stop : Nat) (bytes : List UInt8) : Except StreamError (Option Char) → Prop where
  /-- They are a character. -/
  | character {c : Char} : bytes = String.utf8EncodeChar c → Decoded stop bytes (.ok (some c))
  /-- The file has ended. -/
  | ended : Leftover stop none bytes → Decoded stop bytes (.ok none)
  /-- They belong to no character. -/
  | failed {error : StreamError} :
      Leftover stop (some error) bytes → Decoded stop bytes (.error error)

/-- A first byte that announces a sequence is read with all of it. -/
theorem readChar_reads_sequence {r₁ : Utf8Reader} {first : UInt8} {width : Nat}
    {result : Except StreamError (Option Char)} (hread : r.read = (.byte first, r₁))
    (hwidth : Utf8.announcedWidth first = some width) (h : r.readChar = (result, r')) :
    ∃ used, Reads r used r' ∧ Decoded r'.offset (bytesOf used) result := by
  -- a sequence has four bytes at most, the first included
  have hwidth4 : 1 ≤ width ∧ width ≤ 4 := by
    have := Utf8.announcedWidth_eq_some_iff.mp hwidth
    omega
  unfold readChar at h
  simp only [hread, hwidth] at h
  cases hcomplete : r₁.complete r.offset [first] (width - 1) with
  | mk sequence r₂ =>
    obtain ⟨used, hreads, hbytes⟩ := read_reads hread
    obtain ⟨used', hreads', hcompleted⟩ := complete_reads hcomplete
    have hall : bytesOf (used ++ used') = first :: bytesOf used' := by
      rw [bytesOf_append, hbytes]
      rfl
    have hstop : r.offset + (first :: bytesOf used').length = r₂.offset := by
      rw [(hreads.trans hreads').offset_eq, hall]
    rw [hcomplete] at h
    cases sequence with
    | error e =>
      obtain ⟨rfl, rfl⟩ := Prod.mk.inj h
      refine ⟨used ++ used', hreads.trans hreads', .failed ?_⟩
      rw [hall]
      exact hcompleted.leftover (by omega) hstop
    | ok bytes =>
      obtain ⟨hlength⟩ := hcompleted
      cases hdecode : Utf8.decodeChar? ([first] ++ bytesOf used') with
      | some c =>
        simp only [hdecode] at h
        obtain ⟨rfl, rfl⟩ := Prod.mk.inj h
        have hchar := Utf8.decodeChar?_eq_some_iff.mp hdecode
        exact ⟨used ++ used', hreads.trans hreads', .character (hall.trans hchar)⟩
      | none =>
        simp only [hdecode] at h
        obtain ⟨rfl, rfl⟩ := Prod.mk.inj h
        have hle : (first :: bytesOf used').length ≤ 4 := by
          rw [List.length_cons]
          omega
        refine ⟨used ++ used', hreads.trans hreads', .failed ?_⟩
        rw [hall]
        exact .malformed (Nat.succ_pos _) hle hstop

/-- **One character**: what is read for it is its encoding; without a character it is
    the leftover. -/
theorem readChar_reads {result : Except StreamError (Option Char)}
    (h : r.readChar = (result, r')) :
    ∃ used, Reads r used r' ∧ Decoded r'.offset (bytesOf used) result := by
  cases hread : r.read with
  | mk event r₁ =>
    obtain ⟨used, hreads, hbytes⟩ := read_reads hread
    have hoffset := hreads.offset_eq
    rw [hbytes] at hoffset
    cases event with
    | endOfFile =>
      rw [readChar, hread] at h
      obtain ⟨rfl, rfl⟩ := Prod.mk.inj h
      exact ⟨used, hreads, .ended (by rw [hbytes]; exact .none)⟩
    | failure f =>
      rw [readChar, hread] at h
      obtain ⟨rfl, rfl⟩ := Prod.mk.inj h
      refine ⟨used, hreads, .failed ?_⟩
      rw [hbytes, hoffset]
      exact .unreadable (Nat.zero_le 3)
    | byte first =>
      cases hwidth : Utf8.announcedWidth first with
      | none =>
        simp only [readChar, hread, hwidth] at h
        obtain ⟨rfl, rfl⟩ := Prod.mk.inj h
        refine ⟨used, hreads, .failed ?_⟩
        rw [hbytes]
        exact .malformed (Nat.le_refl 1) (Nat.le_add_left 1 3) hoffset.symm
      | some width => exact readChar_reads_sequence hread hwidth h

/-- **One pull** of an open stream: it reads the bytes of a character and delivers it,
    or reads the leftover and ends. -/
theorem next_reads (hopen : r.closed = false) :
    (∃ c used r', r.next = .delivered c r' ∧ Reads r used r' ∧
      bytesOf used = String.utf8EncodeChar c) ∨
    (∃ error? used r', Reads r used r' ∧ Leftover r'.offset error? (bytesOf used) ∧
      r.next = .ended { r' with closed := true, error? := error?.or r'.error? } error?) := by
  have hnot : ¬ r.closed = true := by simp [hopen]
  cases hread : r.readChar with
  | mk result r' =>
    obtain ⟨used, hreads, hdecoded⟩ := readChar_reads hread
    cases hdecoded with
    | @character c hbytes =>
      refine .inl ⟨c, used, r', ?_, hreads, hbytes⟩
      rw [next, if_neg hnot, hread]
    | ended hleftover =>
      refine .inr ⟨none, used, r', hreads, hleftover, ?_⟩
      rw [next, if_neg hnot, hread]
      rfl
    | @failed error hleftover =>
      refine .inr ⟨some error, used, r', hreads, hleftover, ?_⟩
      rw [next, if_neg hnot, hread]
      rfl

/-! ## The account of a run -/

/-- The character that was answered, if any. -/
def Answer.character? : Answer → Option Char
  | .char? c? => c?
  | .offset _ | .error? _ => none

/-- The error that was handed over, if any. -/
def Answer.released? : Answer → Option StreamError
  | .error? e? => e?
  | .char? _ | .offset _ => none

/-- The characters among the answers. -/
def characters (answers : List Answer) : List Char :=
  answers.filterMap Answer.character?

/-- The errors among the answers. -/
def released (answers : List Answer) : List StreamError :=
  answers.filterMap Answer.released?

theorem characters_append_singleton (answers : List Answer) (a : Answer) :
    characters (answers ++ [a]) = characters answers ++ a.character?.toList := by
  unfold characters
  rw [List.filterMap_append]
  cases ha : a.character? <;> simp [ha]

theorem released_append_singleton (answers : List Answer) (a : Answer) :
    released (answers ++ [a]) = released answers ++ a.released?.toList := by
  unfold released
  rw [List.filterMap_append]
  cases ha : a.released? <;> simp [ha]

/-- A reader on these outcomes that nothing was asked of. -/
def start (events : List ReadEvent) : Utf8Reader :=
  { events := events }

/-- The account of a reader on the outcomes `events` that has given these answers and
    is left as `r`: it has used up `used`, and stopped at `tail` with the error. -/
structure Conserved (events : List ReadEvent) (answers : List Answer) (r : Utf8Reader)
    (used : List ReadEvent) (tail : List UInt8) (error? : Option StreamError) : Prop where
  /-- Every outcome is used up once or still to come. -/
  outcomes : events = used ++ r.events
  /-- Every byte is that of a character answered, or of the tail. -/
  bytes : bytesOf used = Utf8.encode (characters answers) ++ tail
  /-- The offset counts the bytes. -/
  counted : r.offset = (bytesOf used).length
  /-- The tail is what the error leaves over. -/
  leftover : Leftover (bytesOf used).length error? tail
  /-- The error was handed over once, or is still held. -/
  once : released answers ++ r.error?.toList = error?.toList
  /-- The stream is closed when it has answered that it has ended. -/
  closed : r.closed = true ↔ .char? none ∈ answers
  /-- Until then nothing is left over, and there is no error. -/
  before_end : .char? none ∉ answers → tail = [] ∧ error? = none
  /-- With the characters still to come, those answered are the whole text. -/
  text : characters answers ++ (drain r).text = (drain (start events)).text

/-- The stream has stopped: whatever is asked of it, it answers no more characters
    and reads no more. -/
def Stopped (r : Utf8Reader) : Prop :=
  ∀ calls, characters (r.run calls).1 = [] ∧ (r.run calls).2.events = r.events ∧
    (r.run calls).2.answer .offset = (.offset r.offset, (r.run calls).2)

/-- A closed stream has stopped. -/
theorem stopped_of_closed (hclosed : r.closed = true) : Stopped r := by
  intro calls
  induction calls generalizing r with
  | nil => exact ⟨rfl, rfl, rfl⟩
  | cons call calls ih =>
    rw [run_cons]
    cases call with
    | next =>
      rw [answer_next, next_of_closed hclosed]
      exact ih hclosed
    | offset => exact ih hclosed
    | releaseError => exact ih (r := { r with error? := none }) hclosed

theorem conserved_start (events : List ReadEvent) :
    Conserved events [] (start events) [] [] none where
  outcomes := rfl
  bytes := rfl
  counted := rfl
  leftover := .none
  once := rfl
  closed := by simp [start]
  before_end := fun _ => ⟨rfl, rfl⟩
  text := rfl

namespace Conserved

variable {events used used' : List ReadEvent} {answers : List Answer} {tail : List UInt8}
  {error? : Option StreamError}

/-- A call for no character changes at most who has the error. -/
theorem aside (h : Conserved events answers r used tail error?) {a : Answer}
    (hchar : ∀ c?, a ≠ .char? c?) (hleft : r' = { r with error? := r'.error? })
    (htext : (drain r').text = (drain r).text)
    (herror : a.released?.toList ++ r'.error?.toList = r.error?.toList) :
    Conserved events (answers ++ [a]) r' used tail error? := by
  have hcharacters : characters (answers ++ [a]) = characters answers := by
    rw [characters_append_singleton]
    cases a with
    | char? c? => exact absurd rfl (hchar c?)
    | offset n => exact List.append_nil _
    | error? e? => exact List.append_nil _
  have hmem : .char? none ∈ answers ++ [a] ↔ .char? none ∈ answers := by
    rw [List.mem_append, List.mem_singleton]
    exact or_iff_left fun ha => hchar none ha.symm
  constructor
  case outcomes => rw [hleft]; exact h.outcomes
  case bytes => rw [hcharacters, h.bytes]
  case counted => rw [hleft]; exact h.counted
  case leftover => exact h.leftover
  case once => rw [released_append_singleton, List.append_assoc, herror, h.once]
  case closed => rw [hmem, hleft]; exact h.closed
  case before_end => rw [hmem]; exact h.before_end
  case text => rw [hcharacters, htext, h.text]

/-- A closed stream answers once more that it has ended. -/
theorem still_closed (h : Conserved events answers r used tail error?) (hclosed : r.closed = true) :
    Conserved events (answers ++ [.char? none]) r used tail error? := by
  constructor
  case outcomes => exact h.outcomes
  case bytes => rw [characters_append_singleton, h.bytes]; simp [Answer.character?]
  case counted => exact h.counted
  case leftover => exact h.leftover
  case once => rw [released_append_singleton, ← h.once]; simp [Answer.released?]
  case closed => simp [hclosed]
  case before_end => simp
  case text => rw [characters_append_singleton, ← h.text]; simp [Answer.character?]

/-- An open stream has not answered that it has ended. -/
theorem not_ended (h : Conserved events answers r used tail error?) (hopen : r.closed = false) :
    .char? none ∉ answers := by
  rw [← h.closed, hopen]
  exact Bool.false_ne_true

/-- It has delivered whole characters, and holds no error. -/
theorem of_open (h : Conserved events answers r used tail error?) (hopen : r.closed = false) :
    tail = [] ∧ error? = none ∧ released answers = [] ∧ r.error? = none := by
  obtain ⟨htail, herror⟩ := h.before_end (h.not_ended hopen)
  have honce := h.once
  rw [herror] at honce
  obtain ⟨hreleased, hheld⟩ := List.append_eq_nil_iff.mp honce
  exact ⟨htail, herror, hreleased, Option.toList_eq_nil_iff.mp hheld⟩

/-- A character is delivered. -/
theorem delivered (h : Conserved events answers r used tail error?) (hopen : r.closed = false)
    {c : Char} (hpull : r.next = .delivered c r') (hreads : Reads r used' r')
    (hbytes : bytesOf used' = String.utf8EncodeChar c) :
    Conserved events (answers ++ [.char? (some c)]) r' (used ++ used') [] none := by
  obtain ⟨rfl, rfl, hreleased, hheld⟩ := h.of_open hopen
  have hcharacters : characters (answers ++ [.char? (some c)]) = characters answers ++ [c] :=
    characters_append_singleton answers _
  have hclosed : r'.closed = false := by rw [hreads.closed_eq, hopen]
  have hmem := h.not_ended hopen
  constructor
  case outcomes => rw [h.outcomes, hreads.outcomes, List.append_assoc]
  case bytes =>
    rw [bytesOf_append, h.bytes, hbytes, hcharacters, Utf8.encode_append, List.append_nil,
      List.append_nil]
    simp
  case counted =>
    rw [hreads.offset_eq, h.counted, bytesOf_append, List.length_append]
  case leftover => exact .none
  case once =>
    rw [released_append_singleton, hreleased, hreads.error?_eq, hheld]
    rfl
  case closed => simp [hclosed, hmem]
  case before_end => exact fun _ => ⟨rfl, rfl⟩
  case text =>
    have hdrain : (drain r).text = c :: (drain r').text := by rw [drain_of_delivered hpull]
    rw [hcharacters, ← h.text, hdrain, List.append_assoc]
    rfl

/-- The stream ends. -/
theorem ended (h : Conserved events answers r used tail error?) (hopen : r.closed = false)
    {error?' : Option StreamError} (hreads : Reads r used' r')
    (hleftover : Leftover r'.offset error?' (bytesOf used'))
    (hpull : r.next = .ended { r' with closed := true, error? := error?'.or r'.error? } error?') :
    Conserved events (answers ++ [.char? none])
      { r' with closed := true, error? := error?'.or r'.error? } (used ++ used') (bytesOf used')
      error?' := by
  obtain ⟨rfl, rfl, hreleased, hheld⟩ := h.of_open hopen
  have hcharacters : characters (answers ++ [.char? none]) = characters answers := by
    rw [characters_append_singleton]
    exact List.append_nil _
  have hoffset : r'.offset = (bytesOf (used ++ used')).length := by
    rw [hreads.offset_eq, h.counted, bytesOf_append, List.length_append]
  constructor
  case outcomes => rw [h.outcomes, hreads.outcomes, List.append_assoc]
  case bytes => rw [bytesOf_append, h.bytes, hcharacters, List.append_nil]
  case counted => exact hoffset
  case leftover => rwa [← hoffset]
  case once =>
    rw [released_append_singleton, hreleased, hreads.error?_eq, hheld, Option.or_none]
    rfl
  case closed => simp
  case before_end => simp
  case text =>
    have hdrain : (drain r).text = [] := by rw [drain_of_ended hpull]
    rw [hcharacters, drain_text_of_closed rfl, ← h.text, hdrain]

/-- **One call** is accounted for. -/
theorem answer (h : Conserved events answers r used tail error?) (call : Call) :
    ∃ used' tail' error?',
      Conserved events (answers ++ [(r.answer call).1]) (r.answer call).2 used' tail' error?' := by
  cases call with
  | offset =>
    exact ⟨used, tail, error?, h.aside (fun _ hc => nomatch hc) rfl rfl rfl⟩
  | releaseError =>
    refine ⟨used, tail, error?, h.aside (fun _ hc => nomatch hc) rfl ?_ ?_⟩
    · exact drain_text_releaseError r
    · exact List.append_nil _
  | next =>
    rw [answer_next]
    by_cases hclosed : r.closed = true
    · rw [next_of_closed hclosed]
      exact ⟨used, tail, error?, h.still_closed hclosed⟩
    · have hopen : r.closed = false := Bool.eq_false_iff.mpr hclosed
      rcases next_reads hopen with
        ⟨c, used', r', hnext, hreads, hbytes⟩ | ⟨error?', used', r', hreads, hleftover, hnext⟩
      · rw [hnext]
        exact ⟨used ++ used', [], none, h.delivered hopen hnext hreads hbytes⟩
      · rw [hnext]
        exact ⟨used ++ used', _, error?', h.ended hopen hreads hleftover hnext⟩

/-- So is a run. -/
theorem run (h : Conserved events answers r used tail error?) (calls : List Call) :
    ∃ used' tail' error?',
      Conserved events (answers ++ (r.run calls).1) (r.run calls).2 used' tail' error?' := by
  induction calls generalizing r answers used tail error? with
  | nil =>
    refine ⟨used, tail, error?, ?_⟩
    rwa [Utf8Reader.run, List.append_nil]
  | cons call calls ih =>
    obtain ⟨used', tail', error?', hanswer⟩ := h.answer call
    rw [run_cons, List.append_cons]
    exact ih hanswer

end Conserved

/-- **No byte is lost**: whatever is asked of a reader, and wherever it fails, the
    bytes that it has taken are those of the characters answered and of the tail that
    the error tells of, and behind the first end it has stopped. A run on an endless
    reader is one on its first reads. -/
theorem run_conserved :
    (∀ (events : List ReadEvent) (calls : List Call),
      (∃ used tail error?, Conserved events ((start events).run calls).1
        ((start events).run calls).2 used tail error?) ∧
      (.char? none ∈ ((start events).run calls).1 → Stopped ((start events).run calls).2)) ∧
    (∀ (e : EndlessReader) (calls : List Call), ∃ n, ∀ k,
      (start (e.first (n + k))).run calls
        = (((start (e.first n)).run calls).1,
            ((start (e.first n)).run calls).2.extend (e.following n k))) := by
  refine ⟨?_, fun e calls => e.exists_run_first calls⟩
  intro events calls
  obtain ⟨used, tail, error?, hconserved⟩ := (conserved_start events).run calls
  rw [List.nil_append] at hconserved
  exact ⟨⟨used, tail, error?, hconserved⟩, fun h => stopped_of_closed (hconserved.closed.mpr h)⟩

/-- An end of file within a character, with a byte behind it. -/
theorem run_conserved_cutShort :
    ∃ (events : List ReadEvent) (calls : List Call) (r : Utf8Reader),
      events = [.byte 0xce, .failure { kind := .interrupted }, .byte 0xbb, .byte 0xe2, .byte 0x82,
        .endOfFile, .byte 0x41] ∧
      calls = [.next, .releaseError, .next, .offset, .releaseError, .releaseError, .next] ∧
      (start events).run calls
        = ([.char? (some 'λ'), .error? none, .char? none, .offset 4,
            .error? (some (.malformed [0xe2, 0x82] 2)), .error? none, .char? none], r) ∧
      (∃ used tail error?, Conserved events ((start events).run calls).1 r used tail error?) ∧
      Stopped r := by
  obtain ⟨events, hevents⟩ : ∃ events : List ReadEvent, events = [.byte 0xce,
    .failure { kind := .interrupted }, .byte 0xbb, .byte 0xe2, .byte 0x82, .endOfFile,
    .byte 0x41] := ⟨_, rfl⟩
  obtain ⟨calls, hcalls⟩ : ∃ calls : List Call, calls = [.next, .releaseError, .next, .offset,
    .releaseError, .releaseError, .next] := ⟨_, rfl⟩
  have hrun : (start events).run calls
      = ([.char? (some 'λ'), .error? none, .char? none, .offset 4,
          .error? (some (.malformed [0xe2, 0x82] 2)), .error? none, .char? none],
        { events := [.byte 0x41], offset := 4, closed := true }) := by
    rw [hevents, hcalls]
    decide +kernel
  obtain ⟨hconserved, hstopped⟩ := run_conserved.1 events calls
  have hended : .char? none ∈ ((start events).run calls).1 := by
    rw [hrun]
    simp
  refine ⟨events, calls, ((start events).run calls).2, hevents, hcalls, ?_, hconserved,
    hstopped hended⟩
  rw [hrun]

end Utf8Reader

end FloatLang
