import FloatLang.Stream.Basic
import FloatLang.Text.Utf8

/-! # Readers of UTF-8

  A stream that decodes the bytes of a reader. Bytes are read one at a time
  and only as many as the next character needs, so that text is decoded as
  soon as it arrives.

  The outcome of each one-byte read is a `ReadEvent`. A read that was
  interrupted is tried again and leaves no trace. The first end of file, failed
  read or malformed sequence ends the stream for good: later pulls read
  nothing. Its error is held until it is taken.

  The first byte of a sequence announces how many bytes belong to it
  (`Utf8.announcedWidth`). The announcement is looser than UTF-8; the sequence
  is checked once it is complete. A first byte that announces nothing is an error
  by itself, and a sequence cut short by the end of file is one as far as it
  was read.
-/

namespace FloatLang

/-- The outcome of reading one byte. -/
inductive ReadEvent where
  /-- The byte was read. -/
  | byte (b : UInt8)
  /-- There is nothing to read now. -/
  | endOfFile
  /-- The read failed. -/
  | failure (f : ReadFailure)
  deriving DecidableEq, Inhabited

/-! ## The reader -/

/-- A stream over the outcomes of one-byte reads. When they are used up, every
    further read finds the end of file. -/
structure Utf8Reader where
  /-- The outcomes of the reads to come. -/
  events : List ReadEvent
  /-- The number of bytes read so far. It has no bound here: that a reader delivers
      fewer bytes than a machine word can count is an assumption. -/
  offset : Nat := 0
  /-- The error that ended the stream, until it is taken. -/
  error? : Option StreamError := none
  /-- Whether the stream has ended. -/
  closed : Bool := false
  deriving DecidableEq, Inhabited

namespace Utf8Reader

/-- The next outcome that is not an interruption, and the outcomes after it. -/
def nextEvent : List ReadEvent → ReadEvent × List ReadEvent
  | [] => (.endOfFile, [])
  | .failure f :: rest => if f.kind = .interrupted then nextEvent rest else (.failure f, rest)
  | event :: rest => (event, rest)

/-- The reader with further outcomes after those to come. -/
def extend (r : Utf8Reader) (events : List ReadEvent) : Utf8Reader :=
  { r with events := r.events ++ events }

/-- Reads a byte, trying again when interrupted. -/
def read (r : Utf8Reader) : ReadEvent × Utf8Reader :=
  match nextEvent r.events with
  | (.byte b, rest) => (.byte b, { r with events := rest, offset := r.offset + 1 })
  | (event, rest) => (event, { r with events := rest })

/-- Reads `missing` more bytes of the sequence that started at `start` and
    whose first bytes are `bytes`. -/
def complete (r : Utf8Reader) (start : Nat) (bytes : List UInt8) :
    (missing : Nat) → Except StreamError (List UInt8) × Utf8Reader
  | 0 => (.ok bytes, r)
  | missing + 1 =>
    match r.read with
    | (.byte b, r') => complete r' start (bytes ++ [b]) missing
    | (.endOfFile, r') => (.error (.malformed bytes start), r')
    | (.failure f, r') => (.error (.unreadable f r.offset), r')

/-- Reads the next character; none at the end of the file. -/
def readChar (r : Utf8Reader) : Except StreamError (Option Char) × Utf8Reader :=
  match r.read with
  | (.endOfFile, r') => (.ok none, r')
  | (.failure f, r') => (.error (.unreadable f r.offset), r')
  | (.byte first, r') =>
    match Utf8.announcedWidth first with
    | none => (.error (.malformed [first] r.offset), r')
    | some width =>
      match r'.complete r.offset [first] (width - 1) with
      | (.error e, r'') => (.error e, r'')
      | (.ok bytes, r'') =>
        match Utf8.decodeChar? bytes with
        | some c => (.ok (some c), r'')
        | none => (.error (.malformed bytes r.offset), r'')

/-- The next character. A stream that has ended reads nothing. -/
def next (r : Utf8Reader) : Pull Utf8Reader :=
  if r.closed then .ended r none
  else
    match r.readChar with
    | (.ok (some c), r') => .delivered c r'
    | (.ok none, r') => .ended { r' with closed := true } none
    | (.error e, r') => .ended { r' with closed := true, error? := some e } (some e)

theorem next_of_closed {r : Utf8Reader} (hclosed : r.closed = true) :
    r.next = .ended r none := if_pos hclosed

/-! ## Progress -/

/-- Reading uses up outcomes. -/
theorem length_nextEvent_le (events : List ReadEvent) :
    (nextEvent events).2.length ≤ events.length := by
  fun_induction nextEvent events with
  | case1 => exact Nat.le_refl _
  | case2 f rest _ ih => exact Nat.le_succ_of_le ih
  | case3 => exact Nat.le_succ _
  | case4 => exact Nat.le_succ _

/-- A byte that was read is one of the outcomes used up. -/
theorem length_nextEvent_lt {events rest : List ReadEvent} {b : UInt8}
    (h : nextEvent events = (.byte b, rest)) : rest.length < events.length := by
  fun_induction nextEvent events with
  | case1 => cases h
  | case2 f rest' _ ih => exact Nat.lt_succ_of_lt (ih h)
  | case3 => cases h
  | case4 event rest' _ =>
    cases h
    exact Nat.lt_succ_self _

theorem length_read_le (r : Utf8Reader) : r.read.2.events.length ≤ r.events.length := by
  have h := length_nextEvent_le r.events
  unfold read
  split <;> simp_all

theorem length_read_lt {r r' : Utf8Reader} {b : UInt8} (h : r.read = (.byte b, r')) :
    r'.events.length < r.events.length := by
  unfold read at h
  split at h
  · next b' rest hnext =>
    cases h
    exact length_nextEvent_lt hnext
  · next event rest hbyte hnext =>
    simp only [Prod.mk.injEq] at h
    exact absurd h.1 (hbyte b)

theorem length_complete_le (r : Utf8Reader) (start : Nat) (bytes : List UInt8) (missing : Nat) :
    (r.complete start bytes missing).2.events.length ≤ r.events.length := by
  induction missing generalizing r bytes with
  | zero => exact Nat.le_refl _
  | succ missing ih =>
    have hread := length_read_le r
    unfold complete
    split <;> rename_i r' heq <;> rw [heq] at hread
    · exact Nat.le_trans (ih r' _) hread
    · exact hread
    · exact hread

/-- A character that was read used up at least one outcome. -/
theorem length_next_lt {r r' : Utf8Reader} {c : Char} (h : r.next = .delivered c r') :
    r'.events.length < r.events.length := by
  unfold next readChar at h
  split at h
  · cases h
  · split at h <;> rename_i heq <;> try cases h
    split at heq <;> try simp at heq
    next first r₁ hread =>
      split at heq
      · simp at heq
      next width _ =>
        have hle := length_complete_le r₁ r.offset [first] (width - 1)
        split at heq <;> rename_i hcomplete <;> rw [hcomplete] at hle
        · simp at heq
        · split at heq <;> simp only [Prod.mk.injEq] at heq
          · rw [← heq.2]
            exact Nat.lt_of_le_of_lt hle (length_read_lt hread)
          · simp at heq

instance : CharStream Utf8Reader where
  pull := next
  releaseError r := (r.error?, { r with error? := none })
  remaining r := r.events.length
  remaining_lt := length_next_lt

end Utf8Reader

end FloatLang
