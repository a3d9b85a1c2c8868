import FloatLang.Stream.Utf8Reader

/-! # Decoding a Reader

  What comes of reading a UTF-8 reader to its end, for whatever its reads
  answer. The reader supplies bytes until it first stops (`supply`). The longest
  start of them that is UTF-8 (`Utf8.LongestText`) is what the stream delivers,
  and `Outcome` says which error is held afterwards and how many bytes were
  read.

  Main statement: `drain_outcome`. It goes back to one pull by `next_decodes`
  and `next_stops`.
-/

namespace FloatLang

/-! ## The longest text -/

namespace Utf8

/-- The bytes are the encoding of `text` and then `rest`, and no longer text
    could be decoded. -/
structure LongestText (bytes : List UInt8) (text : List Char) (rest : List UInt8) : Prop where
  /-- Nothing is lost. -/
  whole : bytes = encode text ++ rest
  /-- No longer start of the bytes is a text. -/
  longest : ∀ text' rest', bytes = encode text' ++ rest' →
    (encode text').length ≤ (encode text).length

/-- Bytes that no character starts hold no text. -/
theorem longestText_nil {bytes : List UInt8}
    (h : ∀ c rest, bytes ≠ String.utf8EncodeChar c ++ rest) : LongestText bytes [] bytes where
  whole := rfl
  longest text' rest' heq := by
    cases text' with
    | nil => exact Nat.le_refl _
    | cons c text' =>
      rw [encode_cons, List.append_assoc] at heq
      exact absurd heq (h c _)

namespace LongestText

variable {bytes rest : List UInt8} {text : List Char}

/-- A character in front belongs to the text. -/
theorem cons (h : LongestText bytes text rest) (c : Char) :
    LongestText (String.utf8EncodeChar c ++ bytes) (c :: text) rest where
  whole := by rw [h.whole, encode_cons, List.append_assoc]
  longest text' rest' heq := by
    cases text' with
    | nil => exact Nat.zero_le _
    | cons d text' =>
      rw [encode_cons, List.append_assoc] at heq
      -- another text starts with the same character, and goes on behind it
      obtain ⟨rfl, htail⟩ := utf8EncodeChar_append_inj heq
      have := h.longest text' rest' htail
      simp only [encode_cons, List.length_append]
      omega

/-- Behind its first character a longest text is a longest text. -/
theorem tail {c : Char} (h : LongestText bytes (c :: text) rest) :
    LongestText (encode text ++ rest) text rest where
  whole := rfl
  longest text' rest' heq := by
    -- a longer text behind the character would be a longer one with it
    have hbytes : bytes = encode (c :: text') ++ rest' := by
      rw [h.whole, encode_cons, List.append_assoc, heq, ← List.append_assoc, ← encode_cons]
    have := h.longest (c :: text') rest' hbytes
    simp only [encode_cons, List.length_append] at this
    omega

/-- What follows the longest text starts with no character. -/
theorem not_char (h : LongestText bytes text rest) (c : Char) (rest' : List UInt8) :
    rest ≠ String.utf8EncodeChar c ++ rest' := by
  rintro rfl
  -- with the character the text would be longer
  have hle := h.longest (text ++ [c]) rest' (by
    rw [h.whole, encode_append, encode_cons, encode_nil, List.append_nil, List.append_assoc])
  have hpos := c.utf8Size_pos
  rw [encode_append, encode_cons, encode_nil, List.length_append, List.append_nil,
    String.length_utf8EncodeChar] at hle
  omega

/-- A text is not decoded in two ways. -/
theorem encode_inj {a b : List Char} (h : encode a = encode b) : a = b := by
  induction a generalizing b with
  | nil =>
    cases b with
    | nil => rfl
    | cons d b => simp at h
  | cons c a ih =>
    cases b with
    | nil => simp at h
    | cons d b =>
      obtain ⟨rfl, htail⟩ := utf8EncodeChar_append_inj h
      rw [ih htail]

theorem unique {text' : List Char} {rest' : List UInt8} (h : LongestText bytes text rest)
    (h' : LongestText bytes text' rest') : text' = text ∧ rest' = rest := by
  have hle := h.longest text' rest' h'.whole
  have hge := h'.longest text rest h.whole
  obtain ⟨htext, hrest⟩ := List.append_inj (h'.whole.symm.trans h.whole) (by omega)
  exact ⟨encode_inj htext, hrest⟩

end LongestText

/-- Some text is the longest. -/
theorem exists_longestText (bytes : List UInt8) : ∃ text rest, LongestText bytes text rest := by
  induction hn : bytes.length using Nat.strongRecOn generalizing bytes with
  | ind n ih =>
    -- a character at the start leaves fewer bytes behind it
    by_cases h : ∃ c rest, bytes = String.utf8EncodeChar c ++ rest
    · obtain ⟨c, rest, rfl⟩ := h
      have hpos := c.utf8Size_pos
      have hlt : rest.length < n := by
        rw [← hn, List.length_append, String.length_utf8EncodeChar]
        omega
      obtain ⟨text, rest', hlongest⟩ := ih rest.length hlt rest rfl
      exact ⟨c :: text, rest', hlongest.cons c⟩
    · simp only [not_exists] at h
      exact ⟨[], bytes, longestText_nil h⟩

end Utf8

/-! ## What a reader supplies -/

/-- The bytes that a reader gives before it stops, and why it stops. -/
structure Supply where
  /-- The bytes before the first end of file or failed read. -/
  bytes : List UInt8
  /-- The failure that came first, if the end of file did not. -/
  failure? : Option ReadFailure
  deriving DecidableEq

/-- What comes of the reads up to the first that gives no byte. An interrupted
    read is tried again. -/
def supply : List ReadEvent → Supply
  | [] => ⟨[], none⟩
  | .byte b :: rest => ⟨b :: (supply rest).bytes, (supply rest).failure?⟩
  | .endOfFile :: _ => ⟨[], none⟩
  | .failure f :: rest => if f.kind = .interrupted then supply rest else ⟨[], some f⟩

/-- The byte starts a sequence of `w` bytes, more than itself. -/
def StartsSequence (b : UInt8) (w : Nat) : Prop :=
  0xc0 ≤ b.toNat ∧ b.toNat ≤ 0xdf ∧ w = 2 ∨ 0xe0 ≤ b.toNat ∧ b.toNat ≤ 0xef ∧ w = 3 ∨
    0xf0 ≤ b.toNat ∧ b.toNat ≤ 0xf7 ∧ w = 4

/-- `Outcome start rest failure? error? stop`: behind `start` bytes of text, the
    bytes `rest` and then the failure, or the end of file, leave the stream with
    the error after `stop` bytes. -/
inductive Outcome (start : Nat) :
    List UInt8 → Option ReadFailure → Option StreamError → Nat → Prop where
  /-- All is text, and the file ends. -/
  | decoded : Outcome start [] none none start
  /-- All is text, and the next read fails. -/
  | unreadable {f : ReadFailure} :
      Outcome start [] (some f) (some (.unreadable f start)) start
  /-- The next byte starts nothing. -/
  | stray {b : UInt8} {rest : List UInt8} {failure? : Option ReadFailure} :
      0x80 ≤ b.toNat ∧ b.toNat ≤ 0xbf ∨ 0xf8 ≤ b.toNat →
      Outcome start (b :: rest) failure? (some (.malformed [b] start)) (start + 1)
  /-- The next sequence is complete and no character. -/
  | malformed {b : UInt8} {rest : List UInt8} {failure? : Option ReadFailure} {w : Nat} :
      StartsSequence b w → w ≤ (b :: rest).length →
      Outcome start (b :: rest) failure? (some (.malformed ((b :: rest).take w) start)) (start + w)
  /-- The file ends within the next sequence. -/
  | truncated {b : UInt8} {rest : List UInt8} {w : Nat} :
      StartsSequence b w → (b :: rest).length < w →
      Outcome start (b :: rest) none (some (.malformed (b :: rest) start))
        (start + (b :: rest).length)
  /-- A read fails within the next sequence. -/
  | brokenOff {b : UInt8} {rest : List UInt8} {f : ReadFailure} {w : Nat} :
      StartsSequence b w → (b :: rest).length < w →
      Outcome start (b :: rest) (some f)
        (some (.unreadable f (start + (b :: rest).length))) (start + (b :: rest).length)

/-- Without an error nothing is read behind the text. -/
theorem Outcome.stop_eq {start stop : Nat} {rest : List UInt8} {failure? : Option ReadFailure}
    (h : Outcome start rest failure? none stop) : stop = start := by
  cases h
  rfl

/-- When no read fails, all is text or malformed bytes stand behind it. -/
theorem Outcome.of_endOfFile {start stop : Nat} {rest : List UInt8} {error? : Option StreamError}
    (h : Outcome start rest none error? stop) :
    rest = [] ∧ error? = none ∨ rest ≠ [] ∧ ∃ bytes, error? = some (.malformed bytes start) := by
  cases h with
  | decoded => exact .inl ⟨rfl, rfl⟩
  | stray _ => exact .inr ⟨List.cons_ne_nil _ _, _, rfl⟩
  | malformed _ _ => exact .inr ⟨List.cons_ne_nil _ _, _, rfl⟩
  | truncated _ _ => exact .inr ⟨List.cons_ne_nil _ _, _, rfl⟩

/-- Reads that all give a byte supply their bytes. -/
theorem supply_map_byte (bytes : List UInt8) : supply (bytes.map .byte) = ⟨bytes, none⟩ := by
  induction bytes with
  | nil => rfl
  | cons b bytes ih => rw [List.map_cons, supply, ih]

namespace Utf8Reader

/-! ## One read -/

variable {r : Utf8Reader} {b : UInt8} {bs : List UInt8} {f : ReadFailure}
  {failure? : Option ReadFailure}

/-- The next outcome is the first that is no interruption. -/
theorem nextEvent_supply (events : List ReadEvent) :
    (∃ b rest, nextEvent events = (.byte b, rest) ∧
      supply events = ⟨b :: (supply rest).bytes, (supply rest).failure?⟩) ∨
    (∃ rest, nextEvent events = (.endOfFile, rest) ∧ supply events = ⟨[], none⟩) ∨
    (∃ f rest, nextEvent events = (.failure f, rest) ∧ supply events = ⟨[], some f⟩) := by
  fun_induction supply events with
  | case1 => exact .inr (.inl ⟨[], rfl, rfl⟩)
  | case2 b rest => exact .inl ⟨b, rest, rfl, rfl⟩
  | case3 rest => exact .inr (.inl ⟨rest, rfl, rfl⟩)
  | case4 f rest hinterrupted ih => rwa [nextEvent, if_pos hinterrupted]
  | case5 f rest hinterrupted =>
    exact .inr (.inr ⟨f, rest, by rw [nextEvent, if_neg hinterrupted], rfl⟩)

theorem read_byte (h : supply r.events = ⟨b :: bs, failure?⟩) :
    ∃ events, r.read = (.byte b, { r with events := events, offset := r.offset + 1 }) ∧
      supply events = ⟨bs, failure?⟩ := by
  rcases nextEvent_supply r.events with ⟨b', rest, hnext, hsupply⟩ | ⟨rest, hnext, hsupply⟩ |
    ⟨f, rest, hnext, hsupply⟩ <;> rw [h] at hsupply
  · simp only [Supply.mk.injEq, List.cons.injEq] at hsupply
    obtain ⟨⟨rfl, rfl⟩, rfl⟩ := hsupply
    exact ⟨rest, by rw [read, hnext], rfl⟩
  · simp at hsupply
  · simp at hsupply

/-- Where no byte is supplied, the read answers what stopped the supply. -/
theorem read_stop (h : supply r.events = ⟨[], failure?⟩) :
    ∃ events, r.read = (failure?.elim .endOfFile .failure, { r with events := events }) := by
  rcases nextEvent_supply r.events with ⟨b', rest, hnext, hsupply⟩ | ⟨rest, hnext, hsupply⟩ |
    ⟨f, rest, hnext, hsupply⟩ <;> rw [h] at hsupply
  · simp at hsupply
  · obtain rfl : failure? = none := congrArg Supply.failure? hsupply
    exact ⟨rest, by rw [read, hnext]; rfl⟩
  · obtain rfl : failure? = some f := congrArg Supply.failure? hsupply
    exact ⟨rest, by rw [read, hnext]; rfl⟩

/-! ## A sequence -/

/-- Bytes that are supplied complete a sequence. -/
theorem complete_ok (start : Nat) (bytes : List UInt8) {missing : Nat}
    (h : supply r.events = ⟨bs, failure?⟩) (hle : missing ≤ bs.length) :
    ∃ events, r.complete start bytes missing
        = (.ok (bytes ++ bs.take missing),
            { r with events := events, offset := r.offset + missing }) ∧
      supply events = ⟨bs.drop missing, failure?⟩ := by
  induction missing generalizing r bytes bs with
  | zero => exact ⟨r.events, by simp [complete], by simpa using h⟩
  | succ missing ih =>
    cases bs with
    | nil => simp at hle
    | cons b bs =>
      obtain ⟨events, hread, hsupply⟩ := read_byte h
      obtain ⟨events', hcomplete, hsupply'⟩ :=
        ih (r := { r with events := events, offset := r.offset + 1 }) (bytes ++ [b]) hsupply
          (Nat.le_of_succ_le_succ hle)
      refine ⟨events', ?_, hsupply'⟩
      -- the byte read is the next of the sequence
      unfold complete
      rw [hread]
      simp only [hcomplete, Prod.mk.injEq, Except.ok.injEq, mk.injEq, true_and, and_true]
      exact ⟨by simp, by omega⟩

/-- What stops the supply within a sequence is the error: a failed read as it
    is, and the end of file as a sequence cut short. -/
theorem complete_error (start : Nat) (bytes : List UInt8) {missing : Nat}
    (h : supply r.events = ⟨bs, failure?⟩) (hlt : bs.length < missing) :
    ∃ events, r.complete start bytes missing
      = (.error (failure?.elim (.malformed (bytes ++ bs) start)
            fun f => .unreadable f (r.offset + bs.length)),
          { r with events := events, offset := r.offset + bs.length }) := by
  induction missing generalizing r bytes bs with
  | zero => simp at hlt
  | succ missing ih =>
    cases bs with
    | nil =>
      obtain ⟨events, hread⟩ := read_stop h
      refine ⟨events, ?_⟩
      unfold complete
      rw [hread, List.append_nil]
      cases failure? <;> rfl
    | cons b bs =>
      obtain ⟨events, hread, hsupply⟩ := read_byte h
      obtain ⟨events', hcomplete⟩ :=
        ih (r := { r with events := events, offset := r.offset + 1 }) (bytes ++ [b]) hsupply
          (Nat.lt_of_succ_lt_succ hlt)
      have hoffset : r.offset + 1 + bs.length = r.offset + (b :: bs).length := by
        rw [List.length_cons]
        omega
      refine ⟨events', ?_⟩
      unfold complete
      rw [hread]
      simp only [hcomplete, hoffset, List.append_assoc, List.singleton_append]

/-! ## One character -/

/-- A character that is supplied is read, and nothing behind it. -/
theorem readChar_decodes {c : Char}
    (h : supply r.events = ⟨String.utf8EncodeChar c ++ bs, failure?⟩) :
    ∃ events, r.readChar
        = (.ok (some c), { r with events := events, offset := r.offset + c.utf8Size }) ∧
      supply events = ⟨bs, failure?⟩ := by
  obtain ⟨first, rest, hchar, hwidth⟩ := Utf8.utf8EncodeChar_eq_cons c
  have hlength : c.utf8Size = rest.length + 1 := by
    rw [← String.length_utf8EncodeChar, hchar, List.length_cons]
  rw [hchar, List.cons_append] at h
  obtain ⟨events, hread, hsupply⟩ := read_byte h
  have hsupplied : rest.length ≤ (rest ++ bs).length := by
    rw [List.length_append]
    exact Nat.le_add_right rest.length bs.length
  obtain ⟨events', hcomplete, hsupply'⟩ :=
    complete_ok r.offset [first] (r := { r with events := events, offset := r.offset + 1 })
      hsupply hsupplied
  -- the bytes read are those of the character, and what is left stands behind them
  rw [List.take_left, List.singleton_append, ← hchar] at hcomplete
  rw [List.drop_left] at hsupply'
  have hdecode : Utf8.decodeChar? (String.utf8EncodeChar c) = some c :=
    Utf8.decodeChar?_eq_some_iff.mpr rfl
  have hmissing : c.utf8Size - 1 = rest.length := by omega
  have hoffset : r.offset + 1 + rest.length = r.offset + c.utf8Size := by omega
  refine ⟨events', ?_, hsupply'⟩
  unfold readChar
  rw [hread]
  simp only [hwidth, hmissing, hcomplete, hdecode, hoffset]

/-- A sequence that is supplied whole and is no character is read whole. -/
theorem readChar_malformed {missing : Nat} (h : supply r.events = ⟨b :: bs, failure?⟩)
    (hwidth : Utf8.announcedWidth b = some (missing + 1)) (hle : missing ≤ bs.length)
    (hchar : ∀ c rest, b :: bs ≠ String.utf8EncodeChar c ++ rest) :
    ∃ events, r.readChar = (.error (.malformed ((b :: bs).take (missing + 1)) r.offset),
      { r with events := events, offset := r.offset + (missing + 1) }) := by
  obtain ⟨events, hread, hsupply⟩ := read_byte h
  obtain ⟨events', hcomplete, _⟩ :=
    complete_ok r.offset [b] (r := { r with events := events, offset := r.offset + 1 }) hsupply hle
  have hbytes : [b] ++ bs.take missing = (b :: bs).take (missing + 1) := rfl
  have hdecode : Utf8.decodeChar? ((b :: bs).take (missing + 1)) = none := by
    -- a character decoded here would start what is supplied
    rw [Option.eq_none_iff_forall_ne_some]
    intro c hc
    have hencode := Utf8.decodeChar?_eq_some_iff.mp hc
    apply hchar c ((b :: bs).drop (missing + 1))
    rw [← hencode, List.take_append_drop]
  have hoffset : r.offset + 1 + missing = r.offset + (missing + 1) := by omega
  refine ⟨events', ?_⟩
  unfold readChar
  rw [hread]
  simp only [hwidth, Nat.add_sub_cancel, hcomplete, hbytes, hdecode, hoffset]

/-- A sequence that is not supplied whole is read as far as it is supplied. -/
theorem readChar_cutShort {missing : Nat} (h : supply r.events = ⟨b :: bs, failure?⟩)
    (hwidth : Utf8.announcedWidth b = some (missing + 1)) (hlt : bs.length < missing) :
    ∃ events, r.readChar
      = (.error (failure?.elim (.malformed (b :: bs) r.offset)
            fun f => .unreadable f (r.offset + (b :: bs).length)),
          { r with events := events, offset := r.offset + (b :: bs).length }) := by
  obtain ⟨events, hread, hsupply⟩ := read_byte h
  obtain ⟨events', hcomplete⟩ :=
    complete_error r.offset [b] (r := { r with events := events, offset := r.offset + 1 })
      hsupply hlt
  have hoffset : r.offset + 1 + bs.length = r.offset + (b :: bs).length := by
    rw [List.length_cons]
    omega
  refine ⟨events', ?_⟩
  unfold readChar
  rw [hread]
  simp only [hwidth, Nat.add_sub_cancel, hcomplete, hoffset, List.singleton_append]

/-- A sequence that is no character is read as far as it is supplied. -/
theorem readChar_sequence {w : Nat} (h : supply r.events = ⟨b :: bs, failure?⟩)
    (hstarts : StartsSequence b w) (hchar : ∀ c rest, b :: bs ≠ String.utf8EncodeChar c ++ rest) :
    ∃ events error stop, r.readChar = (.error error, { r with events := events, offset := stop }) ∧
      Outcome r.offset (b :: bs) failure? (some error) stop := by
  have hwidth : Utf8.announcedWidth b = some w :=
    Utf8.announcedWidth_eq_some_iff.mpr (.inr hstarts)
  have hw : 2 ≤ w := by
    rcases hstarts with ⟨_, _, rfl⟩ | ⟨_, _, rfl⟩ | ⟨_, _, rfl⟩ <;> decide
  obtain ⟨missing, rfl⟩ : ∃ missing, w = missing + 1 := ⟨w - 1, by omega⟩
  -- either the sequence is complete and no character, or it is cut short
  by_cases hle : missing ≤ bs.length
  · obtain ⟨events, hread⟩ := readChar_malformed h hwidth hle hchar
    exact ⟨events, _, _, hread, .malformed hstarts (Nat.succ_le_succ hle)⟩
  · obtain ⟨events, hread⟩ := readChar_cutShort h hwidth (Nat.lt_of_not_le hle)
    have hlt : (b :: bs).length < missing + 1 := by
      rw [List.length_cons]
      omega
    refine ⟨events, _, _, hread, ?_⟩
    cases failure? with
    | none => exact .truncated hstarts hlt
    | some f => exact .brokenOff hstarts hlt

/-- Where no character is supplied none is read, with the outcome that the bytes
    there call for. -/
theorem readChar_stops (h : supply r.events = ⟨bs, failure?⟩)
    (hchar : ∀ c rest, bs ≠ String.utf8EncodeChar c ++ rest) :
    ∃ events error? stop, r.readChar
        = (error?.elim (.ok none) .error, { r with events := events, offset := stop }) ∧
      Outcome r.offset bs failure? error? stop := by
  cases bs with
  | nil =>
    obtain ⟨events, hread⟩ := read_stop h
    cases failure? with
    | none => exact ⟨events, none, r.offset, by rw [readChar, hread]; rfl, .decoded⟩
    | some f => exact ⟨events, some _, r.offset, by rw [readChar, hread]; rfl, .unreadable⟩
  | cons b bs =>
    cases hwidth : Utf8.announcedWidth b with
    | none =>
      obtain ⟨events, hread, _⟩ := read_byte h
      refine ⟨events, some _, r.offset + 1, ?_, .stray (Utf8.announcedWidth_eq_none_iff.mp hwidth)⟩
      unfold readChar
      rw [hread]
      simp only [hwidth]
      rfl
    | some w =>
      rcases Utf8.announcedWidth_eq_some_iff.mp hwidth with ⟨hascii, _⟩ | hstarts
      · -- an ASCII byte is a character
        obtain ⟨c, hc⟩ := Utf8.exists_utf8EncodeChar_eq_singleton hascii
        exact absurd (by rw [hc]; rfl) (hchar c bs)
      · obtain ⟨events, error, stop, hread, houtcome⟩ := readChar_sequence h hstarts hchar
        exact ⟨events, some error, stop, hread, houtcome⟩

/-! ## One pull -/

/-- A character that is supplied is delivered. -/
theorem next_decodes {c : Char} (hopen : r.closed = false)
    (h : supply r.events = ⟨String.utf8EncodeChar c ++ bs, failure?⟩) :
    ∃ events, r.next
        = .delivered c { r with events := events, offset := r.offset + c.utf8Size } ∧
      supply events = ⟨bs, failure?⟩ := by
  obtain ⟨events, hread, hsupply⟩ := readChar_decodes h
  exact ⟨events, by rw [next, if_neg (by simp [hopen]), hread], hsupply⟩

/-- Where no character is supplied the stream ends. -/
theorem next_stops (hopen : r.closed = false) (h : supply r.events = ⟨bs, failure?⟩)
    (hchar : ∀ c rest, bs ≠ String.utf8EncodeChar c ++ rest) :
    ∃ events error? stop, r.next
        = .ended { r with
            events := events, offset := stop, closed := true, error? := error?.or r.error? }
          error? ∧
      Outcome r.offset bs failure? error? stop := by
  obtain ⟨events, error?, stop, hread, houtcome⟩ := readChar_stops h hchar
  refine ⟨events, error?, stop, ?_, houtcome⟩
  unfold next
  rw [if_neg (by simp [hopen]), hread]
  cases error? <;> rfl

/-- An open stream delivers a character or ends. -/
theorem next_cases (hopen : r.closed = false) :
    (∃ c events, r.next
      = .delivered c { r with events := events, offset := r.offset + c.utf8Size }) ∨
    (∃ events error? stop, r.next
        = .ended { r with
            events := events, offset := stop, closed := true, error? := error?.or r.error? }
          error? ∧
      Outcome r.offset (supply r.events).bytes (supply r.events).failure? error? stop) := by
  by_cases hchar : ∃ c rest, (supply r.events).bytes = String.utf8EncodeChar c ++ rest
  · obtain ⟨c, rest, hbytes⟩ := hchar
    have hsupply : supply r.events
        = ⟨String.utf8EncodeChar c ++ rest, (supply r.events).failure?⟩ := by
      rw [← hbytes]
    obtain ⟨events, hnext, _⟩ := next_decodes hopen hsupply
    exact .inl ⟨c, events, hnext⟩
  · simp only [not_exists] at hchar
    exact .inr (next_stops hopen rfl hchar)

/-- A delivery reads the bytes of its character. -/
theorem offset_of_delivered {r' : Utf8Reader} {c : Char} (h : r.next = .delivered c r') :
    r'.offset = r.offset + c.utf8Size := by
  have hopen : r.closed = false := by
    rw [Bool.eq_false_iff]
    intro hclosed
    rw [next_of_closed hclosed] at h
    cases h
  rcases next_cases hopen with ⟨d, events, hnext⟩ | ⟨events, error?, stop, hnext, _⟩
  · rw [hnext] at h
    cases h
    rfl
  · rw [hnext] at h
    cases h

/-- Characters that are delivered move the offset by their width. -/
theorem offset_of_delivers {r' : Utf8Reader} {cs : List Char} (h : Delivers r cs r') :
    r'.offset = r.offset + Utf8.width cs := by
  induction h with
  | nil => rfl
  | cons hpull _ ih => rw [ih, offset_of_delivered hpull, Utf8.width, Nat.add_assoc]

/-- An end that leaves no error has read nothing. -/
theorem offset_of_ended {r' : Utf8Reader} {error? : Option StreamError}
    (h : r.next = .ended r' error?) (hnone : r'.error? = none) : r'.offset = r.offset := by
  by_cases hclosed : r.closed = true
  · rw [next_of_closed hclosed] at h
    cases h
    rfl
  · have hopen : r.closed = false := Bool.eq_false_iff.mpr hclosed
    rcases next_cases hopen with ⟨d, events, hnext⟩ | ⟨events, error', stop, hnext, houtcome⟩
    · rw [hnext] at h
      cases h
    · rw [hnext] at h
      cases h
      obtain ⟨rfl, _⟩ := Option.or_eq_none_iff.mp hnone
      exact houtcome.stop_eq

/-! ## Reading to the end -/

/-- An open reader that holds no error delivers the longest text that it is
    supplied with, and then stops as the rest calls for. -/
theorem drain_of_supply {text : List Char} {rest : List UInt8} (hopen : r.closed = false)
    (herror : r.error? = none) (hlongest : Utf8.LongestText (supply r.events).bytes text rest) :
    (drain r).text = text ∧
      Outcome (r.offset + (Utf8.encode text).length) rest (supply r.events).failure?
        (drain r).stream.error? (drain r).stream.offset := by
  induction text generalizing r with
  | nil =>
    have hbytes : (supply r.events).bytes = rest := hlongest.whole
    obtain ⟨events, error?, stop, hnext, houtcome⟩ :=
      next_stops hopen rfl fun c rest' => hbytes ▸ hlongest.not_char c rest'
    rw [drain_of_ended hnext, herror]
    rw [hbytes] at houtcome
    exact ⟨rfl, by simpa using houtcome⟩
  | cons c text ih =>
    have hbytes : supply r.events
        = ⟨String.utf8EncodeChar c ++ (Utf8.encode text ++ rest), (supply r.events).failure?⟩ := by
      rw [← List.append_assoc, ← Utf8.encode_cons, ← hlongest.whole]
    obtain ⟨events, hnext, hsupply⟩ := next_decodes hopen hbytes
    obtain ⟨htext, houtcome⟩ :=
      ih (r := { r with events := events, offset := r.offset + c.utf8Size }) hopen herror
        (by rw [hsupply]; exact hlongest.tail)
    have hoffset : r.offset + c.utf8Size + (Utf8.encode text).length
        = r.offset + (Utf8.encode (c :: text)).length := by
      rw [Utf8.encode_cons, List.length_append, String.length_utf8EncodeChar]
      omega
    rw [drain_of_delivered hnext]
    rw [hsupply, hoffset] at houtcome
    exact ⟨congrArg (c :: ·) htext, houtcome⟩

/-- Whether it holds an error makes no difference to the text. -/
theorem drain_text_of_supply {text : List Char} {rest : List UInt8} (hopen : r.closed = false)
    (hlongest : Utf8.LongestText (supply r.events).bytes text rest) : (drain r).text = text := by
  induction text generalizing r with
  | nil =>
    have hbytes : (supply r.events).bytes = rest := hlongest.whole
    obtain ⟨events, error?, stop, hnext, _⟩ :=
      next_stops hopen rfl fun c rest' => hbytes ▸ hlongest.not_char c rest'
    rw [drain_of_ended hnext]
  | cons c text ih =>
    have hbytes : supply r.events
        = ⟨String.utf8EncodeChar c ++ (Utf8.encode text ++ rest), (supply r.events).failure?⟩ := by
      rw [← List.append_assoc, ← Utf8.encode_cons, ← hlongest.whole]
    obtain ⟨events, hnext, hsupply⟩ := next_decodes hopen hbytes
    have htext := ih (r := { r with events := events, offset := r.offset + c.utf8Size }) hopen
      (by rw [hsupply]; exact hlongest.tail)
    rw [drain_of_delivered hnext]
    exact congrArg (c :: ·) htext

/-- A stream that has ended delivers nothing. -/
theorem drain_text_of_closed (hclosed : r.closed = true) : (drain r).text = [] := by
  have hended : pull r = .ended r none := next_of_closed hclosed
  rw [drain_of_ended hended]

/-- Taking the error leaves the text. -/
theorem drain_text_releaseError (r : Utf8Reader) :
    (drain (releaseError r).2).text = (drain r).text := by
  by_cases hclosed : r.closed = true
  · rw [drain_text_of_closed hclosed, drain_text_of_closed (r := (releaseError r).2) hclosed]
  · have hopen : r.closed = false := Bool.eq_false_iff.mpr hclosed
    obtain ⟨text, rest, hlongest⟩ := Utf8.exists_longestText (supply r.events).bytes
    rw [drain_text_of_supply hopen hlongest,
      drain_text_of_supply (r := (releaseError r).2) hopen hlongest]

/-- **Outcome of every reader**: from the first read to the end, the stream
    delivers the longest text at the start of what the reader supplies. The
    error that it holds afterwards, and the number of bytes that it has read,
    are those that the rest calls for. -/
theorem drain_outcome (events : List ReadEvent) :
    ∃ text rest, Utf8.LongestText (supply events).bytes text rest ∧
      (∀ text' rest', Utf8.LongestText (supply events).bytes text' rest' →
        text' = text ∧ rest' = rest) ∧
      (drain ({ events := events } : Utf8Reader)).text = text ∧
      Outcome (Utf8.encode text).length rest (supply events).failure?
        (releaseError (drain ({ events := events } : Utf8Reader)).stream).1
        (drain ({ events := events } : Utf8Reader)).stream.offset := by
  obtain ⟨text, rest, hlongest⟩ := Utf8.exists_longestText (supply events).bytes
  obtain ⟨htext, houtcome⟩ :=
    drain_of_supply (r := { events := events }) rfl rfl hlongest
  rw [Nat.zero_add] at houtcome
  exact ⟨text, rest, hlongest, fun _ _ h => hlongest.unique h, htext, houtcome⟩

end Utf8Reader

end FloatLang
