import FloatLang.Command.Run
import FloatLang.Proofs.Lexer.Places
import FloatLang.Proofs.Stream.Decoding

/-! # Validity of a Program

  Whether a program is UTF-8 is decided in two ways. Positions of standard input are
  listed while a reader decodes it character by character; everywhere else the whole
  program is decoded first. Both come to the same verdict on every byte string.

  - **Given** (`Given`): the bytes of the program that a run of the command reads.
  - **Verdict** (`Verdict`): what the run leaves behind, told by the longest text at
    the start of the bytes and the rest behind it.

  Main statement: `run_verdict`.
-/

namespace FloatLang.Command

/-! ## Decoding the whole program -/

/-- Reading all bytes gives what is supplied, unless a read fails. -/
theorem readBytes_eq (events : List ReadEvent) :
    readBytes events = (supply events).failure?.elim (.ok (supply events).bytes) .error := by
  fun_induction supply events with
  | case1 => rfl
  | case2 b rest ih =>
    rw [readBytes, ih]
    cases (supply rest).failure? <;> rfl
  | case3 rest => rfl
  | case4 f rest hinterrupted ih => rw [readBytes, if_pos hinterrupted, ih]
  | case5 f rest hfailed => rw [readBytes, if_neg hfailed]; rfl

variable {bytes rest : List UInt8} {text : List Char}

/-- The bytes are a text when their longest text leaves no rest. -/
theorem rest_eq_nil_iff (h : Utf8.LongestText bytes text rest) :
    rest = [] ↔ ∃ whole, bytes = Utf8.encode whole := by
  constructor
  · rintro rfl
    exact ⟨text, by rw [h.whole, List.append_nil]⟩
  · rintro ⟨whole, hwhole⟩
    -- no text of all the bytes is longer than the longest
    have hle := h.longest whole [] (by rw [List.append_nil, hwhole])
    rw [← hwhole, h.whole, List.length_append] at hle
    exact List.eq_nil_of_length_eq_zero (by omega)

/-- Just then they are decoded as a whole, to that text. -/
theorem decode?_of_longestText (h : Utf8.LongestText bytes text rest) :
    Utf8.decode? bytes = if rest = [] then some (String.ofList text) else none := by
  by_cases hrest : rest = []
  · rw [if_pos hrest, Utf8.decode?_eq_some_iff, String.toList_ofList, h.whole, hrest,
      List.append_nil]
  · rw [if_neg hrest, Option.eq_none_iff_forall_ne_some]
    intro decoded hdecoded
    exact hrest ((rest_eq_nil_iff h).mpr ⟨decoded.toList, Utf8.decode?_eq_some_iff.mp hdecoded⟩)

/-- So they are when they are read as text. -/
theorem readText_of_supply {events : List ReadEvent} (hsupply : supply events = ⟨bytes, none⟩)
    (hlongest : Utf8.LongestText bytes text rest) :
    readText events = if rest = [] then .ok (String.ofList text) else .error notUtf8 := by
  have hread : readBytes events = .ok bytes := by
    rw [readBytes_eq, hsupply]
    rfl
  simp only [readText, hread, bind, Except.bind, decode?_of_longestText hlongest]
  by_cases hrest : rest = [] <;> simp [hrest]

/-! ## Decoding character by character -/

/-- The outcome of listing tokens, with the error that comes up in the end. -/
def listed (entries : List (Token × Position)) (error? : Option StreamError) : Outcome :=
  error?.elim ⟨0, positionListing entries, ""⟩
    fun e => ⟨1, positionListing entries, e.message ++ "\n"⟩

/-- What a lexer lists, with the error that its reader holds in the end. -/
theorem listFrom_eq (l : Lexer Utf8Reader) :
    listFrom l = listed l.tokens.1 l.tokens.2.stream.error? := by
  have herror : l.tokens.2.releaseError.1 = l.tokens.2.stream.error? := rfl
  unfold listFrom
  simp only [herror]
  cases l.tokens.2.stream.error? <;> rfl

/-- The positions of standard input are those of the text that a reader delivers, and
    the error is the one that it holds in the end. -/
theorem listStream_eq (events : List ReadEvent) {d : Drained Utf8Reader}
    (hd : drain ({ events := events } : Utf8Reader) = d) :
    listStream events = listed (Lexer.ofStream d.text).tokens.1 d.stream.error? := by
  unfold listStream
  rw [listFrom_eq, Lexer.stream_tokens_ofStream, Lexer.tokens_ofStream_text, hd]

/-! ## The verdict -/

/-- The bytes of the program reach a run with these options: on standard input, up to
    the end of the file, or as the file that the input names. -/
inductive Given (bytes : List UInt8) (s : Surroundings) (o : Options) : Prop where
  /-- There is no input, and the reads of standard input supply the bytes. -/
  | stdin : o.input? = none → supply s.stdin = ⟨bytes, none⟩ → Given bytes s o
  /-- The input names a file with the bytes. -/
  | file {name : String} : o.input? = some name → o.fromFile = true → s.file? name = some bytes →
      Given bytes s o

/-- Whether positions are listed while standard input is decoded. -/
def Options.streams (o : Options) : Bool :=
  o.input?.isNone && !o.spans

/-- The listing of a text: spans, or one line for each call for a token, with the
    position of its first character, up to the end of input. -/
def listing (spans : Bool) (text : List Char) : String :=
  if spans then spanListing (Located.ofText (String.ofList text))
  else positionListing (Lexer.ofStream text).tokens.1

/-- What is said of a program that is no text and was to be read first. -/
def refusal (o : Options) : String :=
  o.input?.elim (unreadableInput notUtf8) unreadableFile

/-- What a run leaves behind for bytes of which `text` is the longest text, with a rest
    behind it. -/
inductive Verdict (o : Options) (text : List Char) : List UInt8 → Outcome → Prop where
  /-- All is text, and listed. -/
  | valid : Verdict o text [] ⟨0, listing o.spans text, ""⟩
  /-- The text is listed, and the bytes behind it are the error. -/
  | stopped {rest offending : List UInt8} {stop : Nat} :
      o.streams = true → rest ≠ [] →
      FloatLang.Outcome (Utf8.encode text).length rest none
        (some (.malformed offending (Utf8.encode text).length)) stop →
      Verdict o text rest ⟨1, listing false text,
        (StreamError.malformed offending (Utf8.encode text).length).message ++ "\n"⟩
  /-- Nothing is listed. -/
  | refused {rest : List UInt8} :
      o.streams = false → rest ≠ [] → Verdict o text rest ⟨1, "", refusal o⟩

variable {s : Surroundings} {o : Options}

/-- The exit code tells whether there is a rest. -/
theorem Verdict.code_eq_zero_iff {outcome : Outcome} (h : Verdict o text rest outcome) :
    outcome.code = 0 ↔ rest = [] := by
  cases h with
  | valid => exact iff_of_true rfl rfl
  | stopped _ hrest _ => exact iff_of_false Nat.one_ne_zero hrest
  | refused _ hrest => exact iff_of_false Nat.one_ne_zero hrest

/-- A program that is decoded while it is listed. -/
theorem verdict_listStream {events : List ReadEvent} (hstreams : o.streams = true)
    (hsupply : supply events = ⟨bytes, none⟩) (hlongest : Utf8.LongestText bytes text rest) :
    Verdict o text rest (listStream events) := by
  have hspans : o.spans = false := by
    have h := (Bool.and_eq_true_iff.mp hstreams).2
    rwa [Bool.not_eq_true'] at h
  have hbytes : (supply events).bytes = bytes := congrArg Supply.bytes hsupply
  obtain ⟨htext, houtcome⟩ := Utf8Reader.drain_of_supply (r := { events := events }) rfl rfl
    (hbytes ▸ hlongest)
  rw [hsupply, Nat.zero_add] at houtcome
  rw [listStream_eq events rfl, htext]
  rcases houtcome.of_endOfFile with ⟨rfl, herror⟩ | ⟨hrest, offending, herror⟩
  · rw [herror]
    have hvalid : listed (Lexer.ofStream text).tokens.1 none = ⟨0, listing o.spans text, ""⟩ := by
      rw [hspans]
      rfl
    rw [hvalid]
    exact .valid
  · rw [herror] at houtcome ⊢
    exact .stopped hstreams hrest houtcome

/-- A program that is decoded first. -/
theorem readProgram_eq (hgiven : Given bytes s o) (hlongest : Utf8.LongestText bytes text rest) :
    readProgram s o = if rest = [] then .ok (String.ofList text) else .error (refusal o) := by
  unfold readProgram refusal
  cases hgiven with
  | stdin hinput hsupply =>
    rw [hinput]
    simp only [readText_of_supply hsupply hlongest]
    by_cases hrest : rest = [] <;> simp [hrest]
  | file hinput hfile hbytes =>
    rw [hinput]
    simp only [hfile, hbytes, Option.bind_some, decode?_of_longestText hlongest]
    by_cases hrest : rest = [] <;> simp [hrest]

theorem listText_eq (spans : Bool) (text : List Char) :
    listText spans (String.ofList text) = ⟨0, listing spans text, ""⟩ := by
  unfold listText listing
  rw [String.toList_ofList]
  cases spans <;> rfl

/-- What is listed of a program that is given. -/
theorem verdict_list (hgiven : Given bytes s o) (hlongest : Utf8.LongestText bytes text rest) :
    Verdict o text rest (list s o) := by
  cases hstreams : o.streams with
  | true =>
    cases hgiven with
    | stdin _ hsupply =>
      have hif : (o.input?.isNone && !o.spans) = true := hstreams
      rw [list, if_pos hif]
      exact verdict_listStream hstreams hsupply hlongest
    | file hinput _ _ => simp [Options.streams, hinput] at hstreams
  | false =>
    have hif : ¬ (o.input?.isNone && !o.spans) = true := Bool.eq_false_iff.mp hstreams
    rw [list, if_neg hif, readProgram_eq hgiven hlongest]
    by_cases hrest : rest = []
    · simp only [if_pos hrest, listText_eq]
      exact hrest ▸ .valid
    · simp only [if_neg hrest]
      exact .refused hstreams hrest

/-- **One verdict**: whatever way the bytes of a program are given, the run lists their
    longest text, or refuses it where it would have to read the rest first. The exit
    code is 0 in every mode when the bytes are a text, and in no mode when they are
    not. -/
theorem run_verdict {bytes : List UInt8} {arguments : List String} {s : Surroundings}
    {o : Options} (hoptions : Options.ofArguments arguments = .ok o) (hgiven : Given bytes s o) :
    ∃ text rest, Utf8.LongestText bytes text rest ∧
      (∀ text' rest', Utf8.LongestText bytes text' rest' → text' = text ∧ rest' = rest) ∧
      (∃ entries p, (Lexer.ofStream text).tokens.1 = entries ++ [(.endOfInput, p)] ∧
        ∀ entry ∈ entries, entry.1 ≠ .endOfInput) ∧
      Verdict o text rest (run arguments s) ∧
      ((run arguments s).code = 0 ↔ ∃ whole, bytes = Utf8.encode whole) := by
  obtain ⟨text, rest, hlongest⟩ := Utf8.exists_longestText bytes
  have hverdict : Verdict o text rest (run arguments s) := by
    rw [run, hoptions]
    exact verdict_list hgiven hlongest
  refine ⟨text, rest, hlongest, fun _ _ h => hlongest.unique h, Lexer.tokens_eq_append _, hverdict,
    ?_⟩
  rw [hverdict.code_eq_zero_iff, rest_eq_nil_iff hlongest]

/-- A character cut short within a comment, on standard input and in a file. -/
theorem run_verdict_truncated :
    ∃ (bytes : List UInt8) (s : Surroundings) (o : Options),
      bytes = [0x61, 0x23, 0xe2, 0x82] ∧
      o = { fromFile := true, spans := true, input? := some "program" } ∧
      Options.ofArguments [] = .ok {} ∧ Given bytes s {} ∧
      Options.ofArguments ["-sf", "program"] = .ok o ∧ Given bytes s o ∧
      run [] s = ⟨1, "     1:1 identifier a\n     1:3 end of input\n",
        "Error at byte 2: Input is not valid UTF-8: [e2, 82].\n"⟩ ∧
      run ["-sf", "program"] s = ⟨1, "",
        "Failed to read the input file 'program'. Perhaps this file does not exist?\n"⟩ ∧
      (¬ ∃ whole, bytes = Utf8.encode whole) ∧
      ∃ text rest, Utf8.LongestText bytes text rest ∧ Verdict {} text rest (run [] s) ∧
        Verdict o text rest (run ["-sf", "program"] s) := by
  obtain ⟨bytes, hbytes⟩ : ∃ bytes : List UInt8, bytes = [0x61, 0x23, 0xe2, 0x82] := ⟨_, rfl⟩
  obtain ⟨s, hs⟩ : ∃ s : Surroundings, s = ⟨bytes.map .byte, fun _ => some bytes⟩ := ⟨_, rfl⟩
  obtain ⟨o, ho⟩ : ∃ o : Options,
    o = { fromFile := true, spans := true, input? := some "program" } := ⟨_, rfl⟩
  have hoptions : Options.ofArguments ["-sf", "program"] = .ok o := by
    rw [ho]
    rfl
  have hstdin : Given bytes s {} := .stdin rfl (by rw [hs]; exact supply_map_byte bytes)
  have hfile : Given bytes s o := by
    rw [hs, ho]
    exact .file rfl rfl rfl
  have hrun : run [] s = ⟨1, "     1:1 identifier a\n     1:3 end of input\n",
      "Error at byte 2: Input is not valid UTF-8: [e2, 82].\n"⟩ := by
    rw [hs, hbytes]
    decide +kernel
  have hrun' : run ["-sf", "program"] s = ⟨1, "",
      "Failed to read the input file 'program'. Perhaps this file does not exist?\n"⟩ := by
    rw [hs, hbytes]
    decide +kernel
  have hnone : Options.ofArguments [] = .ok {} := rfl
  obtain ⟨text, rest, hlongest, _, _, hverdict, hvalid⟩ := run_verdict hnone hstdin
  obtain ⟨_, _, _, hunique, _, hverdict', _⟩ := run_verdict hoptions hfile
  obtain ⟨rfl, rfl⟩ := hunique text rest hlongest
  have hnot : ¬ ∃ whole, bytes = Utf8.encode whole := by
    rw [← hvalid, hrun]
    exact Nat.one_ne_zero
  exact ⟨bytes, s, o, hbytes, ho, hnone, hstdin, hoptions, hfile, hrun, hrun', hnot, text, rest,
    hlongest, hverdict, hverdict'⟩

end FloatLang.Command
