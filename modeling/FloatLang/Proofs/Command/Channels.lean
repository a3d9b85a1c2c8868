import Mathlib.Data.List.Forall2
import FloatLang.Proofs.Command.Listing
import FloatLang.Proofs.Command.Validity

/-! # Channels of a Program

  A program is handed to the command as an argument, in a file or on standard input.
  The channel makes no difference to what a run leaves behind, and the two listings
  of a program go hand in hand.

  - **Channels** (`Channel`): the ways to hand over a program, each with arguments
    that ask for it.
  - **Rows** (`SameRows`): two listings with the same tokens on the same lines.

  Main statement: `run_channel`.
-/

namespace FloatLang.Command

/-! ## Channels -/

/-- The ways to hand a program to the command. -/
inductive Channel where
  /-- The program is the input. -/
  | argument
  /-- The input names a file with the program. -/
  | file (name : String)
  /-- There is no input, and the program is on standard input. -/
  | stdin
  deriving DecidableEq, Repr, Inhabited

namespace Channel

/-- The options that ask for a program through the channel. -/
def options (text : String) (spans : Bool) : Channel → Options
  | argument => { spans, input? := some text }
  | file name => { fromFile := true, spans, input? := some name }
  | stdin => { spans }

/-- Arguments that ask for a program through the channel. -/
def arguments (text : String) (spans : Bool) (channel : Channel) : List String :=
  (if spans then ["-s"] else []) ++
    match channel with
    | argument => ["--", text]
    | file name => ["-f", "--", name]
    | stdin => []

/-- What is found at the other end of the channel are the bytes of the program. -/
def Holds (text : String) (s : Surroundings) : Channel → Prop
  | argument => True
  | file name => s.file? name = some (Utf8.encode text.toList)
  | stdin => supply s.stdin = ⟨Utf8.encode text.toList, none⟩

/-- The arguments ask for the options. -/
theorem ofArguments_arguments (text : String) (spans : Bool) (channel : Channel) :
    Options.ofArguments (channel.arguments text spans) = .ok (channel.options text spans) := by
  cases channel <;> cases spans <;> rfl

end Channel

/-- A text is the longest text of its own bytes. -/
theorem longestText_encode (text : List Char) :
    Utf8.LongestText (Utf8.encode text) text [] := by
  obtain ⟨text', rest, hlongest⟩ := Utf8.exists_longestText (Utf8.encode text)
  obtain rfl : rest = [] := (rest_eq_nil_iff hlongest).mpr ⟨text, rfl⟩
  have hwhole := hlongest.whole
  rw [List.append_nil] at hwhole
  rwa [← Utf8.LongestText.encode_inj hwhole] at hlongest

/-- Bytes that are a text are listed. -/
theorem list_of_given {text : List Char} {s : Surroundings} {o : Options}
    (hgiven : Given (Utf8.encode text) s o) : list s o = ⟨0, listing o.spans text, ""⟩ := by
  have hverdict := verdict_list hgiven (longestText_encode text)
  generalize list s o = outcome at hverdict ⊢
  cases hverdict with
  | valid => rfl
  | stopped _ hrest _ => exact absurd rfl hrest
  | refused _ hrest => exact absurd rfl hrest

/-- A program is listed, whatever its channel. -/
theorem list_of_holds {text : String} {s : Surroundings} {channel : Channel}
    (hholds : channel.Holds text s) (spans : Bool) :
    list s (channel.options text spans) = ⟨0, listing spans text.toList, ""⟩ := by
  cases channel with
  | argument =>
    have hlisted := listText_eq spans text.toList
    rw [String.ofList_toList] at hlisted
    exact hlisted
  | file name => exact list_of_given (.file rfl rfl hholds)
  | stdin => exact list_of_given (.stdin rfl hholds)

/-! ## Rows -/

/-- Two lines about the same token on the same line of a program. One gives its
    position and the other its span. -/
def SameRow (positions spans : List Char) : Prop :=
  ∃ (token : Token) (position : Position) (span : Span),
    positions = (alignRight 8 position.describe ++ " " ++ token.describe).toList ∧
    spans = (alignRight 4 (toString position.line) ++ " " ++ alignRight 10 span.describe ++ " "
      ++ token.describe).toList

/-- Two listings, each of closed lines, that go hand in hand. -/
def SameRows (positions spans : String) : Prop :=
  ∃ rows rows', positions.toList.splitOn '\n' = rows ++ [[]] ∧
    spans.toList.splitOn '\n' = rows' ++ [[]] ∧ List.Forall₂ SameRow rows rows'

/-- Positions are listed from place to place. -/
theorem listing_positions (text : List Char) :
    listing false text = positionListing ((places [] text).map Place.positioned) := by
  rw [← Lexer.tokens_ofStream]
  rfl

/-- So are spans. -/
theorem listing_spans (text : List Char) :
    listing true text = spanListing ((places [] text).map Place.located) := by
  have hcut := Located.ofCut_eq_places (Piece.cutting_cut 0 1 text)
  rw [← hcut, listing, if_pos rfl, Located.ofText, String.toList_ofList]

/-- The two listings of a program go hand in hand, since both lexers go through the
    same places. -/
theorem sameRows_listing (text : List Char) :
    SameRows (listing false text) (listing true text) := by
  rw [listing_positions, listing_spans]
  refine ⟨_, _, splitOn_positionListing text, splitOn_spanListing text, ?_⟩
  rw [List.forall₂_map_left_iff, List.forall₂_map_right_iff, List.forall₂_same]
  intro p _
  exact ⟨.ofLexeme p.lexeme, p.positioned.2, p.located.span, rfl, rfl⟩

/-! ## The channel makes no difference -/

/-- **Any channel**: a program is listed in full, with nothing on standard error,
    whichever way it is handed over and however the arguments ask for it. Its listing of
    spans has the same tokens on the same lines as its listing of positions. -/
theorem run_channel (text : String) :
    (∀ {channel : Channel} {spans : Bool} {arguments : List String} {s : Surroundings},
      Options.ofArguments arguments = .ok (channel.options text spans) → channel.Holds text s →
      run arguments s = ⟨0, listing spans text.toList, ""⟩) ∧
    (∀ (channel : Channel) (spans : Bool),
      Options.ofArguments (channel.arguments text spans) = .ok (channel.options text spans)) ∧
    SameRows (listing false text.toList) (listing true text.toList) := by
  refine ⟨?_, fun channel spans => Channel.ofArguments_arguments text spans channel,
    sameRows_listing text.toList⟩
  intro channel spans arguments s hoptions hholds
  rw [run, hoptions]
  exact list_of_holds hholds spans

/-- A program with a lone return, whose comment is not closed by a line end, through
    every channel. -/
theorem run_channel_comment :
    ∃ (text : String) (s : Surroundings) (positions spans : Outcome),
      text = "a\r.5#𝄞" ∧
      positions = ⟨0, "     1:1 identifier a\n     2:1 number 0.5\n     2:5 end of input\n", ""⟩ ∧
      spans = ⟨0,
        "   1       0..1 identifier a\n   2       2..4 number 0.5\n   2       9..9 end of input\n",
        ""⟩ ∧
      Channel.Holds text s (.file "program") ∧ Channel.Holds text s .stdin ∧
      run ["--", text] s = positions ∧ run ["-f", "--", "program"] s = positions ∧
      run [] s = positions ∧
      run ["-s", "--", text] s = spans ∧ run ["-sf", "program"] s = spans ∧
      run ["--spans"] s = spans := by
  obtain ⟨text, htext⟩ : ∃ text : String, text = "a\r.5#𝄞" := ⟨_, rfl⟩
  obtain ⟨bytes, hbytes⟩ : ∃ bytes, bytes = Utf8.encode text.toList := ⟨_, rfl⟩
  obtain ⟨s, hs⟩ : ∃ s : Surroundings, s = ⟨bytes.map .byte, fun _ => some bytes⟩ := ⟨_, rfl⟩
  have hfile : Channel.Holds text s (.file "program") := by
    rw [hs, hbytes]
    rfl
  have hstdin : Channel.Holds text s .stdin := by
    rw [hs, hbytes]
    exact supply_map_byte _
  have hargument : Channel.Holds text s .argument := trivial
  have hshort : Options.ofArguments ["-sf", "program"]
      = .ok (Channel.options text true (.file "program")) := rfl
  have hlong : Options.ofArguments ["--spans"] = .ok (Channel.options text true .stdin) := rfl
  obtain ⟨hrun, harguments, _⟩ := run_channel text
  refine ⟨text, s, ⟨0, listing false text.toList, ""⟩, ⟨0, listing true text.toList, ""⟩, htext,
    ?_, ?_, hfile, hstdin, ?_, ?_, ?_, ?_, ?_, ?_⟩
  · rw [htext]
    decide +kernel
  · rw [htext]
    decide +kernel
  · exact hrun (harguments .argument false) hargument
  · exact hrun (harguments (.file "program") false) hfile
  · exact hrun (harguments .stdin false) hstdin
  · exact hrun (harguments .argument true) hargument
  · exact hrun hshort hfile
  · exact hrun hlong hstdin

end FloatLang.Command
