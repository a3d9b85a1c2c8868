import FloatLang.Proofs.Binary64.Positional
import FloatLang.Proofs.Command.ReadBack
import FloatLang.Proofs.Rendering

/-! # Numbers Pasted Back

  The words for a number of ordinary size end in a text that is source again: as a
  program it is that number, to the last bit, and nothing else. So does the row of such a
  number in a listing, whichever way the program was handed over, and whether it is
  positions or spans that are listed.

  - **Restores** (`Restores text v`): the text is a pointed literal with the value `v`, and
    as a program it has no token but that number.
  - **Shown** (`Shown token row`): the row has the token in words behind its place.

  Main statement: `number_restored`.
-/

namespace FloatLang

/-! ## A text that is a number -/

/-- A lexeme alone is a program of one token. -/
theorem tokenize_lexeme {lexeme : List Char} (h : IsLexeme lexeme) :
    tokenize (String.ofList lexeme) = [.ofLexeme lexeme, .endOfInput] := by
  have halone : Spaced.Apart [⟨[], lexeme, .nil, h⟩] := List.isChain_singleton _
  have hplaces := places_render halone (.closed .nil) []
  have hrender : render [⟨[], lexeme, .nil, h⟩] [] = lexeme := List.append_nil lexeme
  rw [hrender] at hplaces
  rw [tokenize_eq_places, String.toList_ofList, hplaces]
  rfl

/-- The text is the number `v`, written with a point. -/
structure Restores (text : List Char) (v : Binary64) : Prop where
  /-- There are digits on either side of the point. -/
  pointed : Pointed text
  /-- It is read as the number. -/
  value : numeralValue text = v
  /-- As a program it is the number. -/
  tokens : tokenize (String.ofList text) = [.number v, .endOfInput]

/-- What is written of a number of ordinary size restores it. -/
theorem restores_sizeText {v : Binary64} (hunsigned : v.isNegative = false) (h : v.Ordinary) :
    Restores v.sizeText v := by
  have hpointed := Binary64.pointed_sizeText hunsigned h
  have hvalue := Binary64.numeralValue_sizeText hunsigned h
  refine ⟨hpointed, hvalue, ?_⟩
  rw [tokenize_lexeme hpointed.isLexeme, hpointed.ofLexeme_eq, hvalue]

/-- So does what stands behind the first of the words for it. -/
theorem exists_restores {v : Binary64} (hunsigned : v.isNegative = false) (h : v.Ordinary) :
    ∃ text, (Token.number v).describe = "number " ++ String.ofList text ∧ Restores text v := by
  have hnumber : v.isNaN = false := decide_eq_false (Nat.lt_asymm h.isFinite)
  refine ⟨v.sizeText, ?_, restores_sizeText hunsigned h⟩
  rw [Token.describe, Binary64.text, hnumber, hunsigned]
  rfl

namespace Command

/-! ## Numbers in a listing -/

/-- The row has the token in words behind its place. -/
def Shown (token : Token) (row : List Char) : Prop :=
  ∃ place, row = place ++ ' ' :: token.describe.toList

/-- The rows of a listing show the tokens one by one. -/
theorem shown_listing (spans : Bool) (text : List Char) :
    ∃ rows, (listing spans text).toList.splitOn '\n' = rows ++ [[]] ∧
      List.Forall₂ (fun p row => Shown (.ofLexeme p.lexeme) row) (places [] text) rows := by
  cases spans with
  | false =>
    rw [listing_positions]
    refine ⟨_, splitOn_positionListing text, ?_⟩
    rw [List.forall₂_map_right_iff, List.forall₂_same]
    exact fun p _ => ⟨_, positionText_eq p.positioned⟩
  | true =>
    rw [listing_spans]
    refine ⟨_, splitOn_spanListing text, ?_⟩
    rw [List.forall₂_map_right_iff, List.forall₂_same]
    intro p _
    rw [spanText_eq, ← List.cons_append, ← List.append_assoc]
    exact ⟨_, rfl⟩

/-- If the token is a number of ordinary size, then what the row ends in restores it. -/
def Pastable (token : Token) (row : List Char) : Prop :=
  ∀ v, token = .number v → v.Ordinary →
    ∃ place text, row = place ++ " number ".toList ++ text ∧ Restores text v

/-- A row that shows the token of a lexeme can be pasted back. -/
theorem Shown.pastable {lexeme row : List Char} (h : Shown (.ofLexeme lexeme) row) :
    Pastable (.ofLexeme lexeme) row := by
  intro v hv hordinary
  obtain ⟨place, rfl⟩ := h
  obtain ⟨_, hunsigned⟩ := Token.plain_ofLexeme lexeme v hv
  obtain ⟨text, hwords, hrestores⟩ := exists_restores hunsigned hordinary
  refine ⟨place, text, ?_, hrestores⟩
  rw [hv, hwords]
  simp

/-- **Pasted back**: the words for a number of ordinary size are `number` and a text that
    restores it. In every listing of every program each number of ordinary size has such
    a text at the end of its row. -/
theorem number_restored :
    (∀ {v : Binary64}, v.isNegative = false → v.Ordinary →
      ∃ text, (Token.number v).describe = "number " ++ String.ofList text ∧ Restores text v) ∧
    (∀ {spans : Bool} {text out : String}, Prints spans text out →
      ∃ rows, out.toList.splitOn '\n' = rows ++ [[]] ∧
        List.Forall₂ Pastable (tokenize text) rows) := by
  refine ⟨exists_restores, ?_⟩
  intro spans text out hprints
  obtain ⟨rows, hrows, hshown⟩ := shown_listing spans text.toList
  refine ⟨rows, ?_, ?_⟩
  · rw [hprints.eq_listing, hrows]
  · rw [tokenize_eq_places, List.forall₂_map_left_iff]
    exact hshown.imp fun _ _ h => h.pastable

/-- A double that needs seventeen digits, and one past the whole numbers that are all
    doubles. Neither is listed as it is spelled. -/
theorem number_restored_digits :
    ∃ (v : Binary64) (text out : String),
      v = ⟨0x3fd3333333333334⟩ ∧
      text = ".300000000000000043-9007199254740995" ∧
      out = "     1:1 number 0.30000000000000004\n    1:20 symbol '-'\n"
        ++ "    1:21 number 9007199254740996.0\n    1:37 end of input\n" ∧
      v.isNegative = false ∧ v.Ordinary ∧ Prints false text out ∧
      tokenize "0.30000000000000004" = [.number v, .endOfInput] ∧
      ∃ rows, out.toList.splitOn '\n' = rows ++ [[]] ∧
        List.Forall₂ Pastable (tokenize text) rows := by
  obtain ⟨v, hv⟩ : ∃ v : Binary64, v = ⟨0x3fd3333333333334⟩ := ⟨_, rfl⟩
  obtain ⟨text, htext⟩ : ∃ text : String, text = ".300000000000000043-9007199254740995" := ⟨_, rfl⟩
  have hunsigned : v.isNegative = false := by
    rw [hv]
    decide +kernel
  have hpositional : v.isPositional = true := by
    rw [hv]
    decide +kernel
  have hordinary : v.Ordinary := (Binary64.ordinary_iff_isPositional hunsigned).mpr hpositional
  have hprints := prints_listing false text
  obtain ⟨hrestored, hlisted⟩ := number_restored
  obtain ⟨shown, hwords, hrestores⟩ := hrestored hunsigned hordinary
  -- the words tell which text it is
  have hshown : "0.30000000000000004" = String.ofList shown := by
    rw [← String.append_right_inj "number ", ← hwords, hv]
    decide +kernel
  refine ⟨v, text, listing false text.toList, hv, htext, ?_, hunsigned, hordinary, hprints, ?_,
    hlisted hprints⟩
  · rw [htext]
    decide +kernel
  · rw [hshown]
    exact hrestores.tokens

end Command

end FloatLang
