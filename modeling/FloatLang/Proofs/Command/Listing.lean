import FloatLang.Command.Listing
import FloatLang.Proofs.Binary64.Characters
import FloatLang.Proofs.Grammar.Tiling
import FloatLang.Proofs.Lexeme.Tiling
import FloatLang.Proofs.Lexer.Places
import FloatLang.Proofs.Text.Digits

/-! # Lines of a Listing

  A listing has one line for each token. No token in words breaks a line, whatever
  character it is: a line feed is a blank, so no name has one, and a quoted character
  is escaped if it would.

  - **One line** (`lineFeed_not_mem_describe`): the token of a lexeme in words has no
    line feed.
  - **Lines** (`splitOn_lines`): texts without a line feed, each closed by one, are the
    lines of what they make together.

  Main statements: `splitOn_positionListing` and `splitOn_spanListing`.
-/

namespace FloatLang

/-! ## Numbers in words -/

/-- No digit is a line feed. -/
theorem lineFeed_not_mem_toDigits {b : Nat} (hb : 1 < b) (hb16 : b ≤ 16) (n : Nat) :
    '\n' ∉ Nat.toDigits b n :=
  not_mem_toDigits hb hb16 (by decide) n

theorem lineFeed_not_mem_text (v : Binary64) : '\n' ∉ v.text.toList :=
  v.not_mem_text (by decide) (by decide) (by decide)

/-! ## Tokens in words -/

/-- A quoted character breaks no line: it is escaped if it would. -/
theorem lineFeed_not_mem_quotedChar (c : Char) : '\n' ∉ (quotedChar c).toList := by
  have hescaped : '\n' ∉ escaped '\'' c := by
    unfold escaped
    split
    · decide
    · split
      · decide
      · split
        · decide
        · next hfeed =>
          have hne : ¬ '\n' = c := fun h => hfeed h.symm
          have hcode : '\n' ∉ codeEscape c := by
            simp [codeEscape, lineFeed_not_mem_toDigits]
          split
          · decide
          · split
            · simp [hne]
            · split
              · exact hcode
              · simp [hne]
  simp [quotedChar, quoted, hescaped]

/-- **One line**: the token of a lexeme in words has no line feed, and neither has the
    end of input. -/
theorem lineFeed_not_mem_describe {lexeme : List Char} (h : lexeme = [] ∨ IsLexeme lexeme) :
    '\n' ∉ (Token.ofLexeme lexeme).describe.toList := by
  rcases h with rfl | h
  · decide
  have hlexeme : '\n' ∉ lexeme := by
    intro hmem
    exact absurd (h.endsLine_eq_false hmem) (by decide)
  have hspells := h.spells
  generalize Token.ofLexeme lexeme = token at hspells
  cases hspells with
  | keyword k => cases k <;> decide
  | identifier => simp [Token.describe, hlexeme]
  | number => simp [Token.describe, lineFeed_not_mem_text]
  | symbol => simp [Token.describe, lineFeed_not_mem_quotedChar]

/-! ## Lines -/

/-- **Lines**: texts without a line feed, each closed by one, are the lines of what they
    make together. Nothing is left open behind the last one. -/
theorem splitOn_lines {α : Type} {f : α → List Char} {xs : List α} (h : ∀ x ∈ xs, '\n' ∉ f x) :
    (xs.flatMap fun x => f x ++ ['\n']).splitOn '\n' = xs.map f ++ [[]] := by
  induction xs with
  | nil => simp
  | cons x xs ih =>
    have hrest : ∀ y ∈ xs, '\n' ∉ f y := fun y hy => h y (List.mem_cons_of_mem x hy)
    rw [List.flatMap_cons, List.append_assoc, List.singleton_append,
      List.splitOn_append_cons_self_of_not_mem (h x List.mem_cons_self), ih hrest, List.map_cons,
      List.cons_append]

namespace Command

/-- The line of a token at a position, without the line feed that closes it. -/
def positionText (entry : Token × Position) : List Char :=
  (alignRight 8 entry.2.describe ++ " " ++ entry.1.describe).toList

/-- The line of a token with its span and line number, without the line feed that
    closes it. -/
def spanText (entry : Located) : List Char :=
  (alignRight 4 (toString entry.line) ++ " " ++ alignRight 10 entry.span.describe ++ " "
    ++ entry.token.describe).toList

theorem toList_positionListing (entries : List (Token × Position)) :
    (positionListing entries).toList = entries.flatMap fun e => positionText e ++ ['\n'] := by
  simp [positionListing, positionLine, positionText, String.toList_join, List.flatMap_map]

theorem toList_spanListing (entries : List Located) :
    (spanListing entries).toList = entries.flatMap fun e => spanText e ++ ['\n'] := by
  simp [spanListing, spanLine, spanText, String.toList_join, List.flatMap_map]

theorem lineFeed_not_mem_alignRight {text : String} (h : '\n' ∉ text.toList) (width : Nat) :
    '\n' ∉ (alignRight width text).toList := by
  simp [alignRight, List.leftpad, h]

section places
variable {lexeme : List Char} (h : lexeme = [] ∨ IsLexeme lexeme)
include h

theorem lineFeed_not_mem_positionText (p : Position) :
    '\n' ∉ positionText (.ofLexeme lexeme, p) := by
  have hdigits := lineFeed_not_mem_toDigits (b := 10) (by decide) (by decide)
  have hposition : '\n' ∉ p.describe.toList := by simp [Position.describe, hdigits]
  simp [positionText, lineFeed_not_mem_alignRight hposition, lineFeed_not_mem_describe h]

theorem lineFeed_not_mem_spanText (span : Span) (line : Nat) :
    '\n' ∉ spanText ⟨.ofLexeme lexeme, span, line⟩ := by
  have hdigits := lineFeed_not_mem_toDigits (b := 10) (by decide) (by decide)
  have hspan : '\n' ∉ span.describe.toList := by simp [Span.describe, hdigits]
  have hline : '\n' ∉ line.repr.toList := by simp [hdigits]
  simp [spanText, lineFeed_not_mem_alignRight hspan, lineFeed_not_mem_alignRight hline,
    lineFeed_not_mem_describe h]

end places

/-- A place holds a lexeme, or is the end of the text. -/
theorem eq_nil_or_isLexeme_of_mem_places {text : List Char} {p : Place}
    (hp : p ∈ places [] text) : p.lexeme = [] ∨ IsLexeme p.lexeme := by
  have htiled : Tiled text [] (places [] text) := tiled_places rfl
  obtain ⟨front, hplaces, hfront⟩ := htiled.ends
  rw [hplaces] at hp
  rcases List.mem_append.mp hp with hmem | hlast
  · exact .inr (hfront p hmem)
  · rw [List.mem_singleton.mp hlast]
    exact .inl rfl

/-- **The lines of positions** are those of the tokens, one for each. -/
theorem splitOn_positionListing (text : List Char) :
    (positionListing ((places [] text).map Place.positioned)).toList.splitOn '\n'
      = (places [] text).map (fun p => positionText p.positioned) ++ [[]] := by
  rw [toList_positionListing, List.flatMap_map]
  apply splitOn_lines
  intro p hp
  exact lineFeed_not_mem_positionText (eq_nil_or_isLexeme_of_mem_places hp) _

/-- **The lines of spans** are those of the tokens, one for each. -/
theorem splitOn_spanListing (text : List Char) :
    (spanListing ((places [] text).map Place.located)).toList.splitOn '\n'
      = (places [] text).map (fun p => spanText p.located) ++ [[]] := by
  rw [toList_spanListing, List.flatMap_map]
  apply splitOn_lines
  intro p hp
  exact lineFeed_not_mem_spanText (eq_nil_or_isLexeme_of_mem_places hp) _ _

end Command

end FloatLang
