import FloatLang.Proofs.Text.Digits
import FloatLang.Text.Quoted

/-! # Quoted Text Read Back

  An escaped character tells where it ends and which character it is, whatever comes
  behind it. It is the character itself, a backslash with a letter, or a backslash with a
  code point between braces.

  So does a quoted text, since no character in it is written with the quote first.

  Main statements: `escaped_append_inj` and `quoted_append_inj`.
-/

namespace FloatLang

/-- The character that a backslash and a letter stand for. A quote and a backslash stand
    for themselves. -/
def unescaped : Char → Char
  | '0' => '\x00'
  | 't' => '\t'
  | 'n' => '\n'
  | 'r' => '\r'
  | c => c

/-- How a character may be written. -/
inductive Escape (c : Char) : List Char → Prop where
  /-- As it is. -/
  | plain : c ≠ '\\' → Escape c [c]
  /-- By a backslash and a letter. -/
  | letter {l : Char} : l ≠ 'u' → unescaped l = c → Escape c ['\\', l]
  /-- By its code point. -/
  | code : Escape c (codeEscape c)

/-- Every escaped character is written in one of these ways. -/
theorem escape_escaped {quote : Char} (hquote : quote.isAlphanum = false) (c : Char) :
    Escape c (escaped quote c) := by
  unfold escaped
  split
  · next h => exact .letter (by decide) h.symm
  split
  · next h => exact .letter (by decide) h.symm
  split
  · next h => exact .letter (by decide) h.symm
  split
  · next h => exact .letter (by decide) h.symm
  split
  · next h =>
    have hc : c.isAlphanum = false := by
      rw [Bool.or_eq_true, decide_eq_true_eq, decide_eq_true_eq] at h
      rcases h with rfl | rfl
      · decide
      · exact hquote
    have hne {l : Char} (hl : l.isAlphanum = true) : c ≠ l := by
      rintro rfl
      rw [hl] at hc
      cases hc
    -- no letter stands for a quote or a backslash
    have hself : unescaped c = c := by
      unfold unescaped
      split
      · exact absurd rfl (hne (by decide))
      · exact absurd rfl (hne (by decide))
      · exact absurd rfl (hne (by decide))
      · exact absurd rfl (hne (by decide))
      · rfl
    exact .letter (hne (by decide)) hself
  · next h =>
    split
    · exact .code
    · rw [Bool.or_eq_true, decide_eq_true_eq, not_or] at h
      exact .plain h.1

/-- The code point ends at its brace. -/
theorem codeEscape_append_inj {c d : Char} {x y : List Char}
    (h : codeEscape c ++ x = codeEscape d ++ y) : c = d ∧ x = y := by
  have hbody : Nat.toDigits 16 c.toNat ++ '\x7d' :: x = Nat.toDigits 16 d.toNat ++ '\x7d' :: y := by
    simpa [codeEscape] using h
  obtain ⟨hsame, hrest⟩ := toDigits_append_inj (by decide) (by decide) (by decide) hbody
  exact ⟨Char.toNat_inj.mp hsame, hrest⟩

/-- Two ways of writing that start alike write the same, and end alike. -/
theorem Escape.append_inj {c d : Char} {a b x y : List Char} (hc : Escape c a) (hd : Escape d b)
    (h : a ++ x = b ++ y) : c = d ∧ x = y := by
  cases hc with
  | plain hc =>
    cases hd with
    | plain _ => exact List.cons.inj h
    | letter _ _ => exact absurd (List.cons.inj h).1 hc
    | code => exact absurd (List.cons.inj h).1 hc
  | letter hl hlc =>
    cases hd with
    | plain hd => exact absurd (List.cons.inj h).1.symm hd
    | letter hk hkd =>
      obtain ⟨rfl, hrest⟩ := List.cons.inj (List.cons.inj h).2
      exact ⟨hlc.symm.trans hkd, hrest⟩
    | code => exact absurd (List.cons.inj (List.cons.inj h).2).1 hl
  | code =>
    cases hd with
    | plain hd => exact absurd (List.cons.inj h).1.symm hd
    | letter hk _ => exact absurd (List.cons.inj (List.cons.inj h).2).1.symm hk
    | code => exact codeEscape_append_inj h

/-- **Read back**: an escaped character is told whatever comes behind it. -/
theorem escaped_append_inj {quote : Char} (hquote : quote.isAlphanum = false) {c d : Char}
    {x y : List Char} (h : escaped quote c ++ x = escaped quote d ++ y) : c = d ∧ x = y :=
  (escape_escaped hquote c).append_inj (escape_escaped hquote d) h

/-- Within quotes nothing is written that starts with the quote. -/
theorem exists_escaped_eq_cons {quote : Char} (hquote : quote ≠ '\\') (c : Char) :
    ∃ d rest, escaped quote c = d :: rest ∧ d ≠ quote := by
  unfold escaped
  split
  · exact ⟨_, _, rfl, hquote.symm⟩
  split
  · exact ⟨_, _, rfl, hquote.symm⟩
  split
  · exact ⟨_, _, rfl, hquote.symm⟩
  split
  · exact ⟨_, _, rfl, hquote.symm⟩
  split
  · exact ⟨_, _, rfl, hquote.symm⟩
  · next hplain =>
    split
    · exact ⟨_, _, rfl, hquote.symm⟩
    · -- a character that is written as it is, is not the quote
      rw [Bool.or_eq_true, decide_eq_true_eq, decide_eq_true_eq, not_or] at hplain
      exact ⟨_, _, rfl, hplain.2⟩

section quoted
variable {quote : Char} (hquote : quote.isAlphanum = false) (hmark : quote ≠ '\\')
include hquote hmark

/-- The quote behind escaped characters is the one that closes them. -/
theorem flatMap_escaped_append_inj {cs ds x y : List Char}
    (h : cs.flatMap (escaped quote) ++ quote :: x = ds.flatMap (escaped quote) ++ quote :: y) :
    cs = ds ∧ x = y := by
  have hclosed {c : Char} {rest z : List Char} : quote :: z ≠ escaped quote c ++ rest := by
    obtain ⟨d, tail, hescaped, hne⟩ := exists_escaped_eq_cons hmark c
    rw [hescaped, List.cons_append]
    exact fun heq => hne (List.cons.inj heq).1.symm
  induction cs generalizing ds with
  | nil =>
    cases ds with
    | nil => exact ⟨rfl, (List.cons.inj h).2⟩
    | cons d ds =>
      rw [List.flatMap_cons, List.append_assoc] at h
      exact absurd h hclosed
  | cons c cs ih =>
    cases ds with
    | nil =>
      rw [List.flatMap_cons, List.append_assoc] at h
      exact absurd h.symm hclosed
    | cons d ds =>
      rw [List.flatMap_cons, List.flatMap_cons, List.append_assoc, List.append_assoc] at h
      obtain ⟨rfl, hbehind⟩ := escaped_append_inj hquote h
      obtain ⟨rfl, hrest⟩ := ih hbehind
      exact ⟨rfl, hrest⟩

/-- **Quoted text** is told whatever comes behind it. -/
theorem quoted_append_inj {cs ds x y : List Char} (h : quoted quote cs ++ x = quoted quote ds ++ y) :
    cs = ds ∧ x = y := by
  simp only [quoted, List.cons_append, List.append_assoc] at h
  exact flatMap_escaped_append_inj hquote hmark (List.cons.inj h).2

end quoted

/-- A character between quotes is told whatever comes behind them. -/
theorem quotedChar_append_inj {c d : Char} {x y : List Char}
    (h : (quotedChar c).toList ++ x = (quotedChar d).toList ++ y) : c = d ∧ x = y := by
  rw [quotedChar, quotedChar, String.toList_ofList, String.toList_ofList] at h
  obtain ⟨hsame, hrest⟩ := quoted_append_inj (by decide) (by decide) h
  exact ⟨(List.cons.inj hsame).1, hrest⟩

/-- Different characters are different between quotes. -/
theorem quotedChar_inj {c d : Char} (h : quotedChar c = quotedChar d) : c = d := by
  have hlist : (quotedChar c).toList ++ [] = (quotedChar d).toList ++ [] := by rw [h]
  exact (quotedChar_append_inj hlist).1

/-- A name between quotes is told as well. -/
theorem quotedName_append_inj {s t : String} {x y : List Char}
    (h : (quotedName s).toList ++ x = (quotedName t).toList ++ y) : s = t ∧ x = y := by
  rw [quotedName, quotedName, String.toList_ofList, String.toList_ofList] at h
  obtain ⟨hsame, hrest⟩ := quoted_append_inj (by decide) (by decide) h
  exact ⟨String.toList_inj.mp hsame, hrest⟩

end FloatLang
