import FloatLang.Proofs.Grammar.Munch

/-! # Numbers in Digits

  A number can be read back from its digits, in the bases up to sixteen that digits are
  told apart in. What is no letter and no digit can close a number: none of them has it.

  Main statements: `toDigits_append_inj` and `intRepr_inj`.
-/

namespace FloatLang

/-- Digits are told apart. -/
theorem digitChar_inj {m n : Nat} (hm : m < 16) (hn : n < 16)
    (h : Nat.digitChar m = Nat.digitChar n) : m = n := by
  have hall : ∀ m < 16, ∀ n < 16, Nat.digitChar m = Nat.digitChar n → m = n := by decide
  exact hall m hm n hn h

section toDigits
variable {b : Nat} (hb : 1 < b) (hb16 : b ≤ 16)
include hb hb16

/-- **A number is told by its digits.** -/
theorem toDigits_inj {m n : Nat} (h : Nat.toDigits b m = Nat.toDigits b n) : m = n := by
  induction m using Nat.strongRecOn generalizing n with
  | ind m ih =>
    -- a number below the base has a single digit, and any other more
    have hmore {k : Nat} {c d : Char} : [c] ≠ Nat.toDigits b k ++ [d] := by
      intro hone
      have hlength := congrArg List.length hone
      have hpos := List.length_pos_iff.mpr (Nat.toDigits_ne_nil (n := k) (b := b))
      rw [List.length_append, List.length_singleton, List.length_singleton] at hlength
      omega
    have hfirst := Nat.toDigits_eq_if (n := m) hb
    have hsecond := Nat.toDigits_eq_if (n := n) hb
    rw [hfirst, hsecond] at h
    by_cases hm : m < b
    · by_cases hn : n < b
      · rw [if_pos hm, if_pos hn] at h
        exact digitChar_inj (by omega) (by omega) (List.cons.inj h).1
      · rw [if_pos hm, if_neg hn] at h
        exact absurd h hmore
    · by_cases hn : n < b
      · rw [if_neg hm, if_pos hn] at h
        exact absurd h.symm hmore
      · rw [if_neg hm, if_neg hn] at h
        obtain ⟨hfront, hlast⟩ := List.append_inj' h rfl
        have hquotient := ih (m / b) (Nat.div_lt_self (by omega) hb) hfront
        have hbound (k : Nat) : k % b < 16 := Nat.lt_of_lt_of_le (Nat.mod_lt k (by omega)) hb16
        have hrest := digitChar_inj (hbound m) (hbound n) (List.cons.inj hlast).1
        rw [← Nat.div_add_mod m b, ← Nat.div_add_mod n b, hquotient, hrest]

/-- Digits are letters and decimal digits. -/
theorem isAlphanum_of_mem_toDigits {n : Nat} {c : Char} (hc : c ∈ Nat.toDigits b n) :
    c.isAlphanum = true := by
  have hdigit : ∀ k < 16, (Nat.digitChar k).isAlphanum = true := by decide
  induction n using Nat.strongRecOn with
  | ind n ih =>
    rw [Nat.toDigits_eq_if hb] at hc
    split at hc
    · rw [List.mem_singleton.mp hc]
      exact hdigit n (by omega)
    · rcases List.mem_append.mp hc with hfront | hlast
      · exact ih (n / b) (Nat.div_lt_self (by omega) hb) hfront
      · rw [List.mem_singleton.mp hlast]
        exact hdigit _ (Nat.lt_of_lt_of_le (Nat.mod_lt n (by omega)) hb16)

/-- Anything else is in no number. -/
theorem not_mem_toDigits {c : Char} (hc : c.isAlphanum = false) (n : Nat) :
    c ∉ Nat.toDigits b n := by
  intro hmem
  rw [isAlphanum_of_mem_toDigits hb hb16 hmem] at hc
  cases hc

/-- **A closed number** is told whatever comes behind it. -/
theorem toDigits_append_inj {c : Char} (hc : c.isAlphanum = false) {m n : Nat} {x y : List Char}
    (h : Nat.toDigits b m ++ c :: x = Nat.toDigits b n ++ c :: y) : m = n ∧ x = y := by
  obtain ⟨hsame, hrest⟩ :=
    append_cons_unique h (not_mem_toDigits hb hb16 hc m) (not_mem_toDigits hb hb16 hc n)
  exact ⟨toDigits_inj hb hb16 hsame, hrest⟩

end toDigits

/-- An integer has digits, and a sign at most. -/
theorem not_mem_repr {c : Char} (hc : c.isAlphanum = false) (hsign : c ≠ '-') (i : Int) :
    c ∉ i.repr.toList := by
  have hdigits (n : Nat) : c ∉ Nat.toDigits 10 n :=
    not_mem_toDigits (by decide) (by decide) hc n
  cases i with
  | ofNat n => simp [Int.repr, hdigits]
  | negSucc n => simp [Int.repr, hdigits, hsign]

/-- An integer is told by its sign and its digits. -/
theorem intRepr_inj {i j : Int} (h : i.repr.toList = j.repr.toList) : i = j := by
  have hdecimal {m n : Nat} : Nat.toDigits 10 m = Nat.toDigits 10 n → m = n :=
    toDigits_inj (by decide) (by decide)
  have hsign (n : Nat) (rest : List Char) : Nat.toDigits 10 n ≠ '-' :: rest := by
    intro heq
    have hmem : '-' ∈ Nat.toDigits 10 n := heq ▸ List.mem_cons_self
    exact not_mem_toDigits (by decide) (by decide) (by decide) n hmem
  cases i with
  | ofNat m =>
    cases j with
    | ofNat n =>
      have hdigits : Nat.toDigits 10 m = Nat.toDigits 10 n := by simpa [Int.repr] using h
      rw [hdecimal hdigits]
    | negSucc n =>
      have hdigits : Nat.toDigits 10 m = '-' :: Nat.toDigits 10 (n + 1) := by
        simpa [Int.repr] using h
      exact absurd hdigits (hsign m _)
  | negSucc m =>
    cases j with
    | ofNat n =>
      have hdigits : '-' :: Nat.toDigits 10 (m + 1) = Nat.toDigits 10 n := by
        simpa [Int.repr] using h
      exact absurd hdigits.symm (hsign n _)
    | negSucc n =>
      have hdigits : Nat.toDigits 10 (m + 1) = Nat.toDigits 10 (n + 1) := by
        simpa [Int.repr] using h
      obtain rfl : m = n := Nat.succ.inj (hdecimal hdigits)
      rfl

end FloatLang
