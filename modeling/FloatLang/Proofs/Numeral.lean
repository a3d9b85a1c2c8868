import Mathlib.Data.List.TakeWhile
import FloatLang.Numeral
import FloatLang.Proofs.Binary64.Nearest
import FloatLang.Proofs.Grammar.Seam

/-! # Values of Numerals

  A text is read as the longest literal that it starts with, and a literal as the double
  nearest to the number that it writes in decimal, whatever comes behind it and however
  many digits it has.

  - **Literals** (`IsLiteral`): digits, with one point before, among or behind them at
    most. A point alone is a literal as well, and so is nothing at all.
  - **Decimal value** (`literalValue`): the number that a literal writes, place by place.
  - **Rounded** (`Binary64.Rounded`): the nearest double, with ties to the even one.

  Main statement: `numeralValue_rounded`.
-/

namespace FloatLang

/-! ## Literals -/

/-- Digits with one point at most. -/
inductive IsLiteral : List Char → Prop where
  /-- Without a point. -/
  | whole {digits : List Char} : (∀ c ∈ digits, c.isDigit = true) → IsLiteral digits
  /-- With a point. -/
  | pointed {whole fraction : List Char} :
      (∀ c ∈ whole, c.isDigit = true) → (∀ c ∈ fraction, c.isDigit = true) →
      IsLiteral (whole ++ '.' :: fraction)

/-- The longest literal that a text starts with. -/
structure LongestLiteral (text literal : List Char) : Prop where
  /-- The text starts with it. -/
  isPrefix : literal <+: text
  /-- It is a literal. -/
  isLiteral : IsLiteral literal
  /-- No other is longer. -/
  longest : ∀ other, other <+: text → IsLiteral other → other.length ≤ literal.length

/-- There is only one. -/
theorem LongestLiteral.unique {text literal literal' : List Char}
    (h : LongestLiteral text literal) (h' : LongestLiteral text literal') : literal' = literal := by
  have hle := h.longest literal' h'.isPrefix h'.isLiteral
  have hge := h'.longest literal h.isPrefix h.isLiteral
  exact (List.prefix_of_prefix_length_le h'.isPrefix h.isPrefix hle).eq_of_length
    (Nat.le_antisymm hle hge)

/-- Where the digits before a point end. -/
theorem span_pointed {whole : List Char} (hwhole : ∀ c ∈ whole, c.isDigit = true)
    (rest : List Char) :
    (whole ++ '.' :: rest).takeWhile Char.isDigit = whole ∧
      (whole ++ '.' :: rest).dropWhile Char.isDigit = '.' :: rest := by
  have hpoint : ¬ Char.isDigit '.' = true := by decide
  rw [List.takeWhile_append_of_pos hwhole, List.dropWhile_append_of_pos hwhole,
    List.takeWhile_cons_of_neg hpoint, List.dropWhile_cons_of_neg hpoint, List.append_nil]
  exact ⟨rfl, rfl⟩

/-- The parts of a literal on either side of its point. -/
def Numeral.ofLiteral (literal : List Char) : Numeral where
  whole := literal.takeWhile Char.isDigit
  fraction := (literal.dropWhile Char.isDigit).tail

/-- A literal at the start of a text is made of its first digits, and of those behind a
    point if one is next. -/
theorem IsLiteral.length_le {text literal : List Char} (h : IsLiteral literal)
    (hstarts : literal <+: text) :
    literal.length ≤ (text.takeWhile Char.isDigit).length ∨
      ∃ rest, text.dropWhile Char.isDigit = '.' :: rest ∧
        literal.length
          ≤ (text.takeWhile Char.isDigit).length + 1 + (rest.takeWhile Char.isDigit).length := by
  obtain ⟨behind, rfl⟩ := hstarts
  cases h with
  | whole hdigits => exact .inl (length_le_length_takeWhile hdigits)
  | @pointed whole fraction hwhole hfraction =>
    rw [List.append_assoc, List.cons_append, (span_pointed hwhole _).1, (span_pointed hwhole _).2]
    have hle : fraction.length ≤ ((fraction ++ behind).takeWhile Char.isDigit).length :=
      length_le_length_takeWhile hfraction
    refine .inr ⟨fraction ++ behind, rfl, ?_⟩
    rw [List.length_append, List.length_cons]
    omega

/-- What a text is read as is the longest literal that it starts with. -/
theorem exists_longestLiteral (text : List Char) :
    ∃ literal, LongestLiteral text literal ∧ Numeral.ofChars text = Numeral.ofLiteral literal := by
  have hsplit : text.takeWhile Char.isDigit ++ text.dropWhile Char.isDigit = text :=
    List.takeWhile_append_dropWhile
  have hdigits (cs : List Char) : ∀ c ∈ cs.takeWhile Char.isDigit, c.isDigit = true :=
    fun _ hc => List.mem_takeWhile_imp hc
  by_cases hpoint : ∃ rest, text.dropWhile Char.isDigit = '.' :: rest
  · obtain ⟨rest, hrest⟩ := hpoint
    refine ⟨text.takeWhile Char.isDigit ++ '.' :: rest.takeWhile Char.isDigit, ?_, ?_⟩
    · constructor
      case isPrefix =>
        rw [hrest] at hsplit
        conv_rhs => rw [← hsplit]
        rw [List.prefix_append_right_inj, List.cons_prefix_cons]
        exact ⟨rfl, List.takeWhile_prefix _⟩
      case isLiteral => exact .pointed (hdigits text) (hdigits rest)
      case longest =>
        intro other hstarts hother
        rw [List.length_append, List.length_cons]
        rcases hother.length_le hstarts with hle | ⟨rest', hrest', hle⟩
        · omega
        · obtain rfl : rest' = rest := (List.cons.inj (hrest'.symm.trans hrest)).2
          omega
    · obtain ⟨htake, hdrop⟩ := span_pointed (hdigits text) (rest.takeWhile Char.isDigit)
      rw [Numeral.ofChars, Numeral.ofLiteral, htake, hdrop, hrest]
      rfl
  · refine ⟨text.takeWhile Char.isDigit, ?_, ?_⟩
    · refine ⟨List.takeWhile_prefix _, .whole (hdigits text), ?_⟩
      intro other hstarts hother
      rcases hother.length_le hstarts with hle | ⟨rest, hrest, _⟩
      · exact hle
      · exact absurd ⟨rest, hrest⟩ hpoint
    · have htake : (text.takeWhile Char.isDigit).takeWhile Char.isDigit
          = text.takeWhile Char.isDigit := List.takeWhile_idem
      have hdrop : (text.takeWhile Char.isDigit).dropWhile Char.isDigit = [] :=
        List.dropWhile_eq_nil_iff.mpr (hdigits text)
      rw [Numeral.ofLiteral, htake, hdrop, Numeral.ofChars]
      split
      · next rest hrest => exact absurd ⟨rest, hrest⟩ hpoint
      · rfl

/-- The digits of a literal are those of its two parts. -/
theorem IsLiteral.mem_digits_iff {literal : List Char} (h : IsLiteral literal) {c : Char} :
    c ∈ (Numeral.ofLiteral literal).digits ↔ c ∈ literal ∧ c.isDigit = true := by
  rw [Numeral.digits, Numeral.ofLiteral]
  cases h with
  | whole hdigits =>
    rw [List.dropWhile_eq_nil_iff.mpr hdigits, List.takeWhile_eq_self_iff.mpr hdigits,
      List.tail_nil, List.append_nil]
    exact ⟨fun hc => ⟨hc, hdigits c hc⟩, And.left⟩
  | @pointed whole fraction hwhole hfraction =>
    obtain ⟨htake, hdrop⟩ := span_pointed hwhole fraction
    rw [htake, hdrop, List.tail_cons, List.mem_append, List.mem_append, List.mem_cons]
    constructor
    · rintro (hc | hc)
      · exact ⟨.inl hc, hwhole c hc⟩
      · exact ⟨.inr (.inr hc), hfraction c hc⟩
    · rintro ⟨hc | rfl | hc, hdigit⟩
      · exact .inl hc
      · exact absurd hdigit (by decide)
      · exact .inr hc

/-! ## Decimal values -/

/-- The number that a digit stands for. -/
def digitValue (c : Char) : ℚ := (c.toNat - '0'.toNat : ℕ)

/-- The number of digits before a point: the last counts ones, the one before it tens. -/
def wholeValue : List Char → ℚ
  | [] => 0
  | c :: rest => digitValue c * 10 ^ rest.length + wholeValue rest

/-- The number of digits behind a point: the first counts tenths. -/
def fractionValue : List Char → ℚ
  | [] => 0
  | c :: rest => (digitValue c + fractionValue rest) / 10

/-- The number that a literal writes in decimal. -/
def literalValue (literal : List Char) : ℚ :=
  wholeValue (literal.takeWhile Char.isDigit)
    + fractionValue (literal.dropWhile Char.isDigit).tail

/-- Digits read one by one. -/
theorem ofDigitChars_eq (digits : List Char) (before : ℕ) :
    (Nat.ofDigitChars 10 digits before : ℚ)
      = before * 10 ^ digits.length + wholeValue digits := by
  induction digits generalizing before with
  | nil =>
    rw [Nat.ofDigitChars_nil, List.length_nil, pow_zero, mul_one]
    exact (add_zero _).symm
  | cons c rest ih =>
    have hdigit : ((c.toNat - '0'.toNat : ℕ) : ℚ) = digitValue c := rfl
    rw [Nat.ofDigitChars_cons, ih, List.length_cons, pow_succ, wholeValue, Nat.cast_add,
      Nat.cast_mul, hdigit]
    push_cast
    ring

/-- Behind a point the same digits count for less. -/
theorem wholeValue_eq (digits : List Char) :
    wholeValue digits = fractionValue digits * 10 ^ digits.length := by
  induction digits with
  | nil => exact (zero_mul _).symm
  | cons c rest ih =>
    rw [wholeValue, fractionValue, ih, List.length_cons, pow_succ]
    ring

/-- All digits of a numeral, over the place of the last one. -/
theorem Numeral.ratio_eq (n : Numeral) :
    (Nat.ofDigitChars 10 n.digits 0 : ℚ) / (Nat.pow 10 n.fraction.length : ℕ)
      = wholeValue n.whole + fractionValue n.fraction := by
  have hpos : (0 : ℚ) < 10 ^ n.fraction.length := pow_pos (by norm_num) _
  have hplace : ((Nat.pow 10 n.fraction.length : ℕ) : ℚ) = 10 ^ n.fraction.length := by
    rw [Nat.pow_eq, Nat.cast_pow, Nat.cast_ofNat]
  rw [hplace, div_eq_iff hpos.ne', Numeral.digits, Nat.ofDigitChars_append, ofDigitChars_eq,
    ofDigitChars_eq, wholeValue_eq n.fraction, Nat.cast_zero, zero_mul, zero_add, add_mul]

/-! ## Values -/

/-- A numeral with a digit has the double nearest to it for a value. -/
theorem Numeral.rounded_value {n : Numeral} (h : n.digits ≠ []) :
    Binary64.Rounded (wholeValue n.whole + fractionValue n.fraction) n.value := by
  have hdigits : ¬ n.digits.isEmpty = true := by rwa [List.isEmpty_iff]
  have hpos : 0 < Nat.pow 10 n.fraction.length := Nat.pow_pos (by decide)
  rw [Numeral.value, if_neg hdigits, ← n.ratio_eq]
  exact Binary64.rounded_ofRatio _ hpos

/-- A literal with a digit is read as the double nearest to its value. -/
theorem IsLiteral.rounded {literal : List Char} (h : IsLiteral literal)
    (hdigit : ∃ c ∈ literal, c.isDigit = true) :
    Binary64.Rounded (literalValue literal) (numeralValue literal) := by
  have hself : LongestLiteral literal literal :=
    ⟨List.prefix_rfl, h, fun _ hstarts _ => hstarts.length_le⟩
  obtain ⟨longest, hlongest, hread⟩ := exists_longestLiteral literal
  obtain rfl := hself.unique hlongest
  obtain ⟨c, hmem, hc⟩ := hdigit
  have hdigits : (Numeral.ofLiteral longest).digits ≠ [] :=
    List.ne_nil_of_mem (h.mem_digits_iff.mpr ⟨hmem, hc⟩)
  rw [numeralValue, hread]
  exact Numeral.rounded_value hdigits

/-- **Rounded**: a text is read as the longest literal that it starts with. Without a digit
    that is positive zero, and otherwise the one double that the decimal value of the
    literal is rounded to, whatever comes behind it. Either way the result is a number
    without a sign. -/
theorem numeralValue_rounded (text : List Char) :
    ∃ literal, LongestLiteral text literal ∧
      (∀ other, LongestLiteral text other → other = literal) ∧
      ((∀ c ∈ literal, c.isDigit = false) → numeralValue text = .zero) ∧
      ((∃ c ∈ literal, c.isDigit = true) →
        Binary64.Rounded (literalValue literal) (numeralValue text) ∧
        ∀ v, Binary64.Rounded (literalValue literal) v → v = numeralValue text) ∧
      (numeralValue text).isNaN = false ∧ (numeralValue text).isNegative = false := by
  obtain ⟨literal, hlongest, hread⟩ := exists_longestLiteral text
  have hdigits {c : Char} := hlongest.isLiteral.mem_digits_iff (c := c)
  have hvalue : numeralValue text = (Numeral.ofLiteral literal).value := by
    rw [numeralValue, hread]
  have hzero : (Numeral.ofLiteral literal).digits = [] → numeralValue text = .zero := by
    intro hnil
    rw [hvalue, Numeral.value, if_pos (List.isEmpty_iff.mpr hnil)]
  have hrounded : (Numeral.ofLiteral literal).digits ≠ [] →
      Binary64.Rounded (literalValue literal) (numeralValue text) := by
    intro hne
    rw [hvalue]
    exact Numeral.rounded_value hne
  refine ⟨literal, hlongest, fun other hother => hlongest.unique hother, ?_, ?_, ?_⟩
  · intro hnone
    apply hzero
    rw [List.eq_nil_iff_forall_not_mem]
    intro c hc
    obtain ⟨hmem, hdigit⟩ := hdigits.mp hc
    rw [hnone c hmem] at hdigit
    cases hdigit
  · rintro ⟨c, hmem, hdigit⟩
    have hne := hrounded (List.ne_nil_of_mem (hdigits.mpr ⟨hmem, hdigit⟩))
    exact ⟨hne, fun v hv => hv.unique hne⟩
  · by_cases hnil : (Numeral.ofLiteral literal).digits = []
    · rw [hzero hnil]
      decide
    · exact ⟨(hrounded hnil).isNumber, (hrounded hnil).unsigned⟩

/-- A literal half way between two doubles, with a second point behind it. -/
theorem numeralValue_rounded_tie :
    ∃ text literal : List Char,
      text = ['9', '0', '0', '7', '1', '9', '9', '2', '5', '4', '7', '4', '0', '9', '9', '3',
        '.', '.', '5'] ∧
      literal = ['9', '0', '0', '7', '1', '9', '9', '2', '5', '4', '7', '4', '0', '9', '9', '3',
        '.'] ∧
      LongestLiteral text literal ∧ literalValue literal = 9007199254740993 ∧
      Binary64.Rounded 9007199254740993 (numeralValue text) ∧
      (numeralValue text).units = 9007199254740992 * Binary64.unitsPerOne := by
  obtain ⟨whole, hwhole⟩ : ∃ whole, whole = ['9', '0', '0', '7', '1', '9', '9', '2', '5', '4',
    '7', '4', '0', '9', '9', '3'] := ⟨_, rfl⟩
  have hdigits : ∀ c ∈ whole, c.isDigit = true := by
    rw [hwhole]
    exact List.all_eq_true.mp (by decide)
  have hconcrete : LongestLiteral (whole ++ ['.', '.', '5']) (whole ++ ['.']) := by
    refine ⟨⟨['.', '5'], by rw [hwhole]; rfl⟩, .pointed hdigits (List.forall_mem_nil _), ?_⟩
    intro other hstarts hother
    obtain ⟨htake, hdrop⟩ := span_pointed hdigits ['.', '5']
    have hlength := hother.length_le hstarts
    rw [htake, hdrop] at hlength
    rw [List.length_append]
    rcases hlength with hle | ⟨rest, hrest, hle⟩
    · omega
    · obtain rfl := (List.cons.inj hrest).2
      exact hle
  obtain ⟨literal, hlongest, hunique, _, hrounded, _⟩ :=
    numeralValue_rounded (whole ++ ['.', '.', '5'])
  obtain rfl := hunique _ hconcrete
  have hvalue : literalValue (whole ++ ['.']) = 9007199254740993 := by
    have hread : Nat.ofDigitChars 10 whole 0 = 9007199254740993 := by
      rw [hwhole]
      rfl
    have hcast := ofDigitChars_eq whole 0
    obtain ⟨htake, hdrop⟩ := span_pointed hdigits []
    rw [hread, Nat.cast_zero, zero_mul, zero_add] at hcast
    rw [literalValue, htake, hdrop, ← hcast, List.tail_cons, fractionValue, add_zero]
    exact Nat.cast_ofNat
  have hdigit : ∃ c ∈ whole ++ ['.'], c.isDigit = true := ⟨'9', by rw [hwhole]; decide, by decide⟩
  have hnearest := (hrounded hdigit).1
  rw [hvalue] at hnearest
  refine ⟨_, _, by rw [hwhole]; rfl, by rw [hwhole]; rfl, hlongest, hvalue, hnearest, ?_⟩
  rw [hwhole]
  decide +kernel

end FloatLang
