import FloatLang.Proofs.Binary64.Text

/-! # Positional Notation

  Doubles of ordinary size are written without an exponent, as digits on either side of a
  point. What is written is a literal, and the double is the one nearest to its value, so
  that it is read back to the last bit.

  - **Ordinary** (`Binary64.Ordinary`): zero, and whatever is at least a ten-thousandth
    and below ten to the sixteenth.
  - **Pointed** (`Pointed`): digits, a point, and digits again.

  Main statements: `pointed_sizeText` and `numeralValue_sizeText`.
-/

namespace FloatLang

/-! ## Literals with a point -/

/-- Digits on either side of a point. -/
inductive Pointed : List Char → Prop where
  /-- There is a digit before the point, and one behind it. -/
  | intro {whole fraction : List Char} :
      whole ≠ [] → (∀ c ∈ whole, c.isDigit = true) →
      fraction ≠ [] → (∀ c ∈ fraction, c.isDigit = true) →
      Pointed (whole ++ '.' :: fraction)

namespace Pointed

variable {text : List Char} (h : Pointed text)
include h

/-- It is a literal. -/
theorem isLiteral : IsLiteral text := by
  obtain ⟨_, hwhole, _, hfraction⟩ := h
  exact .pointed hwhole hfraction

/-- It starts with a digit. -/
theorem head_isDigit : ∃ c rest, text = c :: rest ∧ c.isDigit = true := by
  obtain ⟨hne, hwhole, _, _⟩ := h
  obtain ⟨c, rest, rfl⟩ := List.exists_cons_of_ne_nil hne
  exact ⟨c, _, rfl, hwhole c List.mem_cons_self⟩

theorem isNumeral_of_mem : ∀ c ∈ text, isNumeral c = true := by
  obtain ⟨_, hwhole, _, hfraction⟩ := h
  have hdigit {c : Char} (hc : c.isDigit = true) : isNumeral c = true := by
    rw [isNumeral, hc, Bool.true_or]
  intro c hc
  rcases List.mem_append.mp hc with hmem | hmem
  · exact hdigit (hwhole c hmem)
  · rcases List.mem_cons.mp hmem with rfl | hmem
    · decide
    · exact hdigit (hfraction c hmem)

/-- It is read as the double nearest to its value. -/
theorem rounded : Binary64.Rounded (literalValue text) (numeralValue text) := by
  obtain ⟨c, rest, rfl, hc⟩ := h.head_isDigit
  exact h.isLiteral.rounded ⟨c, List.mem_cons_self, hc⟩

/-- As a lexeme it is a number. -/
theorem isLexeme : IsLexeme text := by
  have hnumeral := h.isNumeral_of_mem
  obtain ⟨c, rest, rfl, _⟩ := h.head_isDigit
  obtain ⟨hc, hrest⟩ := List.forall_mem_cons.mp hnumeral
  exact .numeral hc hrest

theorem ofLexeme_eq : Token.ofLexeme text = .number (numeralValue text) := by
  have hnumeral := h.isNumeral_of_mem
  obtain ⟨c, rest, rfl, _⟩ := h.head_isDigit
  have hc : isNumeral c = true := hnumeral c List.mem_cons_self
  rw [Token.ofLexeme, if_neg (not_isAlpha_of_isNumeral hc), if_pos hc, Token.ofNumeral]

end Pointed

namespace Decimal

variable {d : Decimal}

/-- Only nothing is written without a digit. -/
theorem digits_ne_nil (h : d.value ≠ 0) : d.digits ≠ [] := by
  intro hnil
  rw [value_eq, hnil, fractionValue, zero_mul] at h
  exact h rfl

/-- **Positional notation** has digits on either side of its point. -/
theorem pointed_positional (h : d.digits ≠ []) : Pointed d.positional := by
  have hdigits : ∀ c ∈ d.digits, c.isDigit = true := fun c hc => d.isDigit_of_mem_digits hc
  have hzero : ∀ c ∈ ['0'], c.isDigit = true := by simp
  have hzeros (n : ℕ) : ∀ c ∈ List.replicate n '0', c.isDigit = true := by
    intro c hc
    rw [List.eq_of_mem_replicate hc]
    decide
  have hlength : 0 < d.digits.length := List.length_pos_iff.mpr h
  rw [positional]
  split
  · next hpoint =>
    -- zeros may stand between the point and the digits
    have hne : List.replicate (-d.point).toNat '0' ++ d.digits ≠ [] :=
      List.append_ne_nil_of_right_ne_nil _ h
    exact .intro (List.cons_ne_nil _ _) hzero hne
      (List.forall_mem_append.mpr ⟨hzeros _, hdigits⟩)
  · next hpoint =>
    split
    · next hlt =>
      rw [List.append_assoc, List.singleton_append]
      have hwhole : d.digits.take d.point.toNat ≠ [] := by
        rw [← List.length_pos_iff, List.length_take]
        omega
      have hfraction : d.digits.drop d.point.toNat ≠ [] := by
        rw [← List.length_pos_iff, List.length_drop]
        omega
      exact .intro hwhole (fun c hc => hdigits c (List.mem_of_mem_take hc)) hfraction
        (fun c hc => hdigits c (List.mem_of_mem_drop hc))
    · next hge =>
      have hwhole : d.digits ++ List.replicate (d.point.toNat - d.digits.length) '0' ≠ [] :=
        List.append_ne_nil_of_left_ne_nil h _
      exact .intro hwhole (List.forall_mem_append.mpr ⟨hdigits, hzeros _⟩)
        (List.cons_ne_nil _ _) hzero

end Decimal

namespace Binary64

variable {v : Binary64}

/-! ## Ordinary size -/

/-- Zero, or at least a ten-thousandth and below ten to the sixteenth. -/
structure Ordinary (v : Binary64) : Prop where
  /-- It stands for a number. -/
  isFinite : v.IsFinite
  /-- The size of the number. -/
  size : v.toRat = 0 ∨ 1 / 10 ^ 4 ≤ v.toRat ∧ v.toRat < 10 ^ 16

/-- A fraction and a magnitude are compared in units. -/
theorem ratio_le_valueOf_iff {n d : ℕ} (hd : 0 < d) (m : ℕ) :
    (n / d : ℚ) ≤ valueOf m ↔ n * unitsPerOne ≤ unitsOf m * d := by
  have hd' : (0 : ℚ) < d := Nat.cast_pos.mpr hd
  rw [valueOf, div_le_div_iff₀ hd' unitsPerOne_pos, ← Nat.cast_mul, ← Nat.cast_mul, Nat.cast_le]

/-- The least magnitude that a fraction does not pass tells which others it does not. -/
theorem ratio_le_valueOf_iff_le {n d least : ℕ} (hd : 0 < d)
    (hat : n * unitsPerOne ≤ unitsOf least * d)
    (hbelow : unitsOf (least - 1) * d < n * unitsPerOne) (m : ℕ) :
    (n / d : ℚ) ≤ valueOf m ↔ least ≤ m := by
  rw [ratio_le_valueOf_iff hd]
  constructor
  · intro hle
    by_contra hlt
    have hmono : unitsOf m ≤ unitsOf (least - 1) := unitsOf_strictMono.monotone (by omega)
    exact absurd hle (Nat.not_le.mpr
      (Nat.lt_of_le_of_lt (Nat.mul_le_mul_right d hmono) hbelow))
  · intro hle
    exact hat.trans (Nat.mul_le_mul_right d (unitsOf_strictMono.monotone hle))

/-- The double nearest to a ten-thousandth is the least that is not below it. -/
theorem leastPositional_le_iff (m : ℕ) :
    leastPositional.magnitude ≤ m ↔ 1 / 10 ^ 4 ≤ valueOf m := by
  have hat : 1 * unitsPerOne ≤ unitsOf leastPositional.magnitude * 10000 := by decide +kernel
  have hbelow : unitsOf (leastPositional.magnitude - 1) * 10000 < 1 * unitsPerOne := by
    decide +kernel
  rw [← ratio_le_valueOf_iff_le (by decide) hat hbelow]
  norm_num

/-- Ten to the sixteenth is a double. -/
theorem positionalBound_le_iff (m : ℕ) :
    positionalBound.magnitude ≤ m ↔ 10 ^ 16 ≤ valueOf m := by
  have hat : 10000000000000000 * unitsPerOne ≤ unitsOf positionalBound.magnitude * 1 := by
    decide +kernel
  have hbelow : unitsOf (positionalBound.magnitude - 1) * 1 < 10000000000000000 * unitsPerOne := by
    decide +kernel
  rw [← ratio_le_valueOf_iff_le Nat.one_pos hat hbelow]
  norm_num

section unsigned
variable (hunsigned : v.isNegative = false)
include hunsigned

/-- **Ordinary size** is what is written in positional notation. -/
theorem ordinary_iff_isPositional : v.Ordinary ↔ v.isPositional = true := by
  have hvalue := toRat_of_unsigned hunsigned
  have hzero : v.toRat = 0 ↔ v.isZero = true := by
    rw [hvalue, isZero, beq_iff_eq, ← valueOf_strictMono.injective.eq_iff, valueOf_zero]
  have hrange : 1 / 10 ^ 4 ≤ v.toRat ∧ v.toRat < 10 ^ 16 ↔
      leastPositional.magnitude ≤ v.magnitude ∧ v.magnitude < positionalBound.magnitude := by
    rw [hvalue, ← leastPositional_le_iff, ← not_le, ← positionalBound_le_iff, Nat.not_le]
  have hpositional : v.isPositional = true ↔
      v.toRat = 0 ∨ 1 / 10 ^ 4 ≤ v.toRat ∧ v.toRat < 10 ^ 16 := by
    rw [hzero, hrange, isPositional, Bool.or_eq_true, Bool.and_eq_true, decide_eq_true_eq,
      decide_eq_true_eq]
  constructor
  · intro h
    exact hpositional.mpr h.size
  · intro h
    have hsize := hpositional.mp h
    refine ⟨?_, hsize⟩
    have hbound : positionalBound.magnitude < infinityMagnitude := by decide +kernel
    rcases hsize with heq | hwithin
    · have hmagnitude : v.magnitude = 0 := beq_iff_eq.mp (hzero.mp heq)
      rw [IsFinite, hmagnitude]
      exact Nat.zero_lt_of_lt hbound
    · exact (hrange.mp hwithin).2.trans hbound

/-! ## What is written -/

variable (h : v.Ordinary)
include h

/-- **Pointed**: a double of ordinary size is written with a point among its digits. -/
theorem pointed_sizeText : Pointed v.sizeText := by
  have hfinite : ¬ v.isInfinite = true := by
    rw [isInfinite, beq_iff_eq]
    exact Nat.ne_of_lt h.isFinite
  rw [sizeText, if_neg hfinite]
  split
  · have hzero : ∀ c ∈ ['0'], c.isDigit = true := by simp
    exact .intro (List.cons_ne_nil _ _) hzero (List.cons_ne_nil _ _) hzero
  · next hnonzero =>
    rw [if_pos ((ordinary_iff_isPositional hunsigned).mp h)]
    apply Decimal.pointed_positional
    apply Decimal.digits_ne_nil
    -- a decimal of nothing would be rounded to zero
    intro hnothing
    have hrounded := rounded_shortest h.isFinite
    have hzero := rounded_valueOf (m := 0) (by decide)
    rw [hnothing, ofMagnitude_magnitude hunsigned] at hrounded
    rw [valueOf_zero] at hzero
    rw [hrounded.unique hzero] at hnonzero
    exact hnonzero (by decide)

/-- **Read back**: what is written of a double of ordinary size is read as the double. -/
theorem numeralValue_sizeText : numeralValue v.sizeText = v := by
  have hpointed := pointed_sizeText hunsigned h
  obtain ⟨x?, hsays, hsized⟩ := says_sizeText (decide_eq_false (Nat.lt_asymm h.isFinite))
  -- a text of digits and a point says its value, and nothing else
  obtain rfl := hsays.unique (.literal hpointed.isNumeral_of_mem)
  cases hsized with
  | finite _ hrounded =>
    rw [ofMagnitude_magnitude hunsigned] at hrounded
    exact hpointed.rounded.unique hrounded

end unsigned

end Binary64

end FloatLang
