import FloatLang.Proofs.Binary64.Characters
import FloatLang.Proofs.Binary64.Shortest
import FloatLang.Proofs.Numeral
import FloatLang.Proofs.Text.Digits

/-! # What the Text of a Double Says

  The text of a double tells it from every other that is a number. In either notation it
  writes a decimal that is rounded to the double, but for the sign.

  - **Value of the digits** (`Decimal.value_eq`): the digits of a decimal count from the
    first one, which stands behind its point.
  - **Says** (`Says text x?`): a text without a sign writes the number, or infinity.
    It writes one thing only (`Says.unique`).

  Main statement: `text_eq_text_iff`.
-/

namespace FloatLang

/-! ## Digits -/

theorem fractionValue_append (a b : List Char) :
    fractionValue (a ++ b) = fractionValue a + fractionValue b / 10 ^ a.length := by
  induction a with
  | nil => rw [List.nil_append, fractionValue, List.length_nil, pow_zero, div_one, zero_add]
  | cons c a ih =>
    rw [List.cons_append, fractionValue, fractionValue, ih, List.length_cons, pow_succ]
    ring

/-- Zeros count for nothing. -/
theorem fractionValue_zeros {zeros : List Char} (h : ∀ c ∈ zeros, c = '0') :
    fractionValue zeros = 0 := by
  induction zeros with
  | nil => rfl
  | cons c zeros ih =>
    obtain ⟨rfl, hzeros⟩ := List.forall_mem_cons.mp h
    have hdigit : digitValue '0' = 0 := Nat.cast_zero
    rw [fractionValue, ih hzeros, hdigit, add_zero, zero_div]

/-- Two parts of a literal on either side of its point. -/
theorem literalValue_pointed {whole : List Char} (hwhole : ∀ c ∈ whole, c.isDigit = true)
    (fraction : List Char) :
    literalValue (whole ++ '.' :: fraction) = wholeValue whole + fractionValue fraction := by
  obtain ⟨htake, hdrop⟩ := span_pointed hwhole fraction
  rw [literalValue, htake, hdrop, List.tail_cons]

/-- Behind `n` of its digits a point stands for that many places. -/
theorem literalValue_split {digits : List Char} (hdigits : ∀ c ∈ digits, c.isDigit = true) {n : ℕ}
    (hn : n ≤ digits.length) :
    literalValue (digits.take n ++ '.' :: digits.drop n) = fractionValue digits * 10 ^ n := by
  have htake : ∀ c ∈ digits.take n, c.isDigit = true :=
    fun c hc => hdigits c (List.mem_of_mem_take hc)
  have hlength : (digits.take n).length = n := List.length_take_of_le hn
  have hten : (10 : ℚ) ^ n ≠ 0 := pow_ne_zero _ (by norm_num)
  have hsplit := fractionValue_append (digits.take n) (digits.drop n)
  rw [List.take_append_drop, hlength] at hsplit
  rw [literalValue_pointed htake, wholeValue_eq, hlength, hsplit, add_mul, div_mul_cancel₀ _ hten]

/-- Without a point all digits count. -/
theorem literalValue_whole {digits : List Char} (hdigits : ∀ c ∈ digits, c.isDigit = true) :
    literalValue digits = fractionValue digits * 10 ^ digits.length := by
  rw [literalValue, List.takeWhile_eq_self_iff.mpr hdigits, List.dropWhile_eq_nil_iff.mpr hdigits,
    List.tail_nil, fractionValue, add_zero, wholeValue_eq]

/-! ## Decimals -/

namespace Decimal

variable (d : Decimal)

/-- **The value of the digits**: the first of them stands behind the point. -/
theorem value_eq : d.value = fractionValue d.digits * 10 ^ d.point := by
  obtain ⟨zeros, hdigits, hzeros⟩ := d.exists_zeros
  have hcoefficient : (d.coefficient : ℚ)
      = fractionValue d.digits * 10 ^ (Nat.toDigits 10 d.coefficient).length := by
    have hread := ofDigitChars_eq (Nat.toDigits 10 d.coefficient) 0
    rw [Nat.ofDigitChars_ten_toDigits, Nat.cast_zero, zero_mul, zero_add, wholeValue_eq] at hread
    rw [hread]
    congr 1
    rw [hdigits, fractionValue_append, fractionValue_zeros hzeros, zero_div, add_zero]
  have hten : (10 : ℚ) ≠ 0 := by norm_num
  rw [value, hcoefficient, point, zpow_add₀ hten, zpow_natCast, mul_assoc]

/-- **Positional notation** writes the value. -/
theorem literalValue_positional : literalValue d.positional = d.value := by
  have hdigits : ∀ c ∈ d.digits, c.isDigit = true := fun c hc => d.isDigit_of_mem_digits hc
  rw [value_eq, positional]
  split
  · next hpoint =>
    -- the digits stand behind the point and its zeros
    obtain ⟨n, hn⟩ : ∃ n : ℕ, d.point = -n := ⟨(-d.point).toNat, by omega⟩
    have hzeros : fractionValue (List.replicate n '0') = 0 :=
      fractionValue_zeros fun c hc => List.eq_of_mem_replicate hc
    have hnothing : wholeValue ['0'] = 0 := by
      rw [wholeValue_eq, fractionValue_zeros (by simp), zero_mul]
    have hwhole : ∀ c ∈ ['0'], c.isDigit = true := by simp
    have hn' : (-d.point).toNat = n := by omega
    rw [hn']
    show literalValue (['0'] ++ '.' :: (List.replicate n '0' ++ d.digits)) = _
    rw [literalValue_pointed hwhole, hnothing, zero_add, fractionValue_append, hzeros, zero_add,
      List.length_replicate, hn, zpow_neg, zpow_natCast, div_eq_mul_inv]
  · next hpoint =>
    obtain ⟨n, hn⟩ : ∃ n : ℕ, d.point = n := ⟨d.point.toNat, by omega⟩
    have hn' : d.point.toNat = n := by omega
    rw [hn', hn, zpow_natCast]
    split
    · next hlt =>
      rw [List.append_assoc, List.singleton_append]
      exact literalValue_split hdigits (by omega)
    · next hge =>
      -- zeros fill up to the point
      have hfill : ∀ c ∈ List.replicate (n - d.digits.length) '0', c = '0' :=
        fun c hc => List.eq_of_mem_replicate hc
      have hwhole : ∀ c ∈ d.digits ++ List.replicate (n - d.digits.length) '0',
          c.isDigit = true := by
        intro c hc
        rcases List.mem_append.mp hc with hmem | hmem
        · exact hdigits c hmem
        · rw [hfill c hmem]
          decide
      have hlength : (d.digits ++ List.replicate (n - d.digits.length) '0').length = n := by
        rw [List.length_append, List.length_replicate]
        omega
      have hbehind : fractionValue ['0'] = 0 := fractionValue_zeros (by simp)
      rw [literalValue_pointed hwhole, wholeValue_eq, hlength, fractionValue_append,
        fractionValue_zeros hfill, hbehind, zero_div, add_zero, add_zero]

/-- **Scientific notation** writes the value. -/
theorem literalValue_mantissa : literalValue d.mantissa * 10 ^ (d.point - 1) = d.value := by
  have hdigits : ∀ c ∈ d.digits, c.isDigit = true := fun c hc => d.isDigit_of_mem_digits hc
  have hmantissa : literalValue d.mantissa = fractionValue d.digits * 10 := by
    rw [mantissa]
    split
    · next hone =>
      have htake : d.digits.take 1 = d.digits := by
        have hdrop := List.isEmpty_iff.mp hone
        conv_rhs => rw [← List.take_append_drop 1 d.digits, hdrop, List.append_nil]
      rw [List.append_nil, htake, literalValue_whole hdigits]
      cases hcs : d.digits with
      | nil => rw [fractionValue, zero_mul, zero_mul]
      | cons c cs =>
        have hnil : cs = [] := by
          rw [hcs] at hone
          exact List.isEmpty_iff.mp hone
        rw [hnil, List.length_singleton, pow_one]
    · next hmore =>
      have hlength : 1 ≤ d.digits.length := by
        apply Nat.one_le_iff_ne_zero.mpr
        intro hzero
        rw [List.length_eq_zero_iff.mp hzero] at hmore
        exact hmore rfl
      rw [literalValue_split hdigits hlength, pow_one]
  have hten : (10 : ℚ) ≠ 0 := by norm_num
  rw [hmantissa, value_eq, mul_assoc, ← zpow_one_add₀ hten]
  congr 2
  omega

end Decimal

/-! ## Texts without a sign -/

/-- The text writes the number, or infinity. -/
inductive Says : List Char → Option ℚ → Prop where
  /-- Infinity. -/
  | infinity : Says ['i', 'n', 'f'] none
  /-- A literal. -/
  | literal {text : List Char} :
      (∀ c ∈ text, isNumeral c = true) → Says text (some (literalValue text))
  /-- A literal times a power of ten. -/
  | power {mantissa : List Char} {exponent : ℤ} :
      (∀ c ∈ mantissa, isNumeral c = true) →
      Says (mantissa ++ 'e' :: exponent.repr.toList) (some (literalValue mantissa * 10 ^ exponent))

namespace Says

variable {text : List Char} {x y : Option ℚ}

/-- A power of ten is no literal. -/
theorem not_isNumeral_power {mantissa exponent : List Char} :
    ¬ ∀ c ∈ mantissa ++ 'e' :: exponent, isNumeral c = true := by
  intro h
  exact absurd (h 'e' (by simp)) (by decide)

/-- It tells the literal and the exponent. -/
theorem power_inj {mantissa mantissa' : List Char} {exponent exponent' : ℤ}
    (hmantissa : ∀ c ∈ mantissa, isNumeral c = true)
    (hmantissa' : ∀ c ∈ mantissa', isNumeral c = true)
    (h : mantissa ++ 'e' :: exponent.repr.toList = mantissa' ++ 'e' :: exponent'.repr.toList) :
    mantissa = mantissa' ∧ exponent = exponent' := by
  have hmark {cs : List Char} (hcs : ∀ c ∈ cs, isNumeral c = true) : 'e' ∉ cs :=
    fun hmem => absurd (hcs 'e' hmem) (by decide)
  obtain ⟨hsame, hrest⟩ := append_cons_unique h (hmark hmantissa) (hmark hmantissa')
  exact ⟨hsame, intRepr_inj hrest⟩

/-- **One thing only.** -/
theorem unique (h : Says text x) (h' : Says text y) : x = y := by
  have hword : ¬ ∀ c ∈ ['i', 'n', 'f'], isNumeral c = true :=
    fun h => absurd (h 'i' List.mem_cons_self) (by decide)
  have hpower {mantissa exponent : List Char} :
      ¬ mantissa ++ 'e' :: exponent = ['i', 'n', 'f'] := by
    intro heq
    have hmem : 'e' ∈ ['i', 'n', 'f'] := by
      rw [← heq]
      simp
    exact absurd hmem (by decide)
  cases h with
  | infinity =>
    generalize htext : ['i', 'n', 'f'] = text at h'
    cases h' with
    | infinity => rfl
    | literal hnumeral => exact absurd (htext ▸ hnumeral) hword
    | power _ => exact absurd htext.symm hpower
  | literal hnumeral =>
    cases h' with
    | infinity => exact absurd hnumeral hword
    | literal _ => rfl
    | power _ => exact absurd hnumeral not_isNumeral_power
  | @power mantissa exponent hmantissa =>
    generalize htext : mantissa ++ 'e' :: exponent.repr.toList = text at h'
    cases h' with
    | infinity => exact absurd htext hpower
    | literal hnumeral => exact absurd (htext ▸ hnumeral) not_isNumeral_power
    | power hmantissa' =>
      obtain ⟨rfl, rfl⟩ := power_inj hmantissa hmantissa' htext
      rfl

/-- Whatever it says starts with neither a sign nor a capital. -/
theorem head_ne (h : Says text x) {c : Char} (hc : isNumeral c = false) (hi : c ≠ 'i')
    (he : c ≠ 'e') : text.head? ≠ some c := by
  intro hhead
  have hnumeral {cs : List Char} (hcs : ∀ d ∈ cs, isNumeral d = true) : cs.head? ≠ some c := by
    intro hmem
    rw [hcs c (List.mem_of_mem_head? hmem)] at hc
    cases hc
  cases h with
  | infinity => exact hi (Option.some.inj hhead).symm
  | literal htext => exact hnumeral htext hhead
  | @power mantissa exponent hmantissa =>
    cases mantissa with
    | nil => exact he (Option.some.inj hhead).symm
    | cons d rest => exact hnumeral hmantissa hhead

end Says

namespace Binary64

variable {v w : Binary64}

/-! ## The text of a double -/

/-- What a text has to say that stands for the magnitude. -/
inductive Sized (m : ℕ) : Option ℚ → Prop where
  /-- The magnitude of infinity. -/
  | infinite : m = infinityMagnitude → Sized m none
  /-- A finite one, to which the number is rounded. -/
  | finite {x : ℚ} : m < infinityMagnitude → Rounded x (ofMagnitude m) → Sized m (some x)

/-- It is said of one magnitude only. -/
theorem Sized.unique {m k : ℕ} {x? : Option ℚ} (h : Sized m x?) (h' : Sized k x?) : m = k := by
  cases h with
  | infinite hm =>
    obtain ⟨hk⟩ := h'
    rw [hm, hk]
  | finite hm hrounded =>
    cases h' with
    | finite hk hrounded' =>
      have hsame := congrArg magnitude (hrounded.unique hrounded')
      rwa [magnitude_ofMagnitude (Nat.le_of_lt hm), magnitude_ofMagnitude (Nat.le_of_lt hk)] at hsame

/-- **The size in print** says what stands for the magnitude. -/
theorem says_sizeText (hv : v.isNaN = false) :
    ∃ x?, Says v.sizeText x? ∧ Sized v.magnitude x? := by
  have hle : v.magnitude ≤ infinityMagnitude := Nat.le_of_not_lt (of_decide_eq_false hv)
  unfold sizeText
  split
  · next hinfinite => exact ⟨none, .infinity, .infinite (beq_iff_eq.mp hinfinite)⟩
  · next hinfinite =>
    have hfinite : v.magnitude < infinityMagnitude := by
      have hne : v.magnitude ≠ infinityMagnitude := fun h => hinfinite (beq_iff_eq.mpr h)
      omega
    have hrounded := rounded_shortest hfinite
    split
    · next hzero =>
      have hwhole : ∀ c ∈ ['0'], c.isDigit = true := by simp
      have hvalue : literalValue ['0', '.', '0'] = 0 := by
        have hnothing : fractionValue ['0'] = 0 := fractionValue_zeros (by simp)
        show literalValue (['0'] ++ '.' :: ['0']) = 0
        rw [literalValue_pointed hwhole, wholeValue_eq, hnothing, zero_mul, add_zero]
      have hexact := rounded_valueOf hfinite
      rw [beq_iff_eq.mp hzero, valueOf_zero, ← hvalue, ← beq_iff_eq.mp hzero] at hexact
      exact ⟨_, .literal (List.all_eq_true.mp (by decide)), .finite hfinite hexact⟩
    · split
      · refine ⟨_, .literal fun c hc => Decimal.isNumeral_of_mem_positional _ hc, ?_⟩
        rw [Decimal.literalValue_positional]
        exact .finite hfinite hrounded
      · rw [Decimal.scientific_eq]
        refine ⟨_, .power fun c hc => Decimal.isNumeral_of_mem_mantissa _ hc, ?_⟩
        rw [Decimal.literalValue_mantissa]
        exact .finite hfinite hrounded

/-- A double is its sign and its magnitude. -/
theorem eq_of_magnitude_eq (hsign : v.isNegative = w.isNegative)
    (hmagnitude : v.magnitude = w.magnitude) : v = w := by
  have hsize : signPlace * 2 = 2 ^ 64 := by decide
  have hsplit (u : Binary64) :
      u.bits.toNat = (if u.isNegative then signPlace else 0) + u.magnitude := by
    have hlt := u.bits.toNat_lt
    rw [isNegative, magnitude]
    simp only [decide_eq_true_eq]
    split
    · next hle =>
      rw [Nat.mod_eq_sub_mod hle, Nat.mod_eq_of_lt (by omega)]
      omega
    · next hnot => rw [Nat.mod_eq_of_lt (by omega), Nat.zero_add]
  have hbits : v.bits.toNat = w.bits.toNat := by rw [hsplit, hsplit, hsign, hmagnitude]
  have hsame := UInt64.toNat_inj.mp hbits
  cases v
  cases w
  exact congrArg Binary64.mk hsame

/-- A number in print is its sign and its size. -/
theorem toList_text (hv : v.isNaN = false) :
    v.text.toList = (if v.isNegative then ['-'] else []) ++ v.sizeText := by
  rw [text, if_neg (by simp [hv]), String.toList_ofList]

/-- The size in print starts with no sign, and with no capital. -/
theorem head?_sizeText_ne (hv : v.isNaN = false) {c : Char} (hc : c = '-' ∨ c = 'N') :
    v.sizeText.head? ≠ some c := by
  obtain ⟨x?, hsays, _⟩ := says_sizeText hv
  rcases hc with rfl | rfl <;> exact hsays.head_ne (by decide) (by decide) (by decide)

/-- Numbers have the same text only if they are the same double. -/
theorem eq_of_text_eq (hv : v.isNaN = false) (hw : w.isNaN = false) (h : v.text = w.text) :
    v = w := by
  have htext := congrArg String.toList h
  rw [toList_text hv, toList_text hw] at htext
  have hunsigned {u u' : Binary64} (hu : u.isNaN = false) : u.sizeText ≠ '-' :: u'.sizeText :=
    fun heq => head?_sizeText_ne hu (.inl rfl) (by rw [heq, List.head?_cons])
  -- with the same sign the sizes in print are the same
  have hsame (hsign : v.isNegative = w.isNegative) : v = w := by
    rw [hsign] at htext
    have hsize := List.append_cancel_left htext
    obtain ⟨x?, hsays, hsized⟩ := says_sizeText hv
    obtain ⟨y?, hsays', hsized'⟩ := says_sizeText hw
    rw [hsize] at hsays
    obtain rfl := hsays.unique hsays'
    exact eq_of_magnitude_eq hsign (hsized.unique hsized')
  cases hneg : v.isNegative with
  | true =>
    cases hneg' : w.isNegative with
    | true => exact hsame (hneg.trans hneg'.symm)
    | false =>
      rw [hneg, hneg', if_pos rfl, if_neg Bool.false_ne_true] at htext
      exact absurd htext.symm (hunsigned hw)
  | false =>
    cases hneg' : w.isNegative with
    | true =>
      rw [hneg, hneg', if_pos rfl, if_neg Bool.false_ne_true] at htext
      exact absurd htext (hunsigned hv)
    | false => exact hsame (hneg.trans hneg'.symm)

/-- The text of a number is not that of what is no number. -/
theorem text_ne_of_isNaN (hv : v.isNaN = true) (hw : w.isNaN = false) : v.text ≠ w.text := by
  intro h
  have hhead : w.text.toList.head? = some 'N' := by
    rw [← h, text, if_pos hv]
    rfl
  rw [toList_text hw] at hhead
  cases hneg : w.isNegative with
  | true =>
    rw [hneg] at hhead
    exact absurd hhead (by simp)
  | false =>
    rw [hneg] at hhead
    exact head?_sizeText_ne hw (.inr rfl) hhead

/-- **The text tells the double**, but for the payload and the sign of what is not a
    number. -/
theorem text_eq_text_iff : v.text = w.text ↔ v = w ∨ v.isNaN = true ∧ w.isNaN = true := by
  constructor
  · intro h
    cases hv : v.isNaN with
    | true =>
      cases hw : w.isNaN with
      | true => exact .inr ⟨rfl, rfl⟩
      | false => exact absurd h (text_ne_of_isNaN hv hw)
    | false =>
      cases hw : w.isNaN with
      | true => exact absurd h.symm (text_ne_of_isNaN hw hv)
      | false => exact .inl (eq_of_text_eq hv hw h)
  · rintro (rfl | ⟨hv, hw⟩)
    · rfl
    · rw [text, text, if_pos hv, if_pos hw]

end Binary64

end FloatLang
