import FloatLang.Binary64.Decimal
import FloatLang.Proofs.Binary64.Nearest

/-! # Shortest Decimals Read Back

  The decimal that stands for a finite double in print is rounded to that double, be it
  one of the short candidates or the full expansion.

  - **Value** (`Decimal.value`): the number that a decimal writes. The double nearest to
    it is what the decimal is read as (`Decimal.rounded_nearest`).
  - **Exact** (`rounded_valueOf`): the number of a finite magnitude is rounded to it.

  Main statement: `rounded_shortest`.
-/

namespace FloatLang

/-! ## Decimals -/

namespace Decimal

/-- The number that a decimal writes. -/
def value (d : Decimal) : ℚ :=
  d.coefficient * 10 ^ d.exponent

/-- A decimal is read as the double nearest to its value. -/
theorem rounded_nearest (d : Decimal) : Binary64.Rounded d.value d.nearest := by
  have hcast (k : ℕ) : ((Nat.pow 10 k : ℕ) : ℚ) = 10 ^ k := by
    rw [Nat.pow_eq, Nat.cast_pow, Nat.cast_ofNat]
  unfold nearest
  by_cases hexponent : 0 ≤ d.exponent
  · have hvalue : d.value
        = (d.coefficient * Nat.pow 10 d.exponent.toNat : ℕ) / (1 : ℕ) := by
      rw [value, Nat.cast_mul, hcast, Nat.cast_one, div_one, ← zpow_natCast,
        Int.toNat_of_nonneg hexponent]
    rw [if_pos hexponent, hvalue]
    exact Binary64.rounded_ofRatio _ Nat.one_pos
  · have hnonneg : 0 ≤ -d.exponent := by omega
    have hvalue : d.value = d.coefficient / (Nat.pow 10 (-d.exponent).toNat : ℕ) := by
      rw [value, hcast, ← zpow_natCast, Int.toNat_of_nonneg hnonneg, zpow_neg, div_inv_eq_mul]
    rw [if_neg hexponent, hvalue]
    exact Binary64.rounded_ofRatio _ (Nat.pow_pos (by decide))

end Decimal

namespace Binary64

/-! ## Exact numbers -/

/-- Finite magnitudes stand for numbers that are not rounded to infinity. -/
theorem valueOf_lt_overflow {m : ℕ} (hm : m < infinityMagnitude) :
    valueOf m < 2 ^ 1024 - 2 ^ 970 := by
  have hle : (unitsOf m : ℚ) ≤ unitsOf (infinityMagnitude - 1) := unitsOf_cast_le (by omega)
  have hlt : (unitsOf (infinityMagnitude - 1) : ℚ) < unitsOf infinityMagnitude :=
    Nat.cast_lt.mpr (unitsOf_strictMono (by decide))
  have hmiddle := middle_eq
  rw [valueOf, div_lt_iff₀ unitsPerOne_pos]
  generalize ((2 : ℚ) ^ 1024 - 2 ^ 970) * unitsPerOne = bound at hmiddle ⊢
  linarith

/-- **Exact**: the number of a finite magnitude is rounded to it. -/
theorem rounded_valueOf {m : ℕ} (hm : m < infinityMagnitude) :
    Rounded (valueOf m) (ofMagnitude m) := by
  have hmagnitude := magnitude_ofMagnitude (Nat.le_of_lt hm)
  have hunsigned := isNegative_ofMagnitude (Nat.le_of_lt hm)
  have hexact : (ofMagnitude m).toRat = valueOf m := by
    rw [toRat_of_unsigned hunsigned, hmagnitude]
  constructor
  case isNumber =>
    rw [isNaN, hmagnitude]
    exact decide_eq_false (Nat.lt_asymm hm)
  case unsigned => exact hunsigned
  case overflow =>
    have hfinite : ¬ (ofMagnitude m).isInfinite = true := by
      rw [isInfinite, hmagnitude, beq_iff_eq]
      exact Nat.ne_of_lt hm
    exact iff_of_false hfinite (not_le.mpr (valueOf_lt_overflow hm))
  case nearest =>
    intro _ w _
    rw [hexact, sub_self, abs_zero]
    exact abs_nonneg _
  case even =>
    intro _ w _ hne htie
    rw [hexact, sub_self, abs_zero, abs_eq_zero, sub_eq_zero] at htie
    rw [hexact] at hne
    exact absurd htie hne

/-! ## What reads back -/

/-- A decimal of the number itself reads back. -/
theorem readsBack_of_value_eq {m : ℕ} (hm : m < infinityMagnitude) {d : Decimal}
    (h : d.value = valueOf m) : d.readsBack (unitsOf m) = true := by
  have hrounded := d.rounded_nearest
  rw [h] at hrounded
  rw [Decimal.readsBack, hrounded.unique (rounded_valueOf hm), units_eq_unitsOf,
    magnitude_ofMagnitude (Nat.le_of_lt hm), beq_self_eq_true]

/-- The full expansion is exact. -/
theorem value_expansion (u : ℕ) : (expansion u).value = u / unitsPerOne := by
  -- the powers are not for computing with
  obtain ⟨k, hk⟩ : ∃ k : ℕ, 1074 = k := ⟨_, rfl⟩
  have hexponent : (-1074 : ℤ) = -k := by omega
  have hunits : (unitsPerOne : ℚ) = 2 ^ k := by rw [cast_unitsPerOne, hk]
  have hexpansion : expansion u = ⟨u * Nat.pow 5 k, -k⟩ := by rw [expansion, hexponent, hk]
  have hten : (10 : ℚ) ^ k = 2 ^ k * 5 ^ k := by
    rw [← mul_pow]
    norm_num
  have hfive : (5 : ℚ) ^ k ≠ 0 := pow_ne_zero _ (by norm_num)
  calc (expansion u).value
      = u * 5 ^ k / 10 ^ k := by
        rw [hexpansion, Decimal.value, zpow_neg, zpow_natCast, Nat.cast_mul, Nat.pow_eq,
          Nat.cast_pow, Nat.cast_ofNat, div_eq_mul_inv]
    _ = u / unitsPerOne := by rw [hten, hunits, mul_div_mul_right _ _ hfive]

/-- Whatever is found on a grid reads back. -/
theorem readsBack_of_onGrid? {u places : ℕ} {d : Decimal} (h : onGrid? u places = some d) :
    d.readsBack u = true := by
  unfold onGrid? at h
  dsimp only at h
  split at h
  · next hlower =>
    cases h
    exact (Bool.and_eq_true_iff.mp hlower).1
  · split at h
    · next hupper =>
      cases h
      exact hupper
    · cases h

/-- The shortest decimal of a finite double reads back. -/
theorem readsBack_shortest {m : ℕ} (hm : m < infinityMagnitude) :
    (shortest (unitsOf m)).readsBack (unitsOf m) = true := by
  unfold shortest
  dsimp only
  cases hfound : (List.range' 1 17).findSome?
      fun n => onGrid? (unitsOf m) (fineDigits (unitsOf m) - n) with
  | none => exact readsBack_of_value_eq hm (value_expansion _)
  | some d =>
    obtain ⟨n, _, hn⟩ := List.exists_of_findSome?_eq_some hfound
    exact readsBack_of_onGrid? hn

/-- **Read back**: the shortest decimal of a finite double is rounded to it, but for the
    sign. -/
theorem rounded_shortest {v : Binary64} (hv : v.IsFinite) :
    Rounded (shortest v.units).value (ofMagnitude v.magnitude) := by
  have hrounded := (shortest v.units).rounded_nearest
  have hunits : unitsOf (shortest v.units).nearest.magnitude = unitsOf v.magnitude :=
    beq_iff_eq.mp (readsBack_shortest hv)
  have hmagnitude := unitsOf_strictMono.injective hunits
  rwa [← ofMagnitude_magnitude hrounded.unsigned, hmagnitude] at hrounded

end Binary64

end FloatLang
