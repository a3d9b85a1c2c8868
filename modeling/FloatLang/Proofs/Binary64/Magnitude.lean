import Mathlib.Order.Monotone.Basic
import FloatLang.Binary64.Rounding

/-! # Magnitudes

  The numbers that magnitudes stand for, in units of the least positive value. They are
  counted on past the largest finite one, as if exponents had no bound, so that what is
  proved of neighbours holds at the end of the range as well.

  - **Significands** (`exists_significand`): a magnitude is `shift * 2^52 + significand`,
    with a significand below `2^53` that is `2^52` or more where there is a shift. It
    stands for `significand * 2^shift` units (`unitsOf_significand`).
  - **Neighbours** (`unitsOf_succ`): to the next magnitude it is `2^shift` units.

  Main statement: `unitsOf_strictMono`, magnitudes are ordered as their numbers.
-/

namespace FloatLang.Binary64

theorem exponentPlace_pos : 0 < exponentPlace := Nat.two_pow_pos 52

/-! ## Significands -/

/-- The number of units of a magnitude. -/
def unitsOf (m : Nat) : Nat :=
  if m / exponentPlace = 0 then m % exponentPlace
  else (exponentPlace + m % exponentPlace) * Nat.pow 2 (m / exponentPlace - 1)

theorem units_eq_unitsOf (v : Binary64) : v.units = unitsOf v.magnitude := rfl

/-- A significand and a shift that make up a magnitude. Only without a shift the
    significand may be small. -/
structure Significand (shift significand : Nat) : Prop where
  /-- It has no more than fifty-three bits. -/
  lt : significand < 2 * exponentPlace
  /-- It has fifty-three if it is shifted. -/
  normal : shift = 0 ∨ exponentPlace ≤ significand

/-- Every magnitude has a significand. -/
theorem exists_significand (m : Nat) :
    ∃ shift significand, Significand shift significand ∧
      m = shift * exponentPlace + significand := by
  have hpos := exponentPlace_pos
  have hlt := Nat.mod_lt m hpos
  have hsplit := Nat.div_add_mod' m exponentPlace
  by_cases hzero : m / exponentPlace = 0
  · rw [hzero] at hsplit
    exact ⟨0, m, ⟨by omega, .inl rfl⟩, by omega⟩
  · obtain ⟨shift, hshift⟩ := Nat.exists_eq_add_one_of_ne_zero hzero
    rw [hshift, Nat.succ_mul] at hsplit
    exact ⟨shift, exponentPlace + m % exponentPlace, ⟨by omega, .inr (Nat.le_add_right _ _)⟩,
      by omega⟩

/-- Without a shift a small significand is the number of units. -/
theorem unitsOf_subnormal {fraction : Nat} (hlt : fraction < exponentPlace) :
    unitsOf fraction = fraction := by
  rw [unitsOf, if_pos (Nat.div_eq_of_lt hlt), Nat.mod_eq_of_lt hlt]

/-- An exponent field above zero. -/
theorem unitsOf_normal (shift : Nat) {fraction : Nat} (hlt : fraction < exponentPlace) :
    unitsOf ((shift + 1) * exponentPlace + fraction)
      = (exponentPlace + fraction) * Nat.pow 2 shift := by
  have hdiv : ((shift + 1) * exponentPlace + fraction) / exponentPlace = shift + 1 := by
    rw [Nat.mul_comm, Nat.mul_add_div exponentPlace_pos, Nat.div_eq_of_lt hlt, Nat.add_zero]
  have hmod : ((shift + 1) * exponentPlace + fraction) % exponentPlace = fraction := by
    rw [Nat.mul_comm, Nat.mul_add_mod, Nat.mod_eq_of_lt hlt]
  rw [unitsOf, hdiv, hmod, if_neg (Nat.succ_ne_zero shift), Nat.add_sub_cancel]

/-- What a significand stands for. One that has rounded up to `2^53` carries into the
    exponent by itself. -/
theorem unitsOf_significand {shift significand : Nat} (hle : significand ≤ 2 * exponentPlace)
    (hnormal : shift = 0 ∨ exponentPlace ≤ significand) :
    unitsOf (shift * exponentPlace + significand) = significand * Nat.pow 2 shift := by
  have hpos := exponentPlace_pos
  by_cases hsmall : significand < exponentPlace
  · obtain rfl : shift = 0 := hnormal.resolve_right (by omega)
    rw [Nat.zero_mul, Nat.zero_add, unitsOf_subnormal hsmall]
    exact (Nat.mul_one _).symm
  · by_cases hcarry : significand = 2 * exponentPlace
    · have hm : shift * exponentPlace + significand = (shift + 1 + 1) * exponentPlace + 0 := by
        rw [hcarry, Nat.add_assoc shift, Nat.add_mul shift]
        omega
      have hpow : Nat.pow 2 (shift + 1) = Nat.pow 2 shift * 2 := rfl
      rw [hm, unitsOf_normal _ hpos, hpow, hcarry, Nat.add_zero, Nat.mul_comm 2, Nat.mul_assoc,
        Nat.mul_comm 2]
    · have hm : shift * exponentPlace + significand
          = (shift + 1) * exponentPlace + (significand - exponentPlace) := by
        rw [Nat.succ_mul]
        omega
      rw [hm, unitsOf_normal _ (by omega), Nat.add_sub_cancel' (Nat.le_of_not_lt hsmall)]

namespace Significand

variable {shift significand : Nat}

/-- What a significand stands for. -/
theorem unitsOf_eq (h : Significand shift significand) :
    unitsOf (shift * exponentPlace + significand) = significand * Nat.pow 2 shift :=
  unitsOf_significand (Nat.le_of_lt h.lt) h.normal

/-- The next magnitude is a unit of the significand away. -/
theorem unitsOf_succ (h : Significand shift significand) :
    unitsOf (shift * exponentPlace + significand + 1)
      = unitsOf (shift * exponentPlace + significand) + Nat.pow 2 shift := by
  have hnormal : shift = 0 ∨ exponentPlace ≤ significand + 1 := by
    have := h.normal
    omega
  rw [Nat.add_assoc, unitsOf_significand h.lt hnormal, h.unitsOf_eq, Nat.succ_mul]

end Significand

section neighbours
variable {shift significand : Nat} (hle : significand ≤ 2 * exponentPlace)
  (hnormal : shift = 0 ∨ exponentPlace ≤ significand)
include hle hnormal

/-- The next magnitude is a unit of the significand away at least, and more behind a
    carry. -/
theorem le_unitsOf_succ :
    unitsOf (shift * exponentPlace + significand) + Nat.pow 2 shift
      ≤ unitsOf (shift * exponentPlace + significand + 1) := by
  have hpos := exponentPlace_pos
  by_cases hlt : significand < 2 * exponentPlace
  · have hsignificand : Significand shift significand := ⟨hlt, hnormal⟩
    rw [hsignificand.unitsOf_succ]
  · -- the carry is the least significand of the next shift
    have hcarry : Significand (shift + 1) exponentPlace := ⟨by omega, .inr (Nat.le_refl _)⟩
    have hm : shift * exponentPlace + significand
        = (shift + 1) * exponentPlace + exponentPlace := by
      rw [Nat.add_mul shift]
      omega
    have hpow : Nat.pow 2 (shift + 1) = Nat.pow 2 shift * 2 := rfl
    rw [hm, hcarry.unitsOf_succ, hpow]
    omega

/-- So is the one before, unless the shift starts between the two. -/
theorem unitsOf_pred {k : Nat} (hk : shift * exponentPlace + significand = k + 1) :
    unitsOf (k + 1) = unitsOf k + Nat.pow 2 shift ∨ shift ≠ 0 ∧ significand = exponentPlace := by
  have hpos := exponentPlace_pos
  by_cases hleast : shift ≠ 0 ∧ significand = exponentPlace
  · exact .inr hleast
  · have hne : significand ≠ 0 := by
      rintro rfl
      obtain rfl : shift = 0 := hnormal.resolve_right (by omega)
      omega
    obtain ⟨before, rfl⟩ := Nat.exists_eq_add_one_of_ne_zero hne
    have hbefore : Significand shift before := ⟨by omega, by omega⟩
    obtain rfl : shift * exponentPlace + before = k := by omega
    exact .inl hbefore.unitsOf_succ

end neighbours

/-! ## Order -/

/-- **Magnitudes are ordered** as the numbers they stand for. -/
theorem unitsOf_strictMono : StrictMono unitsOf := by
  apply strictMono_nat_of_lt_succ
  intro m
  obtain ⟨shift, significand, hsignificand, rfl⟩ := exists_significand m
  rw [hsignificand.unitsOf_succ]
  exact Nat.lt_add_of_pos_right (Nat.two_pow_pos shift)

/-- The shift of the largest finite magnitudes. -/
def lastShift : Nat := 2045

/-- The carry out of the largest finite significand is infinity. -/
theorem infinityMagnitude_eq :
    infinityMagnitude = lastShift * exponentPlace + 2 * exponentPlace := by
  unfold infinityMagnitude lastShift
  omega

/-- What infinity would stand for if exponents had no bound. -/
theorem unitsOf_infinityMagnitude :
    unitsOf infinityMagnitude = 2 * exponentPlace * Nat.pow 2 lastShift := by
  have hnormal : exponentPlace ≤ 2 * exponentPlace := by omega
  rw [infinityMagnitude_eq, unitsOf_significand (Nat.le_refl _) (.inr hnormal)]

/-- What the largest finite magnitude stands for. -/
theorem unitsOf_pred_infinityMagnitude :
    unitsOf (infinityMagnitude - 1) = (2 * exponentPlace - 1) * Nat.pow 2 lastShift := by
  have hpos := exponentPlace_pos
  have hpred : infinityMagnitude - 1 = lastShift * exponentPlace + (2 * exponentPlace - 1) := by
    rw [infinityMagnitude_eq]
    omega
  rw [hpred, unitsOf_significand (by omega) (.inr (by omega))]

/-! ## Patterns -/

section patterns
variable {m : Nat} (hm : m ≤ infinityMagnitude)
include hm

theorem toNat_ofMagnitude : (ofMagnitude m).bits.toNat = m := by
  have hlt : infinityMagnitude < UInt64.size := by decide
  exact UInt64.toNat_ofNat_of_lt' (Nat.lt_of_le_of_lt hm hlt)

theorem magnitude_ofMagnitude : (ofMagnitude m).magnitude = m := by
  have hlt : infinityMagnitude < signPlace := by decide
  rw [magnitude, toNat_ofMagnitude hm, Nat.mod_eq_of_lt (Nat.lt_of_le_of_lt hm hlt)]

theorem isNegative_ofMagnitude : (ofMagnitude m).isNegative = false := by
  have hlt : infinityMagnitude < signPlace := by decide
  rw [isNegative, toNat_ofMagnitude hm]
  exact decide_eq_false (Nat.not_le.mpr (Nat.lt_of_le_of_lt hm hlt))

end patterns

/-- A value without a sign is its magnitude. -/
theorem ofMagnitude_magnitude {v : Binary64} (h : v.isNegative = false) :
    ofMagnitude v.magnitude = v := by
  have hlt : v.bits.toNat < signPlace := Nat.lt_of_not_le (of_decide_eq_false h)
  rw [magnitude, Nat.mod_eq_of_lt hlt, ofMagnitude, UInt64.ofNat_toNat]

end FloatLang.Binary64
