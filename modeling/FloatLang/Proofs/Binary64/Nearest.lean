import Mathlib.Algebra.Order.Field.Basic
import Mathlib.Algebra.Order.Field.Rat
import Mathlib.Tactic.Linarith
import Mathlib.Tactic.Ring
import FloatLang.Proofs.Binary64.Magnitude

/-! # The Nearest Double

  A quotient of whole numbers is rounded to the double nearest to it, with ties to the
  even significand. Only from half way past the largest finite double on it is rounded to
  infinity.

  - **Whole steps** (`Halfway`): a rounded quotient is within half a step of the quotient.
    No more is asked of `roundQuotient`.
  - **Neighbours** (`Settled`): a magnitude is settled on when neither of its neighbours
    is nearer. Then no other magnitude is (`Settled.nearest`), and where finite ones end
    is decided by the neighbours as well (`Settled.lt_infinityMagnitude_iff`).
  - **Rounded** (`Rounded`): what a double owes to the number it stands in for. There is
    only one such double (`Rounded.unique`).

  Main statement: `rounded_ofRatio`.
-/

namespace FloatLang

/-! ## Whole steps -/

/-- The whole number `g` of steps is within half a step of `y`, and at half a step it is
    even. -/
structure Halfway (y : ℚ) (step g : ℕ) : Prop where
  /-- `y` is no more than half a step above. -/
  above : 2 * y ≤ (2 * g + 1) * step
  /-- It is no more than half a step below. -/
  below : 2 * g * step ≤ 2 * y + step
  /-- At half a step the number is even. -/
  even : 2 * y = (2 * g + 1) * step ∨ 2 * g * step = 2 * y + step → g % 2 = 0

/-- Rounding goes down below half, up above half, and to the even number at half. -/
theorem roundQuotient_cases (n d : Nat) :
    (2 * (n % d) < d ∧ roundQuotient n d = n / d) ∨
      (d < 2 * (n % d) ∧ roundQuotient n d = n / d + 1) ∨
      (2 * (n % d) = d ∧ roundQuotient n d = n / d + n / d % 2) := by
  unfold roundQuotient
  dsimp only
  split
  · next hlow => exact .inl ⟨hlow, rfl⟩
  · next hlow =>
    split
    · next hhigh => exact .inr (.inl ⟨hhigh, rfl⟩)
    · next hhigh => exact .inr (.inr ⟨by omega, rfl⟩)

/-- A rounded quotient is within half of the quotient, and even at half. -/
theorem roundQuotient_half (n : Nat) {d : Nat} (hd : 0 < d) :
    2 * n ≤ (2 * roundQuotient n d + 1) * d ∧ 2 * roundQuotient n d * d ≤ 2 * n + d ∧
      (2 * n = (2 * roundQuotient n d + 1) * d ∨ 2 * roundQuotient n d * d = 2 * n + d →
        roundQuotient n d % 2 = 0) := by
  have hsplit := Nat.div_add_mod' n d
  have hlt := Nat.mod_lt n hd
  -- the products with `d` in terms of the one in the division
  have habove (k : Nat) : (2 * k + 1) * d = 2 * (k * d) + d := by ring
  have hbelow (k : Nat) : 2 * k * d = 2 * (k * d) := by ring
  have hsucc : (n / d + 1) * d = n / d * d + d := by ring
  rw [habove, hbelow]
  rcases roundQuotient_cases n d with ⟨hrest, hround⟩ | ⟨hrest, hround⟩ | ⟨hrest, hround⟩
  · rw [hround]
    omega
  · rw [hround, hsucc]
    omega
  · rcases Nat.mod_two_eq_zero_or_one (n / d) with heven | hodd
    · rw [hround, heven, Nat.add_zero]
      omega
    · rw [hround, hodd, hsucc]
      omega

/-- A quotient is rounded to within half a step. -/
theorem halfway_roundQuotient (n : Nat) {d step : Nat} (hd : 0 < d) (hstep : 0 < step) :
    Halfway (n / d) step (roundQuotient n (d * step)) := by
  have hd' : (0 : ℚ) < d := Nat.cast_pos.mpr hd
  have hn : (n : ℚ) = n / d * d := (div_mul_cancel₀ _ hd'.ne').symm
  obtain ⟨habove, hbelow, heven⟩ := roundQuotient_half n (Nat.mul_pos hd hstep)
  generalize roundQuotient n (d * step) = g at habove hbelow heven ⊢
  generalize (n : ℚ) / d = y at hn ⊢
  -- in whole numbers everything is multiplied by the denominator
  have hy : ((2 * n : ℕ) : ℚ) = 2 * y * d := by push_cast; rw [hn]; ring
  have hy' : ((2 * n + d * step : ℕ) : ℚ) = (2 * y + step) * d := by push_cast; rw [hn]; ring
  have hg : ((2 * g * (d * step) : ℕ) : ℚ) = 2 * g * step * d := by push_cast; ring
  have hg' : (((2 * g + 1) * (d * step) : ℕ) : ℚ) = (2 * g + 1) * step * d := by push_cast; ring
  refine ⟨?_, ?_, ?_⟩
  · refine le_of_mul_le_mul_right ?_ hd'
    rw [← hy, ← hg']
    exact_mod_cast habove
  · refine le_of_mul_le_mul_right ?_ hd'
    rw [← hy', ← hg]
    exact_mod_cast hbelow
  · intro htie
    apply heven
    rcases htie with htie | htie
    · have hmul := congrArg (· * (d : ℚ)) htie
      simp only [← hy, ← hg'] at hmul
      exact .inl (by exact_mod_cast hmul)
    · have hmul := congrArg (· * (d : ℚ)) htie
      simp only [← hy', ← hg] at hmul
      exact .inr (by exact_mod_cast hmul)

namespace Halfway

variable {y : ℚ} {step g k : ℕ}

/-- Below `k` steps the number is `k` at most. -/
theorem le_of_lt (h : Halfway y step g) (hy : y < (k * step : ℕ)) : g ≤ k := by
  have hbelow := h.below
  rw [Nat.cast_mul] at hy
  have hlt : ((2 * g * step : ℕ) : ℚ) < ((2 * k + 1) * step : ℕ) := by
    push_cast
    linarith
  have hsteps := Nat.lt_of_mul_lt_mul_right (Nat.cast_lt.mp hlt)
  omega

/-- From `k` steps on it is `k` at least. -/
theorem le_of_le (h : Halfway y step g) (hstep : 0 < step) (hy : (k * step : ℕ) ≤ y) : k ≤ g := by
  have habove := h.above
  rw [Nat.cast_mul] at hy
  have hle : ((2 * k * step : ℕ) : ℚ) ≤ ((2 * g + 1) * step : ℕ) := by
    push_cast
    linarith
  have hsteps := Nat.le_of_mul_le_mul_right (Nat.cast_le.mp hle) hstep
  omega

end Halfway

namespace Binary64

/-! ## Neighbours -/

/-- The numbers of magnitudes are ordered as the magnitudes. -/
theorem unitsOf_cast_le {k l : ℕ} (h : k ≤ l) : (unitsOf k : ℚ) ≤ unitsOf l :=
  Nat.cast_le.mpr (unitsOf_strictMono.monotone h)

/-- Neither neighbour of the magnitude `m` is nearer to `y` units, and if one is as near
    then `m` is even. -/
structure Settled (y : ℚ) (m : ℕ) : Prop where
  /-- `y` is not nearer to the next magnitude. -/
  above : 2 * y ≤ unitsOf m + unitsOf (m + 1)
  /-- It is not nearer to the one before. -/
  below : ∀ k, m = k + 1 → unitsOf k + unitsOf m ≤ 2 * y
  /-- Half way to the next one `m` is even. -/
  evenAbove : 2 * y = unitsOf m + unitsOf (m + 1) → m % 2 = 0
  /-- Half way to the one before as well. -/
  evenBelow : ∀ k, m = k + 1 → unitsOf k + unitsOf m = 2 * y → m % 2 = 0

namespace Settled

variable {y : ℚ} {m : ℕ}

/-- No magnitude is nearer. -/
theorem nearest (h : Settled y m) (k : ℕ) : |(unitsOf m : ℚ) - y| ≤ |(unitsOf k : ℚ) - y| := by
  rcases lt_trichotomy k m with hlt | rfl | hlt
  · obtain ⟨l, rfl⟩ := Nat.exists_eq_add_one_of_ne_zero (Nat.ne_zero_of_lt hlt)
    have hbelow := h.below l rfl
    have hk := unitsOf_cast_le (Nat.le_of_lt_succ hlt)
    have hl := unitsOf_cast_le (Nat.le_add_right l 1)
    have habs := neg_abs_le ((unitsOf k : ℚ) - y)
    refine abs_sub_le_iff.mpr ⟨?_, ?_⟩ <;> linarith
  · exact le_refl _
  · have habove := h.above
    have hk := unitsOf_cast_le (Nat.succ_le_of_lt hlt)
    have hm := unitsOf_cast_le (Nat.le_add_right m 1)
    have habs := le_abs_self ((unitsOf k : ℚ) - y)
    refine abs_sub_le_iff.mpr ⟨?_, ?_⟩ <;> linarith

/-- If another magnitude is as near, then `m` is even. -/
theorem even_of_tie (h : Settled y m) {k : ℕ} (hne : k ≠ m)
    (htie : |(unitsOf k : ℚ) - y| = |(unitsOf m : ℚ) - y|) : m % 2 = 0 := by
  have hunits : (unitsOf k : ℚ) ≠ unitsOf m := by
    intro heq
    exact hne (unitsOf_strictMono.injective (Nat.cast_injective heq))
  -- two numbers as near as each other lie on either side
  have hmiddle : (unitsOf k : ℚ) + unitsOf m = 2 * y := by
    rcases abs_eq_abs.mp htie with heq | heq
    · exact absurd (sub_left_injective heq) hunits
    · linarith
  rcases Nat.lt_or_gt_of_ne hne with hlt | hlt
  · obtain ⟨l, rfl⟩ := Nat.exists_eq_add_one_of_ne_zero (Nat.ne_zero_of_lt hlt)
    have hbelow := h.below l rfl
    have hk := unitsOf_cast_le (Nat.le_of_lt_succ hlt)
    exact h.evenBelow l rfl (by linarith)
  · have habove := h.above
    have hk := unitsOf_cast_le (Nat.succ_le_of_lt hlt)
    exact h.evenAbove (by linarith)

/-- **Overflow**: a finite magnitude is settled on below the middle between the largest
    one and what would come next, and no finite one from there on. -/
theorem lt_infinityMagnitude_iff (h : Settled y m) :
    m < infinityMagnitude ↔
      2 * y < unitsOf (infinityMagnitude - 1) + unitsOf infinityMagnitude := by
  have hpos : 0 < infinityMagnitude := by decide
  have hodd : (infinityMagnitude - 1) % 2 = 1 := by decide
  constructor
  · intro hlt
    have hm := unitsOf_cast_le (Nat.le_sub_one_of_lt hlt)
    have hnext := unitsOf_cast_le (Nat.succ_le_of_lt hlt)
    have habove := h.above
    apply lt_of_le_of_ne (by linarith)
    intro heq
    -- in the middle the even one of the two is taken, which is not the finite one
    have hcast : (unitsOf m : ℚ) = unitsOf (infinityMagnitude - 1) := by linarith
    have hlast : m = infinityMagnitude - 1 :=
      unitsOf_strictMono.injective (Nat.cast_injective hcast)
    have heven := h.evenAbove (by linarith)
    rw [hlast, hodd] at heven
    exact absurd heven Nat.one_ne_zero
  · intro hmiddle
    by_contra hge
    obtain ⟨l, rfl⟩ := Nat.exists_eq_add_one_of_ne_zero (n := m) (by omega)
    have hbelow := h.below l rfl
    have hm := unitsOf_cast_le (Nat.le_of_not_lt hge)
    have hl : (unitsOf (infinityMagnitude - 1) : ℚ) ≤ unitsOf l := unitsOf_cast_le (by omega)
    linarith

end Settled

/-- A significand within half a step of `y` is a magnitude to settle on. With a shift `y`
    has all the bits that a significand has room for. -/
theorem settled_of_halfway {y : ℚ} {shift g : ℕ} (h : Halfway y (Nat.pow 2 shift) g)
    (hlow : shift = 0 ∨ (exponentPlace * Nat.pow 2 shift : ℕ) ≤ y)
    (hhigh : y < (2 * exponentPlace * Nat.pow 2 shift : ℕ)) :
    Settled y (shift * exponentPlace + g) := by
  have hstep : 0 < Nat.pow 2 shift := Nat.two_pow_pos shift
  have hle : g ≤ 2 * exponentPlace := h.le_of_lt hhigh
  have hnormal : shift = 0 ∨ exponentPlace ≤ g := hlow.imp_right fun hy => h.le_of_le hstep hy
  have hunits := unitsOf_significand hle hnormal
  have hnext := le_unitsOf_succ hle hnormal
  have hpred {k : ℕ} (hk : shift * exponentPlace + g = k + 1) := unitsOf_pred hle hnormal hk
  have hparity : g % 2 = 0 → (shift * exponentPlace + g) % 2 = 0 := by
    intro heven
    have hplace : exponentPlace % 2 = 0 := by decide
    rw [Nat.add_mod, Nat.mul_mod, hplace, heven]
    rfl
  have habove := h.above
  have hbelow := h.below
  generalize hm : shift * exponentPlace + g = m at *
  generalize Nat.pow 2 shift = step at *
  have hunits' : (unitsOf m : ℚ) = g * step := by rw [hunits, Nat.cast_mul]
  have hnext' : (unitsOf m : ℚ) + step ≤ unitsOf (m + 1) := by exact_mod_cast hnext
  -- the magnitude before is a step away, or `y` is not below `m`
  have hpred' {k : ℕ} (hk : m = k + 1) :
      (unitsOf m : ℚ) = unitsOf k + step ∨ (unitsOf m : ℚ) ≤ y ∧ (unitsOf k : ℚ) < unitsOf m := by
    rcases hpred hk with hstep' | ⟨hshift, hleast⟩
    · rw [hk]
      exact .inl (by exact_mod_cast hstep')
    · have hy := hlow.resolve_left hshift
      rw [hunits', hleast, ← Nat.cast_mul]
      refine .inr ⟨hy, ?_⟩
      rw [← hleast, ← hunits, Nat.cast_lt, hk]
      exact unitsOf_strictMono (Nat.lt_succ_self k)
  refine ⟨?_, ?_, ?_, ?_⟩
  · linarith
  · intro k hk
    rcases hpred' hk with hk' | ⟨hy, hlt⟩
    · linarith
    · linarith
  · intro htie
    exact hparity (h.even (.inl (by linarith)))
  · intro k hk htie
    rcases hpred' hk with hk' | ⟨hy, hlt⟩
    · exact hparity (h.even (.inr (by linarith)))
    · linarith

/-- The shift leaves fifty-three bits of a quotient, and all of them where there is a
    shift. -/
theorem excessBits_bounds (q : ℕ) :
    (excessBits q = 0 ∨ exponentPlace * Nat.pow 2 (excessBits q) ≤ q) ∧
      q < 2 * exponentPlace * Nat.pow 2 (excessBits q) := by
  have hplace (shift : ℕ) : exponentPlace * Nat.pow 2 shift = 2 ^ (shift + 52) := by
    rw [Nat.pow_eq, Nat.pow_add, Nat.mul_comm]
    rfl
  have hbits : q < 2 ^ (q.log2 + 1) := Nat.lt_log2_self
  have hroom : 2 ^ (q.log2 + 1) ≤ 2 ^ (excessBits q + 52 + 1) := by
    apply Nat.pow_le_pow_right Nat.two_pos
    unfold excessBits
    omega
  rw [Nat.mul_assoc, hplace]
  constructor
  · by_cases hshift : excessBits q = 0
    · exact .inl hshift
    · have hlog : excessBits q + 52 = q.log2 := by
        unfold excessBits at hshift ⊢
        omega
      have hne : q ≠ 0 := by
        rintro rfl
        exact hshift rfl
      rw [hlog]
      exact .inr (Nat.log2_self_le hne)
  · rw [Nat.pow_succ] at hroom
    omega

/-- A quotient of units is rounded to a magnitude to settle on. -/
theorem settled_ofRatio (n : ℕ) {d : ℕ} (hd : 0 < d) :
    ∃ m, Settled ((n * unitsPerOne : ℕ) / d) m ∧
      ofRatio n d = ofMagnitude (min m infinityMagnitude) := by
  refine ⟨_, ?_, rfl⟩
  have hd' : (0 : ℚ) < d := Nat.cast_pos.mpr hd
  generalize n * unitsPerOne = scaled
  obtain ⟨hlow, hhigh⟩ := excessBits_bounds (scaled / d)
  generalize excessBits (scaled / d) = shift at hlow hhigh ⊢
  have hhalf := halfway_roundQuotient scaled hd (Nat.two_pow_pos shift)
  apply settled_of_halfway hhalf
  · refine hlow.imp_right fun hle => ?_
    rw [le_div_iff₀ hd', ← Nat.cast_mul, Nat.cast_le]
    exact (Nat.le_div_iff_mul_le hd).mp hle
  · rw [div_lt_iff₀ hd', ← Nat.cast_mul, Nat.cast_lt]
    exact (Nat.div_lt_iff_lt_mul hd).mp hhigh

/-! ## The nearest double -/

/-- Neither infinite nor not a number. -/
def IsFinite (v : Binary64) : Prop := v.magnitude < infinityMagnitude

/-- The number that a finite value stands for. -/
def toRat (v : Binary64) : ℚ :=
  (if v.isNegative then -1 else 1) * (v.units / unitsPerOne)

/-- The double that a number is rounded to, if the number is not negative. -/
structure Rounded (x : ℚ) (v : Binary64) : Prop where
  /-- It is a number. -/
  isNumber : v.isNaN = false
  /-- It has no sign. -/
  unsigned : v.isNegative = false
  /-- It is infinite from half way past the largest finite double on. -/
  overflow : v.isInfinite = true ↔ 2 ^ 1024 - 2 ^ 970 ≤ x
  /-- Otherwise no finite double is nearer. -/
  nearest : v.IsFinite → ∀ w : Binary64, w.IsFinite → |v.toRat - x| ≤ |w.toRat - x|
  /-- If another number is as near, the last bit of its significand is zero. -/
  even : v.IsFinite → ∀ w : Binary64, w.IsFinite → w.toRat ≠ v.toRat →
    |w.toRat - x| = |v.toRat - x| → v.magnitude % 2 = 0

/-- The number of a magnitude. -/
def valueOf (m : ℕ) : ℚ := unitsOf m / unitsPerOne

theorem cast_two_pow (k : ℕ) : ((Nat.pow 2 k : ℕ) : ℚ) = 2 ^ k := by
  rw [Nat.pow_eq, Nat.cast_pow, Nat.cast_ofNat]

theorem cast_unitsPerOne : (unitsPerOne : ℚ) = 2 ^ 1074 := by
  obtain ⟨k, hk, hunits⟩ : ∃ k, k = 1074 ∧ unitsPerOne = Nat.pow 2 k := by
    refine ⟨1074, rfl, ?_⟩
    delta unitsPerOne
    rfl
  rw [hunits, cast_two_pow, hk]

theorem unitsPerOne_pos : (0 : ℚ) < unitsPerOne := by
  rw [cast_unitsPerOne]
  exact pow_pos two_pos _

theorem valueOf_nonneg (m : ℕ) : 0 ≤ valueOf m :=
  div_nonneg (Nat.cast_nonneg _) unitsPerOne_pos.le

theorem valueOf_strictMono : StrictMono valueOf := by
  intro k m hlt
  exact div_lt_div_of_pos_right (Nat.cast_lt.mpr (unitsOf_strictMono hlt)) unitsPerOne_pos

theorem valueOf_zero : valueOf 0 = 0 := by
  have hzero : unitsOf 0 = 0 := by decide
  rw [valueOf, hzero, Nat.cast_zero, zero_div]

theorem toRat_of_unsigned {v : Binary64} (h : v.isNegative = false) :
    v.toRat = valueOf v.magnitude := by
  rw [toRat, h, if_neg Bool.false_ne_true, one_mul, units_eq_unitsOf, valueOf]

theorem toRat_of_negative {v : Binary64} (h : v.isNegative = true) :
    v.toRat = -valueOf v.magnitude := by
  rw [toRat, h, if_pos rfl, neg_one_mul, units_eq_unitsOf, valueOf]

/-- Distances in units. -/
theorem abs_valueOf_sub (m : ℕ) (x : ℚ) :
    |valueOf m - x| = |(unitsOf m : ℚ) - x * unitsPerOne| / unitsPerOne := by
  have hpos := unitsPerOne_pos
  have hsplit : valueOf m - x = (unitsOf m - x * unitsPerOne) / unitsPerOne := by
    rw [sub_div, mul_div_cancel_right₀ _ hpos.ne', valueOf]
  rw [hsplit, abs_div, abs_of_pos hpos]

/-- A sign takes a number away from what is not negative. -/
theorem abs_sub_le_abs_neg_sub {a x : ℚ} (ha : 0 ≤ a) (hx : 0 ≤ x) : |a - x| ≤ |-a - x| := by
  have habs := neg_abs_le (-a - x)
  refine abs_sub_le_iff.mpr ⟨?_, ?_⟩ <;> linarith

/-- The middle between the largest finite double and what would come next. -/
theorem middle_eq :
    (unitsOf (infinityMagnitude - 1) : ℚ) + unitsOf infinityMagnitude
      = 2 * ((2 ^ 1024 - 2 ^ 970) * unitsPerOne) := by
  have hfirst : (2 : ℚ) ^ 1024 = 2 ^ 970 * 2 ^ 54 := pow_add 2 970 54
  have hlast : (2 : ℚ) ^ lastShift = 2 ^ 970 * (2 * 2 ^ 1074) := by
    rw [← pow_succ', ← pow_add]
    rfl
  have hplace : (exponentPlace : ℚ) = 2 ^ 52 := cast_two_pow 52
  have hone : 1 ≤ 2 * exponentPlace := by decide
  rw [unitsOf_pred_infinityMagnitude, unitsOf_infinityMagnitude, Nat.cast_mul, Nat.cast_mul,
    Nat.cast_sub hone, Nat.cast_mul, cast_two_pow, hplace, cast_unitsPerOne, hlast, hfirst]
  generalize (2 : ℚ) ^ 970 = a
  generalize (2 : ℚ) ^ 1074 = b
  push_cast
  ring

namespace Settled

variable {x : ℚ} {m : ℕ} (h : Settled (x * unitsPerOne) m)
include h

/-- No magnitude is nearer to the number. -/
theorem nearest_valueOf (k : ℕ) : |valueOf m - x| ≤ |valueOf k - x| := by
  rw [abs_valueOf_sub, abs_valueOf_sub]
  exact div_le_div_of_nonneg_right (h.nearest k) unitsPerOne_pos.le

theorem even_of_tie_valueOf {k : ℕ} (hne : k ≠ m) (htie : |valueOf k - x| = |valueOf m - x|) :
    m % 2 = 0 := by
  rw [abs_valueOf_sub, abs_valueOf_sub, div_left_inj' unitsPerOne_pos.ne'] at htie
  exact h.even_of_tie hne htie

variable (hx : 0 ≤ x)
include hx

/-- No double is nearer, with or without a sign. -/
theorem nearest_toRat (w : Binary64) : |valueOf m - x| ≤ |w.toRat - x| := by
  have hvalue := h.nearest_valueOf w.magnitude
  cases hsign : w.isNegative with
  | false => rwa [toRat_of_unsigned hsign]
  | true =>
    rw [toRat_of_negative hsign]
    exact hvalue.trans (abs_sub_le_abs_neg_sub (valueOf_nonneg _) hx)

/-- If a double of another number is as near, then the magnitude is even. -/
theorem even_of_tie_toRat {w : Binary64} (hne : w.toRat ≠ valueOf m)
    (htie : |w.toRat - x| = |valueOf m - x|) : m % 2 = 0 := by
  cases hsign : w.isNegative with
  | false =>
    rw [toRat_of_unsigned hsign] at hne htie
    apply h.even_of_tie_valueOf ?_ htie
    intro heq
    exact hne (congrArg valueOf heq)
  | true =>
    rw [toRat_of_negative hsign] at hne htie
    by_cases hsame : w.magnitude = m
    · -- only zero is as near as its negative
      rw [hsame] at hne htie
      have hzero : valueOf m ≠ 0 := by
        intro heq
        rw [heq, neg_zero] at hne
        exact hne rfl
      rcases abs_eq_abs.mp htie with heq | heq
      · exact absurd (by linarith) hzero
      · have hx0 : x = 0 := by linarith
        have hnear := h.nearest_valueOf 0
        rw [hx0, valueOf_zero, sub_zero, sub_zero, abs_zero, abs_nonpos_iff] at hnear
        exact absurd hnear hzero
    · have hle := abs_sub_le_abs_neg_sub (valueOf_nonneg w.magnitude) hx
      have hge := h.nearest_valueOf w.magnitude
      exact h.even_of_tie_valueOf hsame (le_antisymm (hle.trans htie.le) hge)

end Settled

/-- The double of a magnitude that is settled on. -/
theorem rounded_of_settled {x : ℚ} {m : ℕ} (h : Settled (x * unitsPerOne) m) (hx : 0 ≤ x) :
    Rounded x (ofMagnitude (min m infinityMagnitude)) := by
  have hle : min m infinityMagnitude ≤ infinityMagnitude := Nat.min_le_right _ _
  have hmagnitude := magnitude_ofMagnitude hle
  have hunsigned := isNegative_ofMagnitude hle
  have hfinite : (ofMagnitude (min m infinityMagnitude)).IsFinite →
      min m infinityMagnitude = m := by
    intro hlt
    rw [IsFinite, hmagnitude] at hlt
    omega
  constructor
  case isNumber =>
    rw [isNaN, hmagnitude]
    exact decide_eq_false (Nat.not_lt.mpr hle)
  case unsigned => exact hunsigned
  case overflow =>
    have hiff := h.lt_infinityMagnitude_iff
    rw [middle_eq, mul_lt_mul_iff_right₀ two_pos, mul_lt_mul_iff_left₀ unitsPerOne_pos] at hiff
    rw [isInfinite, hmagnitude, beq_iff_eq, min_eq_right_iff, ← not_lt, hiff, not_lt]
  case nearest =>
    intro hlt w _
    rw [toRat_of_unsigned hunsigned, hmagnitude, hfinite hlt]
    exact h.nearest_toRat hx w
  case even =>
    intro hlt w _ hne htie
    rw [toRat_of_unsigned hunsigned, hmagnitude, hfinite hlt] at hne htie
    rw [hmagnitude, hfinite hlt]
    exact h.even_of_tie_toRat hx hne htie

/-- **The nearest double**: a quotient of whole numbers is rounded to the double nearest to
    it. -/
theorem rounded_ofRatio (n : ℕ) {d : ℕ} (hd : 0 < d) : Rounded (n / d) (ofRatio n d) := by
  obtain ⟨m, hsettled, hround⟩ := settled_ofRatio n hd
  have hx : (0 : ℚ) ≤ n / d := div_nonneg (Nat.cast_nonneg _) (Nat.cast_nonneg _)
  rw [Nat.cast_mul, mul_div_right_comm] at hsettled
  rw [hround]
  exact rounded_of_settled hsettled hx

namespace Rounded

variable {x : ℚ} {v v' : Binary64}

theorem magnitude_le (h : Rounded x v) : v.magnitude ≤ infinityMagnitude :=
  Nat.le_of_not_lt (of_decide_eq_false h.isNumber)

theorem isFinite_iff (h : Rounded x v) : v.IsFinite ↔ x < 2 ^ 1024 - 2 ^ 970 := by
  have hle := h.magnitude_le
  rw [← not_le, ← h.overflow, isInfinite, beq_iff_eq, IsFinite]
  omega

/-- Of two doubles that a number is rounded to, neither is larger. -/
theorem not_magnitude_lt (h : Rounded x v) (h' : Rounded x v') :
    ¬ v.magnitude < v'.magnitude := by
  intro hlt
  have hfinite : v.IsFinite := Nat.lt_of_lt_of_le hlt h'.magnitude_le
  have hfinite' : v'.IsFinite := h'.isFinite_iff.mpr (h.isFinite_iff.mp hfinite)
  have hv := toRat_of_unsigned h.unsigned
  have hv' := toRat_of_unsigned h'.unsigned
  have hvalue := valueOf_strictMono hlt
  -- two numbers as near as each other lie on either side
  have htie := le_antisymm (h.nearest hfinite v' hfinite') (h'.nearest hfinite' v hfinite)
  have hmiddle : valueOf v.magnitude + valueOf v'.magnitude = 2 * x := by
    rw [hv, hv'] at htie
    rcases abs_eq_abs.mp htie with heq | heq
    · linarith
    · linarith
  by_cases hnext : v.magnitude + 1 = v'.magnitude
  · -- of two neighbours one is odd
    have hne : v'.toRat ≠ v.toRat := by
      rw [hv, hv']
      exact hvalue.ne'
    have heven := h.even hfinite v' hfinite' hne htie.symm
    have heven' := h'.even hfinite' v hfinite hne.symm htie
    omega
  · -- what is between the two is nearer than both
    have hbetween : v.magnitude + 1 ≤ infinityMagnitude := Nat.lt_of_lt_of_le hlt h'.magnitude_le
    have hmagnitude := magnitude_ofMagnitude hbetween
    have hw : (ofMagnitude (v.magnitude + 1)).IsFinite := by
      have := h'.magnitude_le
      rw [IsFinite, hmagnitude]
      omega
    have hnear := h.nearest hfinite _ hw
    rw [hv, toRat_of_unsigned (isNegative_ofMagnitude hbetween), hmagnitude] at hnear
    have hlow : valueOf v.magnitude < valueOf (v.magnitude + 1) :=
      valueOf_strictMono (Nat.lt_succ_self _)
    have hhigh : valueOf (v.magnitude + 1) < valueOf v'.magnitude := valueOf_strictMono (by omega)
    have hcloser : |valueOf (v.magnitude + 1) - x| < |valueOf v.magnitude - x| := by
      have habs := neg_abs_le (valueOf v.magnitude - x)
      refine abs_sub_lt_iff.mpr ⟨?_, ?_⟩ <;> linarith
    exact absurd hnear (not_le.mpr hcloser)

/-- **One double**: a number is rounded to no other. -/
theorem unique (h : Rounded x v) (h' : Rounded x v') : v = v' := by
  have hle := Nat.le_of_not_lt (h'.not_magnitude_lt h)
  have hge := Nat.le_of_not_lt (h.not_magnitude_lt h')
  rw [← ofMagnitude_magnitude h.unsigned, ← ofMagnitude_magnitude h'.unsigned,
    Nat.le_antisymm hle hge]

end Rounded

end Binary64

end FloatLang
