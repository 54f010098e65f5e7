import LiveScene.Proofs.Binary64.Magnitude

/-!
# LiveScene.Proofs.Binary64.Remainder

The remainder of two doubles.

At the smaller one of two exponents both doubles are whole numbers of the power of two, and so is
what is left of the one after the other is taken away. It has no more digits than the double with
that exponent, so nothing is rounded (`value_remainder`).
-/

namespace LiveScene.Binary64

open Float.Model.UnpackedFloat (Sign)

variable {x y : Float}

/-! ### Scaled values -/

theorem abs_withSign (s : Sign) (q : ℚ) : |withSign s q| = |q| := by
  cases s
  · rw [withSign_negative, abs_neg]
  · rw [withSign_positive]

/-- The closest magnitude of a scaled value is that of the closest double. -/
theorem rounds_signed_scaled (negative : Bool) (v : Scaled) :
    Rounds (withSign (signOf negative) v.toRat) (signed negative v.nearest) := by
  by_cases h : 0 ≤ v.exponent
  · obtain ⟨k, hk⟩ := Int.eq_ofNat_of_zero_le h
    have hrounds := rounds_signed_nearest negative (v.significand <<< k) one_pos
    rw [Scaled.nearest, if_pos h, Scaled.toRat, hk, Int.toNat_natCast, zpow_natCast]
    rw [Nat.shiftLeft_eq] at hrounds ⊢
    push_cast at hrounds
    rwa [div_one] at hrounds
  · obtain ⟨k, hk⟩ := Int.exists_eq_neg_ofNat (not_le.mp h).le
    have hrounds := rounds_signed_nearest negative v.significand (shiftLeft_pos one_pos k)
    rw [Scaled.nearest, if_neg h, Scaled.toRat, hk, neg_neg, Int.toNat_natCast, zpow_neg,
      zpow_natCast, ← div_eq_mul_inv]
    rw [Nat.shiftLeft_eq, one_mul] at hrounds ⊢
    push_cast at hrounds
    exact hrounds

/-- A scaled value of few digits, above the least double. -/
structure Scaled.Fits (v : Scaled) : Prop where
  lt : v.significand < 2 ^ 53
  le : -1074 ≤ v.exponent

theorem Scaled.fits_ofMagnitude (bits : Nat) : (Scaled.ofMagnitude bits).Fits := by
  have hfraction : bits % (1 <<< 52) < 1 <<< 52 := Nat.mod_lt _ (by decide)
  rw [Nat.shiftLeft_eq, one_mul] at hfraction
  rw [Scaled.ofMagnitude, Nat.shiftLeft_eq, one_mul]
  split
  · exact ⟨by dsimp only; omega, le_rfl⟩
  · exact ⟨by dsimp only; omega, by dsimp only; omega⟩

/-- A scaled value that fits is a double. -/
theorem Scaled.Fits.value_signed {v : Scaled} (h : v.Fits) (hlimit : v.toRat < limit)
    (negative : Bool) :
    (signed negative v.nearest).isFinite = true ∧
      value (signed negative v.nearest) = withSign (signOf negative) v.toRat := by
  have hlt := h.lt
  have hexact := closest_of_digits (m := v.significand) (by rw [abs_of_nonneg] <;> omega) h.le
  rw [Int.cast_natCast] at hexact
  have hclosest : closest (withSign (signOf negative) v.toRat) =
      withSign (signOf negative) v.toRat := by
    rw [closest_withSign, toRat, hexact]
  have hsmall : |closest (withSign (signOf negative) v.toRat)| < limit := by
    rwa [hclosest, abs_withSign, abs_of_nonneg v.toRat_nonneg]
  rw [← hclosest]
  exact (rounds_signed_scaled negative v).finite hsmall

/-! ### What is left -/

namespace Scaled

variable {v w : Scaled} {exponent : Int}

/-- A scaled value as a whole number of a power of two that is not greater than its own. -/
def wholes (v : Scaled) (exponent : Int) : Nat := v.significand <<< (v.exponent - exponent).toNat

theorem wholes_mul (h : exponent ≤ v.exponent) :
    (v.wholes exponent : ℚ) * 2 ^ exponent = v.toRat := by
  obtain ⟨k, hk⟩ := Int.eq_ofNat_of_zero_le (Int.sub_nonneg_of_le h)
  rw [wholes, hk, Int.toNat_natCast, Nat.shiftLeft_eq, toRat,
    show v.exponent = k + exponent by omega, two_zpow_add, zpow_natCast]
  push_cast
  ring

theorem wholes_self (v : Scaled) : v.wholes v.exponent = v.significand := by
  rw [wholes, sub_self, Int.toNat_zero, Nat.shiftLeft_zero]

theorem wholes_pos (hw : 0 < w.toRat) (h : exponent ≤ w.exponent) : 0 < w.wholes exponent := by
  rw [← wholes_mul h] at hw
  exact_mod_cast (pos_iff_pos_of_mul_pos hw).mpr (two_zpow_pos _)

/-- What is left of a scaled value after whole multiples of another are taken away. -/
def rest (v w : Scaled) : Scaled :=
  ⟨v.wholes (min v.exponent w.exponent) % w.wholes (min v.exponent w.exponent),
    min v.exponent w.exponent⟩

theorem toRat_rest (v w : Scaled) :
    (v.rest w).toRat = v.toRat - ⌊v.toRat / w.toRat⌋₊ * w.toRat := by
  have hpos := two_zpow_pos (min v.exponent w.exponent)
  rw [← wholes_mul (min_le_left v.exponent w.exponent),
    ← wholes_mul (min_le_right v.exponent w.exponent), mul_div_mul_right _ _ hpos.ne',
    Nat.floor_div_eq_div, rest, toRat]
  dsimp only
  generalize v.wholes (min v.exponent w.exponent) = m
  generalize w.wholes (min v.exponent w.exponent) = n
  have hdivision : (m : ℚ) = n * (m / n : ℕ) + (m % n : ℕ) := by
    exact_mod_cast (Nat.div_add_mod m n).symm
  linear_combination -(2 : ℚ) ^ min v.exponent w.exponent * hdivision

/-- What is left has no more digits than the value with the smaller exponent. -/
theorem Fits.rest (hv : v.Fits) (hw : w.Fits) (hpos : 0 < w.toRat) : (v.rest w).Fits where
  lt := by
    have hwholes := wholes_pos hpos (min_le_right v.exponent w.exponent)
    rw [Scaled.rest]
    dsimp only
    rcases le_total v.exponent w.exponent with hle | hle
    · rw [min_eq_left hle, wholes_self]
      exact (Nat.mod_le _ _).trans_lt hv.lt
    · rw [min_eq_right hle] at hwholes ⊢
      refine (Nat.mod_lt _ hwholes).trans ?_
      rw [wholes_self]
      exact hw.lt
  le := le_min hv.le hw.le

theorem rest_lt (hpos : 0 < w.toRat) : (v.rest w).toRat < w.toRat := by
  have hwholes := wholes_pos hpos (min_le_right v.exponent w.exponent)
  rw [← wholes_mul (min_le_right v.exponent w.exponent)]
  refine mul_lt_mul_of_pos_right ?_ (two_zpow_pos _)
  exact_mod_cast Nat.mod_lt _ hwholes

end Scaled

theorem abs_value_eq (h : x.isFinite = true) :
    |value x| = (Scaled.ofMagnitude (magnitude x)).toRat := by
  rw [value_eq_toRat h, abs_withSign, abs_of_nonneg (Scaled.toRat_nonneg _)]

/-- Of what is not finite nothing can be left. -/
theorem isNaN_remainder (hx : x.isFinite = false) : (remainder x y).isNaN = true := by
  rw [remainder, hx, Bool.not_false, Bool.true_or, Bool.true_or, if_pos rfl]
  rfl

theorem remainder_eq (hx : x.isFinite = true) (hy : y.isFinite = true) (hne : value y ≠ 0) :
    remainder x y = signed (isNegative x)
      (((Scaled.ofMagnitude (magnitude x)).rest (Scaled.ofMagnitude (magnitude y))).nearest) := by
  have hzero : (y == 0) = false := by
    rw [← Bool.not_eq_true, beq_iff_value hy isFinite_zero, value_zero]
    exact hne
  have hguard : (!x.isFinite || y.isNaN || y == 0) = false := by
    rw [hx, isNaN_of_isFinite hy, hzero]
    rfl
  rw [remainder, hguard, if_neg (by decide), if_neg (by simp [hy])]
  rfl

/-- The remainder is exact: what is left after whole multiples are taken away, with the sign of the
dividend. -/
theorem value_remainder (hx : x.isFinite = true) (hy : y.isFinite = true) (hne : value y ≠ 0) :
    (remainder x y).isFinite = true ∧
      value (remainder x y) = withSign (signOf (isNegative x))
        (|value x| - ⌊|value x| / |value y|⌋₊ * |value y|) := by
  have hpos := abs_pos.mpr hne
  have hlimit := abs_value_lt hy
  rw [remainder_eq hx hy hne, abs_value_eq hx]
  rw [abs_value_eq hy] at hpos hlimit ⊢
  rw [← Scaled.toRat_rest]
  have hfits := (Scaled.fits_ofMagnitude (magnitude x)).rest
    (Scaled.fits_ofMagnitude (magnitude y)) hpos
  exact hfits.value_signed ((Scaled.rest_lt hpos).trans hlimit) (isNegative x)

/-- What is left of a double that is not negative. -/
theorem value_remainder_of_nonneg (hx : x.isFinite = true) (hy : y.isFinite = true)
    (hnonneg : 0 ≤ value x) (hpos : 0 < value y) :
    (remainder x y).isFinite = true ∧
      value (remainder x y) = value x - ⌊value x / value y⌋₊ * value y := by
  obtain ⟨hfinite, hvalue⟩ := value_remainder hx hy hpos.ne'
  refine ⟨hfinite, ?_⟩
  rw [hvalue, abs_of_nonneg hnonneg, abs_of_pos hpos]
  rcases hnonneg.eq_or_lt with hzero | hpositive
  · -- Of a zero nothing is left, whatever its sign.
    rw [← hzero, zero_div, Nat.floor_zero, Nat.cast_zero, zero_mul, sub_zero, withSign, mul_zero]
  · rw [isNegative_of_value_pos hx hpositive, signOf, if_neg (by decide), withSign_positive]

end LiveScene.Binary64
