import LiveScene.Proofs.Binary64.Neighbour
import LiveScene.Proofs.Binary64.Remainder
import LiveScene.Proofs.Decimal.Text

/-!
# LiveScene.Proofs.Decimal.Closest

The closest double of a decimal.

A decimal stands for a fraction (`Decimal.toRat`), and its closest magnitude is that of the closest
double of the fraction, also where the powers of ten are not formed (`rounds_nearest`). So it
depends on the fraction only, and a decimal that is exactly a double reads back as this one
(`nearest_eq_of_toRat`). This is where the search for the shortest decimal ends at the latest, so
what it finds reads back (`nearest_shortest`).
-/

namespace LiveScene

namespace Binary64

variable {q : ℚ} {negative : Bool}

/-- What is not below the limit is rounded to infinity. -/
theorem rounds_infinity (h : limit ≤ q) :
    Rounds (withSign (signOf negative) q) (signed negative infinity) := by
  have hparts := (parts_signed negative (by decide)).trans (ofMagnitude_infinity _)
  have hlimit : closest limit = limit := by
    have hdigits := closest_of_digits (m := 1) (e := 1024) (by norm_num) (by norm_num)
    rwa [Int.cast_one, one_mul] at hdigits
  have hgreat : limit ≤ closest q := hlimit ▸ closest_mono h
  cases negative with
  | true =>
      refine .inr (.inr ⟨?_, hparts⟩)
      rw [closest_withSign, signOf, if_pos rfl, withSign_negative]
      exact neg_le_neg hgreat
  | false =>
      refine .inr (.inl ⟨?_, hparts⟩)
      rw [closest_withSign, signOf, if_neg (by decide), withSign_positive]
      exact hgreat

/-- What is less than half of the least double is rounded to zero. -/
theorem rounds_none (hnonneg : 0 ≤ q) (h : 2 * q < 2 ^ (-1074 : ℤ)) :
    Rounds (withSign (signOf negative) q) (signed negative 0) := by
  have hclosest : closest q = 0 := by
    have hadd := closest_add_of_lt closest_zero le_rfl hnonneg (by rwa [spacing_zero])
    rwa [zero_add] at hadd
  have heq : closest (withSign (signOf negative) q) = closest 0 := by
    rw [closest_withSign, hclosest, withSign, mul_zero, closest_zero]
  rw [Rounds, heq]
  exact rounds_zero (parts_signed negative (by decide))

/-- A fraction has one closest magnitude. -/
theorem eq_of_rounds {a b : ℕ} (ha : a ≤ infinity) (hb : b ≤ infinity)
    (hqa : Rounds q (signed negative a)) (hqb : Rounds q (signed negative b)) : a = b := by
  have hrank : rank (signed negative a) = rank (signed negative b) := by
    rw [hqa.rank_eq, hqb.rank_eq]
  rw [rank_signed negative ha, rank_signed negative hb] at hrank
  have habs := congrArg abs hrank
  rw [abs_withSign, abs_withSign, abs_of_nonneg (Scaled.toRat_nonneg _),
    abs_of_nonneg (Scaled.toRat_nonneg _)] at habs
  exact strictMono_ofMagnitude.injective habs

end Binary64

namespace Decimal

open Binary64

/-- The fraction that a decimal stands for. -/
def toRat (d : Decimal) : ℚ := d.coefficient * 10 ^ d.exponent

variable {d : Decimal}

theorem toRat_nonneg (d : Decimal) : 0 ≤ d.toRat :=
  mul_nonneg (Nat.cast_nonneg _) (zpow_nonneg (by norm_num) _)

theorem two_zpow_le_ten_zpow (n : ℕ) : (2 : ℚ) ^ (3 * n : ℤ) ≤ 10 ^ (n : ℤ) := by
  rw [zpow_mul, zpow_natCast, zpow_natCast]
  exact pow_le_pow_left₀ (by norm_num) (by norm_num) n

/-- Decimals with great exponents are beyond all doubles. -/
theorem limit_le_toRat (hpos : 0 < d.coefficient) (h : 400 < d.exponent) : limit ≤ d.toRat := by
  have hone : (1 : ℚ) ≤ d.coefficient := by exact_mod_cast hpos
  calc limit ≤ 2 ^ (3 * (400 : ℕ) : ℤ) := two_zpow_le (by norm_num)
    _ ≤ 10 ^ ((400 : ℕ) : ℤ) := two_zpow_le_ten_zpow 400
    _ ≤ 10 ^ d.exponent := zpow_le_zpow_right₀ (by norm_num) h.le
    _ ≤ d.toRat := le_mul_of_one_le_left (zpow_nonneg (by norm_num) _) hone

/-- Decimals with small exponents are less than half of the least double. -/
theorem toRat_lt_least (h : d.exponent < -(400 + d.coefficient.log2 : ℤ)) :
    2 * d.toRat < 2 ^ (-1074 : ℤ) := by
  obtain ⟨k, hk⟩ : ∃ k : ℕ, d.exponent = -(k : ℤ) := ⟨(-d.exponent).toNat, by omega⟩
  have hten : (10 : ℚ) ^ d.exponent ≤ 2 ^ (-(3 * k : ℤ)) := by
    rw [hk, zpow_neg, zpow_neg]
    exact inv_anti₀ (two_zpow_pos _) (two_zpow_le_ten_zpow k)
  have hcoefficient : (d.coefficient : ℚ) < 2 ^ ((d.coefficient.log2 : ℤ) + 1) := by
    exact_mod_cast Nat.lt_log2_self (n := d.coefficient)
  calc 2 * d.toRat ≤ 2 * (d.coefficient * 2 ^ (-(3 * k : ℤ))) := by
        rw [toRat]
        gcongr
    _ < 2 * (2 ^ ((d.coefficient.log2 : ℤ) + 1) * 2 ^ (-(3 * k : ℤ))) := by
        have hpos := two_zpow_pos (-(3 * k : ℤ))
        gcongr
    _ = 2 ^ (1 + ((d.coefficient.log2 : ℤ) + 1 + -(3 * k : ℤ))) := by
        rw [two_zpow_add 1, two_zpow_add (_ + 1), zpow_one]
    _ ≤ 2 ^ (-1074 : ℤ) := two_zpow_le (by omega)

/-- The closest magnitude of a decimal is that of the closest double of its fraction. -/
theorem rounds_nearest (negative : Bool) (d : Decimal) :
    Rounds (withSign (signOf negative) d.toRat) (signed negative d.nearest) := by
  rw [nearest]
  split
  · next hzero =>
      rw [toRat, hzero, Nat.cast_zero, zero_mul]
      exact rounds_none le_rfl (by rw [mul_zero]; exact two_zpow_pos _)
  · next hpos =>
      split
      · next hgreat => exact rounds_infinity (limit_le_toRat (Nat.pos_of_ne_zero hpos) hgreat)
      · split
        · next hsmall => exact rounds_none d.toRat_nonneg (toRat_lt_least hsmall)
        · split
          · next hexponent =>
              obtain ⟨k, hk⟩ := Int.eq_ofNat_of_zero_le hexponent
              have hrounds := rounds_signed_nearest negative (d.coefficient * 10 ^ k) one_pos
              rw [toRat, hk, Int.toNat_natCast, zpow_natCast]
              push_cast at hrounds
              rwa [div_one] at hrounds
          · next hexponent =>
              obtain ⟨k, hk⟩ := Int.exists_eq_neg_ofNat (not_le.mp hexponent).le
              have hpow : 0 < 10 ^ k := by positivity
              have hrounds := rounds_signed_nearest negative d.coefficient hpow
              rw [toRat, hk, neg_neg, Int.toNat_natCast, zpow_neg, zpow_natCast, ← div_eq_mul_inv]
              push_cast at hrounds
              exact hrounds

/-- Decimals that stand for the same fraction have the same closest magnitude. -/
theorem nearest_congr {e : Decimal} (h : d.toRat = e.toRat) : d.nearest = e.nearest :=
  eq_of_rounds d.nearest_le_infinity e.nearest_le_infinity (rounds_nearest false d)
    (h ▸ rounds_nearest false e)

/-- A decimal that is exactly a double has this one as its closest. -/
theorem nearest_eq_of_toRat {bits : ℕ} (hbits : bits < infinity)
    (h : d.toRat = (Scaled.ofMagnitude bits).toRat) : d.nearest = bits := by
  have hparts := parts_signed false (hbits.trans (by decide : infinity < 1 <<< 63))
  obtain ⟨hfinite, hexact⟩ := ofMagnitude_of_lt (signOf false) hbits
  rw [← hparts, ← isFinite_eq] at hfinite
  have hvalue := rounds_value hfinite
  rw [value_of_parts hparts, hexact, ← h] at hvalue
  exact eq_of_rounds d.nearest_le_infinity hbits.le (rounds_nearest false d) hvalue

theorem toRat_ofScaled (v : Scaled) : (ofScaled v).toRat = v.toRat := by
  rw [ofScaled]
  split
  · next hexponent =>
      obtain ⟨k, hk⟩ := Int.eq_ofNat_of_zero_le hexponent
      rw [toRat, Scaled.toRat, hk, Int.toNat_natCast, Nat.shiftLeft_eq, zpow_zero, mul_one,
        zpow_natCast]
      push_cast
      rfl
  · next hexponent =>
      obtain ⟨k, hk⟩ := Int.exists_eq_neg_ofNat (not_le.mp hexponent).le
      rw [toRat, Scaled.toRat, hk, neg_neg, Int.toNat_natCast, zpow_neg, zpow_neg, zpow_natCast,
        zpow_natCast]
      have hten : (10 : ℚ) ^ k = 5 ^ k * 2 ^ k := by
        rw [← mul_pow]
        norm_num
      have hcast : ((v.significand * Nat.pow 5 k : ℕ) : ℚ) = v.significand * 5 ^ k := by
        rw [Nat.pow_eq]
        push_cast
        rfl
      rw [hcast, hten, mul_inv, ← mul_assoc, mul_inv_cancel_right₀ (by positivity)]

/-- The shortest decimal of a finite double reads back. -/
theorem nearest_shortest (tie : Tie) {bits : ℕ} (h : bits < infinity) :
    (shortest tie bits).nearest = bits :=
  nearest_search (nearest_eq_of_toRat h (toRat_ofScaled _)) _

end Decimal

end LiveScene
