import LiveScene.Proofs.Binary64.Operations

/-!
# LiveScene.Proofs.Binary64.Magnitude

Magnitudes and the fractions that they stand for.

* The parts of a double are those of its sign and its magnitude (`parts_eq`), and a sign and a
  magnitude make the double of these parts (`parts_signed`).
* The magnitude that is closest to a quotient is that of the closest double
  (`rounds_signed_nearest`).
* Rounding to a whole number adds a half and drops the rest (`round_eq`). It stays in every range
  of whole numbers (`round_between`).
-/

namespace LiveScene.Binary64

open Float.Model (Format UnpackedFloat)
open Float.Model.UnpackedFloat (Sign ExtendedMantissa)

/-! ### Fields -/

/-- The parts of a sign and a magnitude. -/
def ofMagnitude (s : Sign) (bits : Nat) : UnpackedFloat :=
  ofFields s (BitVec.ofNat 11 (bits >>> 52)) (BitVec.ofNat 52 bits)

/-- The sign of a sign bit. -/
def signOf (negative : Bool) : Sign := if negative then .negative else .positive

theorem unpack_eq_ofMagnitude (b : BitVec 64) :
    UnpackedFloat.unpack Format.binary64 b =
      ofMagnitude (signOf (decide (1 <<< 63 ≤ b.toNat))) (b.toNat % (1 <<< 63)) := by
  have hb := b.isLt
  have hsign : Sign.ofBitVec (@UnpackedFloat.unpackSign Format.binary64 b) =
      signOf (decide (1 <<< 63 ≤ b.toNat)) := by
    have hbit : (@UnpackedFloat.unpackSign Format.binary64 b).toNat = b.toNat >>> 63 % 2 ^ 1 :=
      BitVec.extractLsb_toNat ..
    rw [Sign.ofBitVec, signOf]
    by_cases hneg : 1 <<< 63 ≤ b.toNat
    · rw [if_neg, if_pos (decide_eq_true hneg)]
      intro hzero
      rw [hzero] at hbit
      simp only [Nat.shiftRight_eq_div_pow, Nat.shiftLeft_eq] at hbit hneg
      have : (0#1).toNat = 0 := rfl
      omega
    · rw [if_pos, if_neg (by simpa using hneg)]
      refine BitVec.eq_of_toNat_eq (hbit.trans ?_)
      simp only [Nat.shiftRight_eq_div_pow, Nat.shiftLeft_eq] at hneg ⊢
      have : (0#1).toNat = 0 := rfl
      omega
  have hexponent : @UnpackedFloat.unpackExponent Format.binary64 b =
      BitVec.ofNat 11 ((b.toNat % (1 <<< 63)) >>> 52) := by
    refine BitVec.eq_of_toNat_eq (((BitVec.extractLsb_toNat ..)).trans ?_)
    show b.toNat >>> 52 % 2 ^ 11 = _
    rw [BitVec.toNat_ofNat]
    simp only [Nat.shiftRight_eq_div_pow, Nat.shiftLeft_eq]
    omega
  have hmantissa : @UnpackedFloat.unpackMantissa Format.binary64 b =
      BitVec.ofNat 52 (b.toNat % (1 <<< 63)) := by
    refine BitVec.eq_of_toNat_eq (((BitVec.extractLsb_toNat ..)).trans ?_)
    show b.toNat >>> 0 % 2 ^ 52 = _
    rw [BitVec.toNat_ofNat]
    simp only [Nat.shiftRight_eq_div_pow, Nat.shiftLeft_eq]
    omega
  rw [unpack_eq, hsign, hexponent, hmantissa, ofMagnitude]

/-- What fields are read as is read back as it was. -/
theorem stored_ofFields (s : Sign) (exponent : BitVec 11) (mantissa : BitVec 52) :
    stored (ofFields s exponent mantissa) = ofFields s exponent mantissa := by
  cases h : ofFields s exponent mantissa with
  | notANumber => exact stored_notANumber
  | infinity t => exact stored_infinity t
  | zero t => exact stored_zero t
  | finite t m e hm =>
      obtain ⟨hcanonical, he⟩ := canonical_ofFields h
      exact stored_finite t hm hcanonical he

/-- The parts of a double are those of its sign and its magnitude. -/
theorem parts_eq (x : Float) : parts x = ofMagnitude (signOf (isNegative x)) (magnitude x) :=
  unpack_eq_ofMagnitude x.toModel.toBits.toBitVec

theorem parts_signed (negative : Bool) {bits : Nat} (h : bits < 1 <<< 63) :
    parts (signed negative bits) = ofMagnitude (signOf negative) bits := by
  have hparts : ∀ n : Nat, n < 1 <<< 64 → parts (Float.ofBits (UInt64.ofNat n)) =
      ofMagnitude (signOf (decide (1 <<< 63 ≤ n))) (n % (1 <<< 63)) := by
    intro n hn
    have htoNat : (UInt64.ofNat n).toBitVec.toNat = n :=
      (UInt64.toNat_ofNat').trans (Nat.mod_eq_of_lt hn)
    show stored (UnpackedFloat.unpack Format.binary64 (UInt64.ofNat n).toBitVec) = _
    rw [unpack_eq_ofMagnitude, htoNat]
    exact stored_ofFields _ _ _
  simp only [Nat.shiftLeft_eq] at h hparts
  cases negative with
  | true =>
      have heq := hparts (1 * 2 ^ 63 + bits) (by omega)
      rw [show decide (1 * 2 ^ 63 ≤ 1 * 2 ^ 63 + bits) = true from decide_eq_true (by omega),
        show (1 * 2 ^ 63 + bits) % (1 * 2 ^ 63) = bits by omega] at heq
      exact heq
  | false =>
      have heq := hparts bits (by omega)
      rw [show decide (1 * 2 ^ 63 ≤ bits) = false from decide_eq_false (by omega),
        show bits % (1 * 2 ^ 63) = bits by omega] at heq
      exact heq

/-! ### The fractions of magnitudes -/

/-- The fraction of a scaled value. -/
def Scaled.toRat (v : Scaled) : ℚ := v.significand * 2 ^ v.exponent

/-- The magnitudes of finite doubles are those below that of infinity. -/
theorem ofMagnitude_of_lt (s : Sign) {bits : Nat} (h : bits < infinity) :
    (ofMagnitude s bits).isFinite = true ∧
      exact (ofMagnitude s bits) = withSign s (Scaled.ofMagnitude bits).toRat := by
  have hfields : 2047 <<< 52 = 2047 * 2 ^ 52 := Nat.shiftLeft_eq ..
  rw [infinity, hfields] at h
  have hones : BitVec.ofNat 11 (bits >>> 52) ≠ -1#11 := by
    intro hones
    have htoNat := congrArg BitVec.toNat hones
    rw [BitVec.toNat_ofNat, show (-1#11).toNat = 2047 from rfl, Nat.shiftRight_eq_div_pow] at htoNat
    omega
  have hfraction : (BitVec.ofNat 52 bits).toNat = bits % (1 <<< 52) := by
    rw [BitVec.toNat_ofNat, Nat.shiftLeft_eq, Nat.one_mul]
  rw [ofMagnitude, ofFields, if_neg hones, Scaled.ofMagnitude]
  by_cases hrow : bits >>> 52 = 0
  · rw [if_pos hrow, if_pos (by rw [hrow])]
    split
    · next hzero =>
        have hnone : bits % (1 <<< 52) = 0 := by
          rw [← hfraction, hzero]
          rfl
        refine ⟨rfl, ?_⟩
        rw [Scaled.toRat, hnone, Nat.cast_zero, zero_mul, withSign, mul_zero]
        rfl
    · refine ⟨rfl, ?_⟩
      rw [exact_finite, hfraction]
      rfl
  · have hexponent : (BitVec.ofNat 11 (bits >>> 52)).toNat = bits >>> 52 := by
      rw [BitVec.toNat_ofNat, Nat.shiftRight_eq_div_pow]
      omega
    have hzero : BitVec.ofNat 11 (bits >>> 52) ≠ 0#11 := by
      intro hzero
      rw [hzero] at hexponent
      exact hrow hexponent.symm
    rw [if_neg hrow, if_neg hzero]
    refine ⟨rfl, ?_⟩
    rw [exact_finite, hfraction, hexponent]
    rfl

theorem ofMagnitude_infinity (s : Sign) : ofMagnitude s infinity = .infinity s := by
  have hexponent : BitVec.ofNat 11 (infinity >>> 52) = -1#11 := by decide
  have hmantissa : BitVec.ofNat 52 infinity = 0#52 := by decide
  rw [ofMagnitude, hexponent, hmantissa, ofFields, if_pos rfl, if_pos rfl]

/-- A row and a significand of a magnitude, also where the significand carries into the row. -/
theorem toRat_ofMagnitude {row significand : Nat} (hle : significand ≤ 2 ^ 53)
    (hfull : 2 ^ 52 ≤ significand ∨ row = 0) :
    (Scaled.ofMagnitude ((row <<< 52) + significand)).toRat =
      significand * 2 ^ ((row : ℤ) - 1074) := by
  have hbits : (row <<< 52) + significand = row * 2 ^ 52 + significand := by
    rw [Nat.shiftLeft_eq]
  rw [hbits, Scaled.ofMagnitude]
  simp only [Nat.shiftRight_eq_div_pow, Nat.shiftLeft_eq, Nat.one_mul]
  rcases lt_or_ge significand (2 ^ 52) with hlt | hge
  · obtain rfl : row = 0 := hfull.resolve_left (not_le.mpr hlt)
    rw [if_pos (by omega), Scaled.toRat,
      show (0 * 2 ^ 52 + significand) % 2 ^ 52 = significand by omega]
    rfl
  · rcases lt_or_eq_of_le hle with hlt | rfl
    · rw [if_neg (by omega), Scaled.toRat,
        show (row * 2 ^ 52 + significand) / 2 ^ 52 = row + 1 by omega,
        show 2 ^ 52 + (row * 2 ^ 52 + significand) % 2 ^ 52 = significand by omega,
        show ((row + 1 : ℕ) : ℤ) - 1075 = row - 1074 by omega]
    · -- A carry makes the significand a power of two in the next row.
      rw [if_neg (by omega), Scaled.toRat,
        show (row * 2 ^ 52 + 2 ^ 53) / 2 ^ 52 = row + 2 by omega,
        show 2 ^ 52 + (row * 2 ^ 52 + 2 ^ 53) % 2 ^ 52 = 2 ^ 52 by omega,
        show ((row + 2 : ℕ) : ℤ) - 1075 = (row - 1074) + 1 by omega, two_zpow_add, zpow_one]
      push_cast
      ring

theorem magnitude_lt_infinity {x : Float} (h : x.isFinite = true) : magnitude x < infinity := by
  by_contra hge
  have hones : BitVec.ofNat 11 (magnitude x >>> 52) = -1#11 := by
    have hbelow : magnitude x < 1 <<< 63 := Nat.mod_lt _ (by decide)
    refine BitVec.eq_of_toNat_eq ?_
    rw [BitVec.toNat_ofNat, show (-1#11).toNat = 2047 from rfl]
    simp only [infinity, Nat.shiftLeft_eq, Nat.shiftRight_eq_div_pow] at hge hbelow ⊢
    omega
  rw [isFinite_eq, parts_eq, ofMagnitude, hones, ofFields, if_pos rfl] at h
  split at h <;> exact absurd h (by simp [UnpackedFloat.isFinite])

/-- A finite double stands for the fraction of its magnitude, with its sign. -/
theorem value_eq_toRat {x : Float} (h : x.isFinite = true) :
    value x = withSign (signOf (isNegative x)) (Scaled.ofMagnitude (magnitude x)).toRat := by
  rw [value_of_parts (parts_eq x), (ofMagnitude_of_lt _ (magnitude_lt_infinity h)).2]

/-! ### The closest magnitude -/

/-- A quotient is rounded to the closest whole number, the even one of two. -/
theorem roundDiv_eq (num : Nat) {den : Nat} (hden : 0 < den) :
    (roundDiv num den : ℤ) = halfEven (num / den) := by
  rw [← (describes_fraction num hden).roundedMantissa, roundDiv,
    UnpackedFloat.accuracyOfFraction]
  by_cases hzero : num % den = 0
  · rw [if_pos hzero, hzero, if_pos (by omega)]
    rfl
  · rw [if_neg hzero]
    rcases lt_trichotomy (2 * (num % den)) den with hlt | heq | hgt
    · rw [compare_lt_iff_lt.mpr hlt, if_pos hlt]
      rfl
    · rw [compare_eq_iff_eq.mpr heq, if_neg (by omega), if_neg (by omega)]
      rfl
    · rw [compare_gt_iff_gt.mpr hgt, if_neg (by omega), if_pos hgt]
      rfl

variable {x : Float} {num den : Nat}

theorem two_zpow_le_div_iff (num : Nat) {den : Nat} (hden : 0 < den) (e : ℤ) :
    (if 0 ≤ e then den <<< e.toNat ≤ num else den ≤ num <<< (-e).toNat) ↔
      (2 : ℚ) ^ e ≤ num / den := by
  have hpos : (0 : ℚ) < den := by exact_mod_cast hden
  rw [le_div_iff₀ hpos]
  by_cases he : 0 ≤ e
  · obtain ⟨k, rfl⟩ := Int.eq_ofNat_of_zero_le he
    rw [if_pos he, Int.toNat_natCast, Nat.shiftLeft_eq, zpow_natCast, mul_comm (2 ^ k : ℚ)]
    exact_mod_cast Iff.rfl
  · obtain ⟨k, rfl⟩ := Int.exists_eq_neg_ofNat (le_of_lt (not_le.mp he))
    rw [if_neg he, neg_neg, Int.toNat_natCast, Nat.shiftLeft_eq, zpow_neg, zpow_natCast,
      inv_mul_le_iff₀ (by positivity), mul_comm (2 ^ k : ℚ)]
    exact_mod_cast Iff.rfl

/-- The leading digit of a quotient is found from those of its terms. -/
theorem floorLog2_spec (hnum : 0 < num) (hden : 0 < den) :
    (2 : ℚ) ^ floorLog2 num den ≤ num / den ∧ (num / den : ℚ) < 2 ^ (floorLog2 num den + 1) := by
  have hpos : (0 : ℚ) < den := by exact_mod_cast hden
  have hnumlow : (2 : ℚ) ^ (num.log2 : ℤ) ≤ num := by exact_mod_cast Nat.log2_self_le hnum.ne'
  have hnumhigh : (num : ℚ) < 2 ^ ((num.log2 : ℤ) + 1) := by
    exact_mod_cast Nat.lt_log2_self (n := num)
  have hdenlow : (2 : ℚ) ^ (den.log2 : ℤ) ≤ den := by exact_mod_cast Nat.log2_self_le hden.ne'
  have hdenhigh : (den : ℚ) ≤ 2 ^ ((den.log2 : ℤ) + 1) := by
    exact_mod_cast (Nat.lt_log2_self (n := den)).le
  -- The quotient of two numbers has its leading digit at the difference of theirs, or one below.
  have hhigh : (num / den : ℚ) < 2 ^ ((num.log2 : ℤ) - den.log2 + 1) := by
    rw [div_lt_iff₀ hpos]
    calc (num : ℚ) < 2 ^ ((num.log2 : ℤ) + 1) := hnumhigh
      _ = 2 ^ ((num.log2 : ℤ) - den.log2 + 1) * 2 ^ (den.log2 : ℤ) := by
          rw [← two_zpow_add]
          congr 1
          omega
      _ ≤ 2 ^ ((num.log2 : ℤ) - den.log2 + 1) * den :=
          mul_le_mul_of_nonneg_left hdenlow (two_zpow_pos _).le
  have hlow : (2 : ℚ) ^ ((num.log2 : ℤ) - den.log2 - 1) ≤ num / den := by
    rw [le_div_iff₀ hpos]
    calc (2 : ℚ) ^ ((num.log2 : ℤ) - den.log2 - 1) * den
        ≤ 2 ^ ((num.log2 : ℤ) - den.log2 - 1) * 2 ^ ((den.log2 : ℤ) + 1) :=
          mul_le_mul_of_nonneg_left hdenhigh (two_zpow_pos _).le
      _ = 2 ^ (num.log2 : ℤ) := by
          rw [← two_zpow_add]
          congr 1
          omega
      _ ≤ num := hnumlow
  have hreached := two_zpow_le_div_iff num hden ((num.log2 : ℤ) - den.log2)
  rw [floorLog2]
  by_cases hle : (2 : ℚ) ^ ((num.log2 : ℤ) - den.log2) ≤ num / den
  · rw [if_pos (hreached.mpr hle)]
    exact ⟨hle, hhigh⟩
  · rw [if_neg fun h => hle (hreached.mp h), sub_add_cancel]
    exact ⟨hlow, not_le.mp hle⟩

/-- The spacing of a quotient is the exponent at which it is rounded. -/
theorem spacing_div (hnum : 0 < num) (hden : 0 < den) :
    spacing (num / den) = max (-1074) (floorLog2 num den - 52) := by
  obtain ⟨hlow, hhigh⟩ := floorLog2_spec hnum hden
  have habs : |(num / den : ℚ)| = num / den := abs_of_nonneg (by positivity)
  refine spacing_eq ?_ (le_max_left _ _) ?_
  · rw [habs]
    exact lt_of_lt_of_le hhigh (two_zpow_le (by omega))
  · by_cases hleast : floorLog2 num den - 52 ≤ -1074
    · exact .inl (max_eq_left hleast)
    · refine .inr ?_
      rw [habs, max_eq_right (by omega), sub_add_cancel]
      exact hlow

/-- The significand of the closest magnitude. -/
theorem significand_eq (num : Nat) (hden : 0 < den) (e : ℤ) :
    ((if 0 ≤ e then roundDiv num (den <<< e.toNat) else roundDiv (num <<< (-e).toNat) den : ℕ) : ℤ)
      = halfEven (num / den / 2 ^ e) := by
  by_cases he : 0 ≤ e
  · obtain ⟨k, rfl⟩ := Int.eq_ofNat_of_zero_le he
    rw [if_pos he, Int.toNat_natCast, roundDiv_eq _ (shiftLeft_pos hden k), Nat.shiftLeft_eq,
      div_div, zpow_natCast]
    push_cast
    rfl
  · obtain ⟨k, rfl⟩ := Int.exists_eq_neg_ofNat (le_of_lt (not_le.mp he))
    rw [if_neg he, neg_neg, Int.toNat_natCast, roundDiv_eq _ hden, Nat.shiftLeft_eq, zpow_neg,
      zpow_natCast, div_inv_eq_mul, div_mul_eq_mul_div]
    push_cast
    rfl

/-- From the magnitude of infinity on, the fractions are above all doubles. -/
theorem limit_le_of_infinity_le {row significand : Nat} (hle : significand ≤ 2 ^ 53)
    (hfull : 2 ^ 52 ≤ significand ∨ row = 0) (h : infinity ≤ (row <<< 52) + significand) :
    limit ≤ significand * 2 ^ ((row : ℤ) - 1074) := by
  simp only [infinity, Nat.shiftLeft_eq] at h
  have hfull' : 2 ^ 52 ≤ significand := by omega
  have hexponent : ∃ k : ℕ, 2 ^ k ≤ significand ∧ (1024 : ℤ) ≤ k + ((row : ℤ) - 1074) := by
    rcases lt_or_eq_of_le hle with hlt | heq
    · exact ⟨52, hfull', by omega⟩
    · exact ⟨53, heq.ge, by omega⟩
  obtain ⟨k, hk, hrow⟩ := hexponent
  have hcast : (2 : ℚ) ^ (k : ℤ) ≤ significand := by
    rw [zpow_natCast]
    exact_mod_cast hk
  calc limit ≤ 2 ^ ((k : ℤ) + ((row : ℤ) - 1074)) := two_zpow_le hrow
    _ = 2 ^ (k : ℤ) * 2 ^ ((row : ℤ) - 1074) := two_zpow_add _ _
    _ ≤ significand * 2 ^ ((row : ℤ) - 1074) :=
        mul_le_mul_of_nonneg_right hcast (two_zpow_pos _).le

/-- The closest magnitude is that of the closest double, or of infinity. -/
theorem rounds_signed_nearest (negative : Bool) (num : Nat) (hden : 0 < den) :
    Rounds (withSign (signOf negative) (num / den)) (signed negative (nearest num den)) := by
  have hinfinity : infinity < 1 <<< 63 := by decide
  rcases Nat.eq_zero_or_pos num with rfl | hnum
  · rw [nearest, if_pos rfl, Nat.cast_zero, zero_div, withSign, mul_zero]
    exact rounds_zero (parts_signed negative (by decide))
  obtain ⟨e, he⟩ : ∃ e, max (-1074) (floorLog2 num den - 52) = e := ⟨_, rfl⟩
  obtain ⟨row, hrow⟩ : ∃ row : ℕ, e = row - 1074 := ⟨(e + 1074).toNat, by omega⟩
  obtain ⟨significand, hsignificand⟩ : ∃ significand, (if 0 ≤ e then roundDiv num (den <<< e.toNat)
      else roundDiv (num <<< (-e).toNat) den) = significand := ⟨_, rfl⟩
  have hspacing : spacing (num / den) = e := (spacing_div hnum hden).trans he
  have hround := significand_eq num hden e
  rw [hsignificand, ← hspacing] at hround
  have hnonneg : (0 : ℚ) ≤ num / den := by positivity
  have hle : significand ≤ 2 ^ 53 := by
    have hle := halfEven_le_of_nonneg hnonneg
    rw [← hround] at hle
    exact_mod_cast hle
  have hfull : 2 ^ 52 ≤ significand ∨ row = 0 := by
    refine or_iff_not_imp_right.mpr fun hne => ?_
    have hlow := le_halfEven_of_nonneg hnonneg (by rw [hspacing]; omega)
    rw [← hround] at hlow
    exact_mod_cast hlow
  have hclosest : closest (num / den) = significand * 2 ^ ((row : ℤ) - 1074) := by
    rw [closest, ← hround, hspacing, hrow, Int.cast_natCast]
  have hbits : nearest num den = min infinity ((row <<< 52) + significand) := by
    rw [nearest, if_neg hnum.ne', he]
    dsimp only
    rw [hsignificand, show (e + 1074).toNat = row by omega]
  have htoRat := toRat_ofMagnitude hle hfull
  rw [hbits]
  by_cases hsmall : (row <<< 52) + significand < infinity
  · rw [min_eq_right hsmall.le]
    have hparts := parts_signed negative (hsmall.trans hinfinity)
    obtain ⟨hfinite, hexact⟩ := ofMagnitude_of_lt (signOf negative) hsmall
    rw [← hparts, ← isFinite_eq] at hfinite
    rw [← hparts, htoRat, ← hclosest, ← closest_withSign] at hexact
    have hvalue : value (signed negative ((row <<< 52) + significand)) =
        closest (withSign (signOf negative) (num / den)) := hexact
    exact .inl ⟨by rw [← hvalue]; exact abs_value_lt hfinite, hfinite, hvalue⟩
  · rw [min_eq_left (not_lt.mp hsmall)]
    have hparts := (parts_signed negative hinfinity).trans (ofMagnitude_infinity _)
    have hgreat : limit ≤ closest (num / den) := by
      rw [hclosest]
      exact limit_le_of_infinity_le hle hfull (not_lt.mp hsmall)
    cases negative with
    | true =>
        refine .inr (.inr ⟨?_, hparts⟩)
        rw [closest_withSign, signOf, if_pos rfl, withSign_negative]
        exact neg_le_neg hgreat
    | false =>
        refine .inr (.inl ⟨?_, hparts⟩)
        rw [closest_withSign, signOf, if_neg (by decide), withSign_positive]
        exact hgreat

/-- No magnitude up to that of infinity is no number. -/
theorem isNaN_signed (negative : Bool) {bits : Nat} (h : bits ≤ infinity) :
    (signed negative bits).isNaN = false := by
  have hinfinity : infinity < 1 <<< 63 := by decide
  rw [isNaN_eq, parts_signed negative (lt_of_le_of_lt h hinfinity)]
  rcases lt_or_eq_of_le h with hlt | rfl
  · have hfinite := (ofMagnitude_of_lt (signOf negative) hlt).1
    cases hparts : ofMagnitude (signOf negative) bits with
    | notANumber =>
        rw [hparts] at hfinite
        exact absurd hfinite (by decide)
    | _ => rfl
  · rw [ofMagnitude_infinity]
    rfl

theorem nearest_le_infinity (num den : Nat) : nearest num den ≤ infinity := by
  rw [nearest]
  split
  · exact Nat.zero_le _
  · exact min_le_left _ _

/-! ### Whole numbers -/

theorem ofInt_natCast (n : ℕ) : ofInt n = signed false (nearest n 1) := by
  rw [ofInt, Int.natAbs_natCast, decide_eq_false (by omega)]

/-- Whole numbers of fifty-three digits are doubles. -/
theorem value_ofInt {n : ℕ} (h : n ≤ 2 ^ 53) :
    (ofInt n).isFinite = true ∧ value (ofInt n) = n := by
  have hrounds := rounds_signed_nearest false n one_pos
  rw [signOf, if_neg (by decide), withSign_positive, Nat.cast_one, div_one, ← ofInt_natCast]
    at hrounds
  have hcast : (n : ℚ) ≤ 2 ^ (53 : ℤ) := by exact_mod_cast h
  have hlimit : (2 : ℚ) ^ (53 : ℤ) < limit := zpow_lt_zpow_right₀ (by norm_num) (by norm_num)
  have hclosest := closest_natCast h
  obtain ⟨hfinite, hvalue⟩ := hrounds.finite (by
    rw [hclosest, abs_of_nonneg (Nat.cast_nonneg n)]
    exact lt_of_le_of_lt hcast hlimit)
  exact ⟨hfinite, hvalue.trans hclosest⟩

theorem Scaled.toRat_nonneg (v : Scaled) : 0 ≤ v.toRat :=
  mul_nonneg (Nat.cast_nonneg _) (two_zpow_pos _).le

/-- Magnitudes without digits after the point are great. -/
theorem le_toRat_of_exponent {bits : Nat} (h : 0 ≤ (Scaled.ofMagnitude bits).exponent) :
    2 ^ 52 ≤ (Scaled.ofMagnitude bits).toRat := by
  have hsignificand : 2 ^ 52 ≤ (Scaled.ofMagnitude bits).significand := by
    rw [Scaled.ofMagnitude] at h ⊢
    by_cases hrow : bits >>> 52 = 0
    · rw [if_pos hrow] at h
      have hleast : (0 : ℤ) ≤ -1074 := h
      exact absurd hleast (by decide)
    · rw [if_neg hrow, Nat.shiftLeft_eq, Nat.one_mul]
      exact Nat.le_add_right _ _
  have hcast : (2 : ℚ) ^ 52 ≤ (Scaled.ofMagnitude bits).significand := by
    exact_mod_cast hsignificand
  have hone : (1 : ℚ) ≤ 2 ^ (Scaled.ofMagnitude bits).exponent := one_le_zpow₀ (by norm_num) h
  exact hcast.trans (le_mul_of_one_le_right (Nat.cast_nonneg _) hone)

/-- A half is added and the digits after the point are dropped. -/
theorem round_eq (h : |value x| < 2 ^ 52) (hx : x.isFinite = true) :
    round x = signed (isNegative x) (nearest ⌊|value x| + 1 / 2⌋₊ 1) := by
  have hvalue : |value x| = (Scaled.ofMagnitude (magnitude x)).toRat := by
    rw [value_eq_toRat hx]
    cases signOf (isNegative x)
    · rw [withSign_negative, abs_neg, abs_of_nonneg (Scaled.toRat_nonneg _)]
    · rw [withSign_positive, abs_of_nonneg (Scaled.toRat_nonneg _)]
  rw [hvalue] at h ⊢
  rw [round]
  generalize hv : Scaled.ofMagnitude (magnitude x) = v at h ⊢
  have hexponent : v.exponent < 0 := by
    by_contra hnonneg
    rw [← hv] at h hnonneg
    exact absurd h (not_lt.mpr (le_toRat_of_exponent (not_lt.mp hnonneg)))
  obtain ⟨k, hk⟩ : ∃ k : ℕ, v.exponent = -((k + 1 : ℕ) : ℤ) :=
    ⟨(-v.exponent).toNat - 1, by omega⟩
  have htoRat : v.toRat + 1 / 2 = ((v.significand + 2 ^ k : ℕ) : ℚ) / (2 ^ (k + 1) : ℕ) := by
    rw [Scaled.toRat, hk, zpow_neg, zpow_natCast, ← div_eq_mul_inv]
    push_cast
    rw [add_div, pow_succ]
    congr 1
    rw [div_mul_eq_div_div, div_self (by positivity)]
  dsimp only
  rw [if_neg (by omega), hk, neg_neg, Int.toNat_natCast, Nat.add_sub_cancel, htoRat,
    Nat.floor_div_eq_div, Nat.shiftLeft_eq, Nat.one_mul, Nat.shiftRight_eq_div_pow]

theorem round_of_not_isFinite (h : x.isFinite = false) : round x = x := by
  have hgreat : infinity ≤ magnitude x := by
    by_contra hlt
    have hfinite := (ofMagnitude_of_lt (signOf (isNegative x)) (not_le.mp hlt)).1
    rw [← parts_eq, ← isFinite_eq, h] at hfinite
    exact absurd hfinite (by decide)
  have hrow : 2047 ≤ magnitude x >>> 52 := by
    rw [infinity, Nat.shiftLeft_eq] at hgreat
    rw [Nat.shiftRight_eq_div_pow]
    omega
  have hexponent : 0 ≤ (Scaled.ofMagnitude (magnitude x)).exponent := by
    rw [Scaled.ofMagnitude, if_neg (by omega)]
    show (0 : ℤ) ≤ ((magnitude x >>> 52 : ℕ) : ℤ) - 1075
    omega
  rw [round]
  exact if_pos hexponent

theorem isNegative_of_value_pos (hx : x.isFinite = true) (h : 0 < value x) :
    isNegative x = false := by
  cases hnegative : isNegative x with
  | false => rfl
  | true =>
      rw [value_eq_toRat hx, hnegative, signOf, if_pos rfl, withSign_negative] at h
      have hnonneg := (Scaled.ofMagnitude (magnitude x)).toRat_nonneg
      linarith

/-- What is less than a half outside a range of whole numbers is rounded into it; below zero the
sign stays. -/
theorem round_between (top : ℕ) (htop : top < 2 ^ 51) (hx : x.isFinite = true)
    (hlow : -(1 / 2) < value x) (hhigh : value x < top + 1 / 2) :
    (∃ n ≤ top, round x = ofInt n) ∨ round x = signed true 0 := by
  have hcast : (top : ℚ) + 1 ≤ 2 ^ 51 := by exact_mod_cast htop
  have hsmall : |value x| < 2 ^ 52 := abs_lt.mpr ⟨by linarith, by linarith⟩
  rw [round_eq hsmall hx]
  cases hnegative : isNegative x with
  | false =>
      refine .inl ⟨⌊|value x| + 1 / 2⌋₊, ?_, (ofInt_natCast _).symm⟩
      have hnonneg : 0 ≤ value x := by
        rw [value_eq_toRat hx, hnegative, signOf, if_neg (by decide), withSign_positive]
        exact Scaled.toRat_nonneg _
      rw [abs_of_nonneg hnonneg, ← Nat.lt_succ_iff, Nat.floor_lt (by linarith)]
      push_cast
      linarith
  | true =>
      have hnonpos : value x ≤ 0 := by
        by_contra hpos
        rw [isNegative_of_value_pos hx (not_le.mp hpos)] at hnegative
        exact absurd hnegative (by decide)
      have hfloor : ⌊|value x| + 1 / 2⌋₊ = 0 := by
        rw [abs_of_nonpos hnonpos, Nat.floor_eq_zero]
        linarith
      rw [hfloor]
      exact .inr rfl

end LiveScene.Binary64
