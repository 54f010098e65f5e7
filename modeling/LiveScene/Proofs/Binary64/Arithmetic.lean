import LiveScene.Proofs.Binary64.Closest
import LiveScene.Proofs.Binary64.Value

/-!
# LiveScene.Proofs.Binary64.Arithmetic

Each operation yields the closest double of its exact result.

* Two bits below a significand say where a fraction lies between it and the next (`Describes`).
  Every shift keeps this true of half the fraction, so what is rounded at the end is the fraction
  itself (`Describes.roundedMantissa`), and a rounded result is the closest double
  (`isClosest_roundWithAccuracy`).
* What is written down is read back as the closest double, or as infinity if that is too great
  (`Rounds`). This is the whole of what `rounds_add`, `rounds_sub`, `rounds_mul` and `rounds_div`
  say of the operations between finite doubles.
-/

namespace LiveScene.Binary64

open Float.Model (Format UnpackedFloat totalExponent)
open Float.Model.UnpackedFloat (Sign Accuracy ExtendedMantissa)

/-! ### The bits below a significand -/

/-- A significand with the two bits below it stands for a fraction: exactly, or for one that is
less than, equal to or more than half a step above it. -/
def Describes : ExtendedMantissa → ℚ → Prop
  | ⟨m, false, false⟩, q => q = m
  | ⟨m, false, true⟩, q => m < q ∧ q < m + 1 / 2
  | ⟨m, true, false⟩, q => q = m + 1 / 2
  | ⟨m, true, true⟩, q => m + 1 / 2 < q ∧ q < m + 1

variable {em : ExtendedMantissa} {q : ℚ}

theorem describes_exact (m : Nat) :
    Describes (ExtendedMantissa.ofMantissaAndAccuracy m .exact) m := by
  rfl

namespace Describes

theorem le (h : Describes em q) : (em.mantissa : ℚ) ≤ q := by
  obtain ⟨m, round, sticky⟩ := em
  cases round <;> cases sticky <;> simp only [Describes] at h ⊢ <;> linarith

theorem lt (h : Describes em q) : q < em.mantissa + 1 := by
  obtain ⟨m, round, sticky⟩ := em
  cases round <;> cases sticky <;> simp only [Describes] at h ⊢ <;> linarith

/-- The last digit of a significand becomes the first bit below it. -/
theorem shiftRightOne (h : Describes em q) : Describes em.shiftRightOne (q / 2) := by
  obtain ⟨m, round, sticky⟩ := em
  have hdigits : (m : ℚ) = 2 * (m / 2 : ℕ) + (m % 2 : ℕ) := by
    exact_mod_cast (Nat.div_add_mod m 2).symm
  rcases Nat.mod_two_eq_zero_or_one m with hlast | hlast <;>
    rw [hlast] at hdigits <;> cases round <;> cases sticky <;>
    simp [Describes, ExtendedMantissa.shiftRightOne, hlast] at h hdigits ⊢ <;>
    first
    | linarith
    | exact ⟨by linarith, by linarith⟩

theorem shift (h : Describes em q) (k : Nat) :
    Describes (k.repeat ExtendedMantissa.shiftRightOne em) (q / 2 ^ k) := by
  induction k with
  | zero => rwa [pow_zero, div_one]
  | succ k ih =>
      rw [pow_succ, ← div_div]
      exact ih.shiftRightOne

/-- What is rounded is the fraction. -/
theorem roundedMantissa (h : Describes em q) : (em.roundedMantissa : ℤ) = halfEven q := by
  refine (eq_halfEven ?_).symm
  obtain ⟨m, round, sticky⟩ := em
  cases round <;> cases sticky
  · rw [show (ExtendedMantissa.mk m false false).roundedMantissa = m from rfl]
    refine .inl (abs_lt.mpr ⟨?_, ?_⟩) <;> simp only [Describes] at h <;> push_cast <;> linarith
  · rw [show (ExtendedMantissa.mk m false true).roundedMantissa = m from rfl]
    refine .inl (abs_lt.mpr ⟨?_, ?_⟩) <;> simp only [Describes] at h <;> push_cast <;> linarith
  · -- In the middle between two significands the even one is taken.
    rw [show (ExtendedMantissa.mk m true false).roundedMantissa = m + m % 2 from rfl]
    simp only [Describes] at h
    rcases Nat.mod_two_eq_zero_or_one m with hlast | hlast
    · refine .inr ⟨?_, by rw [Int.even_iff]; omega⟩
      rw [hlast, abs_of_nonneg] <;> push_cast <;> linarith
    · refine .inr ⟨?_, by rw [Int.even_iff]; omega⟩
      rw [hlast, abs_of_nonpos] <;> push_cast <;> linarith
  · rw [show (ExtendedMantissa.mk m true true).roundedMantissa = m + 1 from rfl]
    refine .inl (abs_lt.mpr ⟨?_, ?_⟩) <;> simp only [Describes] at h <;> push_cast <;> linarith

end Describes

/-- A quotient of whole numbers, described by its rest. -/
theorem describes_fraction (num : Nat) {den : Nat} (hden : 0 < den) :
    Describes (ExtendedMantissa.ofMantissaAndAccuracy (num / den)
      (UnpackedFloat.accuracyOfFraction (num % den) den)) (num / den : ℚ) := by
  have hpos : (0 : ℚ) < den := by exact_mod_cast hden
  have hsplit : (num / den : ℚ) = (num / den : ℕ) + (num % den : ℕ) / den := by
    have hcast : (num : ℚ) = den * (num / den : ℕ) + (num % den : ℕ) := by
      exact_mod_cast (Nat.div_add_mod num den).symm
    rw [eq_comm, ← sub_eq_zero]
    field_simp
    linarith
  have hrest : ((num % den : ℕ) : ℚ) / den < 1 := by
    rw [div_lt_one hpos]
    exact_mod_cast Nat.mod_lt num hden
  rw [hsplit]
  generalize num / den = m
  generalize num % den = rest at hrest
  unfold UnpackedFloat.accuracyOfFraction
  split
  · next hzero =>
      subst hzero
      show (m : ℚ) + ((0 : ℕ) : ℚ) / den = m
      rw [Nat.cast_zero, zero_div, add_zero]
  · next hzero =>
      have hrestpos : (0 : ℚ) < rest / den := by
        have hcast : (0 : ℚ) < rest := by exact_mod_cast Nat.pos_of_ne_zero hzero
        positivity
      rcases lt_trichotomy (2 * rest) den with hlt | heq | hgt
      · rw [compare_lt_iff_lt.mpr hlt]
        have hhalf : (rest : ℚ) / den < 1 / 2 := by
          rw [div_lt_div_iff₀ hpos (by norm_num)]
          exact_mod_cast (by omega : rest * 2 < 1 * den)
        exact ⟨by linarith, by linarith⟩
      · rw [compare_eq_iff_eq.mpr heq]
        have hhalf : (rest : ℚ) / den = 1 / 2 := by
          rw [div_eq_div_iff hpos.ne' (by norm_num)]
          exact_mod_cast (by omega : rest * 2 = 1 * den)
        show (m : ℚ) + rest / den = m + 1 / 2
        rw [hhalf]
      · rw [compare_gt_iff_gt.mpr hgt]
        have hhalf : 1 / 2 < (rest : ℚ) / den := by
          rw [div_lt_div_iff₀ (by norm_num) hpos]
          exact_mod_cast (by omega : 1 * den < rest * 2)
        exact ⟨by linarith, by linarith⟩

/-! ### Rounded results -/

/-- Parts of the double that is closest to a fraction, with a sign. -/
def IsClosest (s : Sign) (q : ℚ) (u : UnpackedFloat) : Prop :=
  u = .zero s ∧ closest q = 0 ∨
    ∃ m e hm, u = .finite s m e hm ∧ Canonical m e ∧ (m : ℚ) * 2 ^ e = closest q

/-- The spacing of a fraction is the exponent that its significand is shifted to. -/
theorem spacing_of_describes {m : Nat} {e : Int} {a : Accuracy}
    (h : Describes (ExtendedMantissa.ofMantissaAndAccuracy m a) q) (hzero : m = 0 → e ≤ -1074) :
    spacing (q * 2 ^ e) = Format.binary64.targetExponent (totalExponent m e) := by
  have hle := h.le
  have hlt := h.lt
  rw [mantissa_ofMantissaAndAccuracy] at hle hlt
  have hq : 0 ≤ q := le_trans (Nat.cast_nonneg m) hle
  have habs : |q * 2 ^ e| = q * 2 ^ e := abs_of_nonneg (mul_nonneg hq (two_zpow_pos e).le)
  rw [targetExponent_eq, totalExponent_eq]
  have hup : q < 2 ^ ((m.log2 : ℤ) + 1) := by
    refine lt_of_lt_of_le hlt ?_
    exact_mod_cast Nat.lt_log2_self (n := m)
  have hbelow : |q * 2 ^ e| < 2 ^ ((m.log2 : ℤ) + 1 + e) := by
    rw [habs, two_zpow_add]
    exact mul_lt_mul_of_pos_right hup (two_zpow_pos e)
  refine spacing_eq (lt_of_lt_of_le hbelow (two_zpow_le (by omega))) (le_max_right _ _) ?_
  by_cases hleast : (m.log2 : ℤ) + 1 + e - 53 ≤ -1074
  · exact .inl (max_eq_right hleast)
  · refine .inr ?_
    have hm : m ≠ 0 := by
      rintro rfl
      have hlog : Nat.log2 0 = 0 := by decide
      have := hzero rfl
      omega
    have hlow : (2 : ℚ) ^ (m.log2 : ℤ) ≤ q := by
      refine le_trans ?_ hle
      exact_mod_cast Nat.log2_self_le hm
    rw [habs, max_eq_left (le_of_not_ge hleast),
      show (m.log2 : ℤ) + 1 + e - 53 + 52 = m.log2 + e by omega, two_zpow_add]
    exact mul_le_mul_of_nonneg_right hlow (two_zpow_pos e).le

/-- Rounding takes a fraction that is described to the closest double. -/
theorem isClosest_roundWithAccuracy (s : Sign) {m : Nat} {e : Int} {a : Accuracy}
    (h : Describes (ExtendedMantissa.ofMantissaAndAccuracy m a) q)
    (he : e ≤ Format.binary64.targetExponent (totalExponent m e))
    (hzero : m = 0 → e ≤ -1074) :
    IsClosest s (q * 2 ^ e) (UnpackedFloat.roundWithAccuracy Format.binary64 s m e a) := by
  have hspacing := spacing_of_describes h hzero
  obtain ⟨target, htarget⟩ : ∃ target,
      Format.binary64.targetExponent (totalExponent m e) = target := ⟨_, rfl⟩
  rw [htarget] at he hspacing
  obtain ⟨r, hr⟩ : ∃ r, (UnpackedFloat.shiftToExponent m e a target).1.roundedMantissa = r :=
    ⟨_, rfl⟩
  obtain ⟨k, hk⟩ := Int.eq_ofNat_of_zero_le (Int.sub_nonneg_of_le he)
  have hquotient : q * 2 ^ e / 2 ^ target = q / 2 ^ k := by
    rw [show target = e + k by omega, two_zpow_add, zpow_natCast,
      mul_comm q, mul_div_mul_left _ _ (two_zpow_pos e).ne']
  have hshifted : Describes (UnpackedFloat.shiftToExponent m e a target).1 (q / 2 ^ k) := by
    show Describes ((target - e).toNat.repeat ExtendedMantissa.shiftRightOne _) _
    rw [hk, Int.toNat_natCast]
    exact h.shift k
  -- What is left after the first shift is rounded to the closest whole number.
  have hround : (r : ℤ) = halfEven (q * 2 ^ e / 2 ^ spacing (q * 2 ^ e)) := by
    rw [hspacing, hquotient, ← hr]
    exact hshifted.roundedMantissa
  have hclosest : closest (q * 2 ^ e) = r * 2 ^ target := by
    rw [closest, ← hround, hspacing]
    rfl
  have hnonneg : 0 ≤ q * 2 ^ e :=
    mul_nonneg (le_trans (Nat.cast_nonneg _) h.le) (two_zpow_pos e).le
  have hle : r ≤ 2 ^ 53 := by
    have hle := halfEven_le_of_nonneg hnonneg
    rw [← hround] at hle
    exact_mod_cast hle
  have hfull : 2 ^ 52 ≤ r ∨ target = -1074 := by
    refine or_iff_not_imp_right.mpr fun hne => ?_
    have hlow := le_halfEven_of_nonneg hnonneg
      (lt_of_le_of_ne (le_spacing _) (by rw [hspacing]; exact Ne.symm hne))
    rw [← hround] at hlow
    exact_mod_cast hlow
  rcases roundWithAccuracy_of_first_shift s htarget he hr hle hfull with
    ⟨hrzero, heq⟩ | ⟨n, f, hn, heq, hcanonical, hle, hrn⟩
  · exact .inl ⟨heq, by rw [hclosest, hrzero, Nat.cast_zero, zero_mul]⟩
  · refine .inr ⟨n, f, hn, heq, hcanonical, ?_⟩
    obtain ⟨d, hd⟩ := Int.eq_ofNat_of_zero_le (Int.sub_nonneg_of_le hle)
    rw [hclosest, hrn, hd, Int.toNat_natCast, show f = d + target by omega, two_zpow_add,
      zpow_natCast]
    push_cast
    ring

theorem isClosest_round (s : Sign) {m : Nat} (hm : 0 < m) (e : Int) :
    IsClosest s (m * 2 ^ e) (UnpackedFloat.round Format.binary64 s m e) := by
  unfold UnpackedFloat.round UnpackedFloat.decreaseExponent
  generalize htarget : Format.binary64.targetExponent (totalExponent m e) = target
  have hplace := totalExponent_shiftLeft hm e (e - target).toNat
  have hshift : ((m <<< (e - target).toNat : ℕ) : ℚ) * 2 ^ (e - ((e - target).toNat : ℤ)) =
      m * 2 ^ e := by
    rw [Nat.shiftLeft_eq, show (2 : ℚ) ^ e = 2 ^ ((e - target).toNat : ℤ) *
      2 ^ (e - ((e - target).toNat : ℤ)) by rw [← two_zpow_add]; congr 1; omega]
    push_cast
    rw [zpow_natCast]
    ring
  rw [← hshift]
  refine isClosest_roundWithAccuracy s (describes_exact _) ?_ fun hzero => ?_
  · rw [hplace, htarget]
    omega
  · exact absurd hzero (Nat.ne_of_gt (shiftLeft_pos hm _))

/-! ### Written down and read back -/

/-- The least power of two above all finite doubles. -/
def limit : ℚ := 2 ^ (1024 : ℤ)

theorem limit_pos : 0 < limit := two_zpow_pos _

/-- A double that is the closest one to a fraction, or infinity if the fraction is too great. -/
def Rounds (q : ℚ) (x : Float) : Prop :=
  |closest q| < limit ∧ x.isFinite = true ∧ value x = closest q ∨
    limit ≤ closest q ∧ parts x = .infinity .positive ∨
    closest q ≤ -limit ∧ parts x = .infinity .negative

/-- What is too great is read back as infinity. -/
theorem stored_of_great (s : Sign) {m : Nat} {e : Int} (hm : 0 < m) (he : 971 < e) :
    stored (.finite s m e hm) = .infinity s := by
  rw [stored_finite_eq, if_pos (by omega)]

theorem Canonical.lt_of_le {m : Nat} {e : Int} (h : Canonical m e) (he : e ≤ 971) :
    (m : ℚ) * 2 ^ e < limit := by
  have hm : (m : ℚ) < 2 ^ (53 : ℤ) := by exact_mod_cast h.lt
  calc (m : ℚ) * 2 ^ e < 2 ^ (53 : ℤ) * 2 ^ e := mul_lt_mul_of_pos_right hm (two_zpow_pos e)
    _ = 2 ^ (53 + e) := (two_zpow_add _ _).symm
    _ ≤ limit := two_zpow_le (by omega)

theorem Canonical.le_of_gt {m : Nat} {e : Int} (h : Canonical m e) (he : 971 < e) :
    limit ≤ m * 2 ^ e := by
  have hm : (2 : ℚ) ^ (52 : ℤ) ≤ m := by exact_mod_cast h.full.resolve_right (by omega)
  calc limit ≤ 2 ^ (52 + e) := two_zpow_le (by omega)
    _ = 2 ^ (52 : ℤ) * 2 ^ e := two_zpow_add _ _
    _ ≤ m * 2 ^ e := mul_le_mul_of_nonneg_right hm (two_zpow_pos e).le

/-- A fraction with a sign. -/
def withSign (s : Sign) (q : ℚ) : ℚ := s.apply 1 * q

theorem withSign_positive (q : ℚ) : withSign .positive q = q := by
  show ((1 : ℤ) : ℚ) * q = q
  rw [Int.cast_one, one_mul]

theorem withSign_negative (q : ℚ) : withSign .negative q = -q := by
  show ((-1 : ℤ) : ℚ) * q = -q
  rw [Int.cast_neg, Int.cast_one, neg_one_mul]

theorem exact_finite (s : Sign) {m : Nat} {e : Int} (hm : 0 < m) :
    exact (.finite s m e hm) = withSign s (m * 2 ^ e) := by
  cases s
  · rw [exact_negative, withSign_negative]
  · rw [exact_positive, withSign_positive]

theorem closest_withSign (s : Sign) (q : ℚ) : closest (withSign s q) = withSign s (closest q) := by
  cases s
  · rw [withSign_negative, withSign_negative, closest_neg]
  · rw [withSign_positive, withSign_positive]

/-- The closest double, written down and read back. -/
theorem IsClosest.rounds {s : Sign} {u : UnpackedFloat} {x : Float} (h : IsClosest s q u)
    (hx : parts x = stored u) : Rounds (withSign s q) x := by
  rcases h with ⟨rfl, hzero⟩ | ⟨m, e, hm, rfl, hcanonical, heq⟩
  · rw [stored_zero] at hx
    have hclosest : closest (withSign s q) = 0 := by
      rw [closest_withSign, hzero, withSign, mul_zero]
    refine .inl ⟨?_, ?_, ?_⟩
    · rw [hclosest, abs_zero]
      exact limit_pos
    · rw [isFinite_eq, hx]
      rfl
    · rw [hclosest, value_of_parts hx]
      rfl
  · have hpos := natCast_mul_pos hm e
    have hclosest : closest (withSign s q) = withSign s (m * 2 ^ e) := by
      rw [closest_withSign, heq]
    by_cases he : e ≤ 971
    · rw [stored_finite s hm hcanonical he] at hx
      refine .inl ⟨?_, ?_, ?_⟩
      · have hlt := hcanonical.lt_of_le he
        rw [hclosest]
        cases s
        · rwa [withSign_negative, abs_neg, abs_of_pos hpos]
        · rwa [withSign_positive, abs_of_pos hpos]
      · rw [isFinite_eq, hx]
        rfl
      · rw [hclosest, value_of_parts hx, exact_finite]
    · rw [stored_of_great s hm (not_le.mp he)] at hx
      have hle := hcanonical.le_of_gt (not_le.mp he)
      rw [Rounds, hclosest]
      cases s
      · rw [withSign_negative]
        exact .inr (.inr ⟨neg_le_neg hle, hx⟩)
      · rw [withSign_positive]
        exact .inr (.inl ⟨hle, hx⟩)

theorem closest_zero : closest 0 = 0 := by
  have hdigits := closest_intCast (n := 0) (by norm_num)
  rwa [Int.cast_zero] at hdigits

/-- A sum of significands is read back as the closest double. -/
theorem rounds_of_normalize {z e : Int} {x : Float}
    (hx : parts x = stored (UnpackedFloat.normalize Format.binary64 z e .positive)) :
    Rounds (z * 2 ^ e) x := by
  unfold UnpackedFloat.normalize at hx
  rcases lt_trichotomy z 0 with hneg | rfl | hpos
  · rw [compare_lt_iff_lt.mpr hneg] at hx
    have hrounds := (isClosest_round .negative (by omega : 0 < (-z).toNat) e).rounds hx
    rwa [withSign_negative, ← neg_mul, ← Int.cast_natCast, Int.toNat_of_nonneg (by omega),
      Int.cast_neg, neg_neg] at hrounds
  · rw [compare_eq_iff_eq.mpr rfl] at hx
    rw [Int.cast_zero, zero_mul, ← withSign_positive 0]
    exact IsClosest.rounds (.inl ⟨rfl, closest_zero⟩) hx
  · rw [compare_gt_iff_gt.mpr hpos] at hx
    have hrounds := (isClosest_round .positive (by omega : 0 < z.toNat) e).rounds hx
    rwa [withSign_positive, ← Int.cast_natCast, Int.toNat_of_nonneg (by omega)] at hrounds

end LiveScene.Binary64
