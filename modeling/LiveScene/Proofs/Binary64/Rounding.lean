import LiveScene.Proofs.Binary64.Parts

/-!
# LiveScene.Proofs.Binary64.Rounding

How far rounding moves a result.

A result is rounded in two shifts: the first leaves fifty-three digits, or those above the least
exponent, and the second takes away the digit that a carry has added. `Rounded` says what
comes out in terms of `totalExponent`, the place of the leading digit: it stays where it is or
moves up by one, and the result is canonical. Only what is less than half of the least double
becomes zero.
-/

namespace LiveScene.Binary64

open Float.Model (Format UnpackedFloat totalExponent)
open Float.Model.UnpackedFloat (Sign Accuracy ExtendedMantissa)

theorem targetExponent_eq (place : Int) :
    Format.binary64.targetExponent place = max (place - 53) (-1074) := by
  rfl

theorem totalExponent_eq (m : Nat) (e : Int) : totalExponent m e = m.log2 + 1 + e := rfl

/-! ### The steps of rounding -/

theorem mantissa_repeat_shiftRightOne (em : ExtendedMantissa) (k : Nat) :
    (k.repeat ExtendedMantissa.shiftRightOne em).mantissa = em.mantissa / 2 ^ k := by
  induction k with
  | zero => simp [Nat.repeat]
  | succ k ih =>
      show (k.repeat ExtendedMantissa.shiftRightOne em).mantissa / 2 = em.mantissa / 2 ^ (k + 1)
      rw [ih, Nat.div_div_eq_div_mul, Nat.pow_succ]

theorem mantissa_ofMantissaAndAccuracy (m : Nat) (a : Accuracy) :
    (ExtendedMantissa.ofMantissaAndAccuracy m a).mantissa = m := by
  unfold ExtendedMantissa.ofMantissaAndAccuracy
  split <;> rfl

theorem mantissa_shiftToExponent (m : Nat) (e : Int) (a : Accuracy) (target : Int) :
    (UnpackedFloat.shiftToExponent m e a target).1.mantissa = m / 2 ^ (target - e).toNat := by
  show ((target - e).toNat.repeat ExtendedMantissa.shiftRightOne _).mantissa = _
  rw [mantissa_repeat_shiftRightOne, mantissa_ofMantissaAndAccuracy]

theorem exponent_shiftToExponent {m : Nat} {e : Int} {a : Accuracy} {target : Int}
    (h : e ≤ target) : (UnpackedFloat.shiftToExponent m e a target).2 = target := by
  show e + ((target - e).toNat : Int) = target
  omega

/-- Rounding keeps a significand or takes the next. -/
theorem roundedMantissa_cases (em : ExtendedMantissa) :
    em.roundedMantissa = em.mantissa ∨ em.roundedMantissa = em.mantissa + 1 := by
  have hparity : em.mantissa % 2 = 0 ∨ em.mantissa % 2 = 1 := by omega
  unfold ExtendedMantissa.roundedMantissa Accuracy.roundToNearestEven
  split <;> omega

theorem log2_div_two_pow {m k : Nat} (h : 2 ^ k ≤ m) : (m / 2 ^ k).log2 = m.log2 - k := by
  have hm : m ≠ 0 := by
    have hpos := Nat.two_pow_pos k
    omega
  have hk : k ≤ m.log2 := (Nat.le_log2 hm).mpr h
  refine log2_eq_of_le_of_lt ?_ ?_
  · rw [Nat.le_div_iff_mul_le (Nat.two_pow_pos k), ← Nat.pow_add, Nat.sub_add_cancel hk]
    exact Nat.log2_self_le hm
  · rw [Nat.div_lt_iff_lt_mul (Nat.two_pow_pos k), ← Nat.pow_add]
    have hlt := Nat.lt_log2_self (n := m)
    rwa [show m.log2 - k + 1 + k = m.log2 + 1 by omega]

theorem log2_succ_cases (m : Nat) : (m + 1).log2 = m.log2 ∨ (m + 1).log2 = m.log2 + 1 := by
  by_cases hm : m = 0
  · subst hm
    exact Or.inl (by decide)
  · have hle := Nat.log2_self_le hm
    have hlt := Nat.lt_log2_self (n := m)
    by_cases hcarry : m + 1 = 2 ^ (m.log2 + 1)
    · refine Or.inr (log2_eq_of_le_of_lt (Nat.le_of_eq hcarry.symm) ?_)
      have hpow : 2 ^ (m.log2 + 1 + 1) = 2 ^ (m.log2 + 1) * 2 := Nat.pow_succ ..
      omega
    · exact Or.inl (log2_eq_of_le_of_lt (by omega) (by omega))

/-- The first shift: fifty-three digits are left, or those above the least exponent, and the
leading digit stays in its place. -/
theorem first_shift {m : Nat} {e target : Int} (hm : 0 < m)
    (htarget : Format.binary64.targetExponent (totalExponent m e) = target) (he : e ≤ target) :
    m / 2 ^ (target - e).toNat < 2 ^ 53 ∧
      (2 ^ 52 ≤ m / 2 ^ (target - e).toNat ∨ target = -1074) ∧
      (m / 2 ^ (target - e).toNat = 0 → totalExponent m e < -1073) ∧
      (m / 2 ^ (target - e).toNat ≠ 0 →
        totalExponent (m / 2 ^ (target - e).toNat) target = totalExponent m e) := by
  rw [targetExponent_eq, totalExponent_eq] at htarget
  obtain ⟨k, hk⟩ := Int.eq_ofNat_of_zero_le (Int.sub_nonneg_of_le he)
  have htoNat : (target - e).toNat = k := by omega
  rw [htoNat]
  have hlt : m < 2 ^ (m.log2 + 1) := Nat.lt_log2_self
  refine ⟨?_, ?_, fun hzero => ?_, fun hpos => ?_⟩
  · rw [Nat.div_lt_iff_lt_mul (Nat.two_pow_pos k), ← Nat.pow_add]
    exact Nat.lt_of_lt_of_le hlt (Nat.pow_le_pow_right (by decide) (by omega))
  · by_cases hleast : target = -1074
    · exact Or.inr hleast
    · refine Or.inl ?_
      rw [Nat.le_div_iff_mul_le (Nat.two_pow_pos k), ← Nat.pow_add]
      exact (Nat.le_log2 (Nat.ne_of_gt hm)).mp (by omega)
  · have hsmall : m < 2 ^ k := (Nat.div_eq_zero_iff_lt (Nat.two_pow_pos k)).mp hzero
    have hlog := (Nat.log2_lt (Nat.ne_of_gt hm)).mpr hsmall
    rw [totalExponent_eq]
    omega
  · have hle : 2 ^ k ≤ m := Nat.le_of_not_lt fun hsmall => hpos (Nat.div_eq_of_lt hsmall)
    have hlog : k ≤ m.log2 := (Nat.le_log2 (Nat.ne_of_gt hm)).mpr hle
    rw [totalExponent_eq, totalExponent_eq, log2_div_two_pow hle]
    omega

/-- The second shift takes away the digit of a carry, and nothing else. -/
theorem second_shift {r : Nat} {target : Int} (hpos : 0 < r) (hle : r ≤ 2 ^ 53)
    (htarget : -1074 ≤ target) (hfull : 2 ^ 52 ≤ r ∨ target = -1074) :
    ∃ m e, 0 < m ∧ Canonical m e ∧ target ≤ e ∧ r = m * 2 ^ (e - target).toNat ∧
      (UnpackedFloat.shiftToTargetExponent Format.binary64 r target .exact).1.mantissa = m ∧
      (UnpackedFloat.shiftToTargetExponent Format.binary64 r target .exact).2 = e := by
  unfold UnpackedFloat.shiftToTargetExponent
  rw [mantissa_shiftToExponent, targetExponent_eq, totalExponent_eq]
  by_cases hcarry : r = 2 ^ 53
  -- A carry out of the significand leaves a power of two, and the exponent goes up by one.
  · subst hcarry
    have hlog : Nat.log2 (2 ^ 53) = 53 := Nat.log2_two_pow
    have hnext : max ((Nat.log2 (2 ^ 53) : Int) + 1 + target - 53) (-1074) = target + 1 := by
      rw [hlog]
      omega
    have hone : (target + 1 - target).toNat = 1 := by omega
    rw [hnext, hone]
    refine ⟨2 ^ 52, target + 1, by decide, ⟨by decide, by omega, Or.inl (Nat.le_refl _)⟩,
      by omega, ?_, by decide, exponent_shiftToExponent (by omega)⟩
    rw [hone]
    decide
  · have hlt : r < 2 ^ 53 := by omega
    have hlog : r.log2 < 53 := (Nat.log2_lt (by omega)).mpr hlt
    have hsame : max ((r.log2 : Int) + 1 + target - 53) (-1074) = target := by
      rcases hfull with hfull | hleast
      · have hlog' := log2_eq_of_le_of_lt hfull hlt
        omega
      · omega
    have hnone : (target - target).toNat = 0 := by omega
    rw [hsame, hnone]
    refine ⟨r, target, hpos, ⟨hlt, htarget, hfull⟩, Int.le_refl _, ?_, Nat.div_one r,
      exponent_shiftToExponent (Int.le_refl _)⟩
    rw [hnone, Nat.pow_zero, Nat.mul_one]

/-- What rounding makes of the significand that the first shift leaves. -/
theorem roundWithAccuracy_of_first_shift (s : Sign) {m r : Nat} {e target : Int} {a : Accuracy}
    (htarget : Format.binary64.targetExponent (totalExponent m e) = target) (he : e ≤ target)
    (hr : (UnpackedFloat.shiftToExponent m e a target).1.roundedMantissa = r)
    (hle : r ≤ 2 ^ 53) (hfull : 2 ^ 52 ≤ r ∨ target = -1074) :
    r = 0 ∧ UnpackedFloat.roundWithAccuracy Format.binary64 s m e a = .zero s ∨
      ∃ n f hn, UnpackedFloat.roundWithAccuracy Format.binary64 s m e a = .finite s n f hn ∧
        Canonical n f ∧ target ≤ f ∧ r = n * 2 ^ (f - target).toNat := by
  have hleast : -1074 ≤ target := by
    rw [← htarget, targetExponent_eq]
    omega
  have hfirst : UnpackedFloat.shiftToTargetExponent Format.binary64 m e a =
      ((UnpackedFloat.shiftToExponent m e a target).1, target) := by
    unfold UnpackedFloat.shiftToTargetExponent
    rw [htarget]
    exact Prod.ext rfl (exponent_shiftToExponent he)
  unfold UnpackedFloat.roundWithAccuracy
  simp only [hfirst, hr]
  by_cases hrzero : r = 0
  · subst hrzero
    refine Or.inl ⟨rfl, ?_⟩
    rw [dif_pos]
    show (UnpackedFloat.shiftToExponent 0 target .exact _).1.mantissa = 0
    rw [mantissa_shiftToExponent, Nat.zero_div]
  · obtain ⟨n, f, hn, hcanonical, hle', heq, hmantissa, hexponent⟩ :=
      second_shift (Nat.pos_of_ne_zero hrzero) hle hleast hfull
    refine Or.inr ⟨n, f, hn, ?_, hcanonical, hle', heq⟩
    rw [dif_neg (by rw [hmantissa]; omega)]
    exact finite_congr s hmantissa hexponent

theorem totalExponent_mul_two_pow {n : Nat} (hn : 0 < n) (k : Nat) (e : Int) :
    totalExponent (n * 2 ^ k) e = totalExponent n (e + k) := by
  have hlog : (n * 2 ^ k).log2 = n.log2 + k := by
    refine log2_eq_of_le_of_lt ?_ ?_
    · rw [Nat.pow_add]
      exact Nat.mul_le_mul_right _ (Nat.log2_self_le (Nat.ne_of_gt hn))
    · rw [show n.log2 + k + 1 = n.log2 + 1 + k by omega, Nat.pow_add]
      exact (Nat.mul_lt_mul_right (Nat.two_pow_pos k)).mpr Nat.lt_log2_self
  rw [totalExponent_eq, totalExponent_eq, hlog]
  omega

/-- What rounding may make of a value whose leading digit has a place. -/
def Rounded (s : Sign) (place : Int) (u : UnpackedFloat) : Prop :=
  (u = .zero s ∧ place < -1073) ∨
    ∃ m e hm, u = .finite s m e hm ∧ Canonical m e ∧ place ≤ totalExponent m e ∧
      totalExponent m e ≤ max (place + 1) (-1073)

/-- Rounding of a significand whose digits reach down far enough. -/
theorem rounded_roundWithAccuracy (s : Sign) {m : Nat} {e : Int} (hm : 0 < m)
    (he : e ≤ Format.binary64.targetExponent (totalExponent m e)) (a : Accuracy) :
    Rounded s (totalExponent m e) (UnpackedFloat.roundWithAccuracy Format.binary64 s m e a) := by
  obtain ⟨target, htarget⟩ : ∃ target,
      Format.binary64.targetExponent (totalExponent m e) = target :=
    ⟨_, rfl⟩
  rw [htarget] at he
  obtain ⟨hlt, hfull, hzero, hplace⟩ := first_shift hm htarget he
  have hmantissa := mantissa_shiftToExponent m e a target
  generalize hq : m / 2 ^ (target - e).toNat = q at *
  obtain ⟨r, hr⟩ : ∃ r, (UnpackedFloat.shiftToExponent m e a target).1.roundedMantissa = r :=
    ⟨_, rfl⟩
  have hcases : r = q ∨ r = q + 1 := by
    have hround := roundedMantissa_cases (UnpackedFloat.shiftToExponent m e a target).1
    rwa [hr, hmantissa] at hround
  rcases roundWithAccuracy_of_first_shift s htarget he hr (by omega)
    (hfull.imp_left fun h => by omega) with ⟨hrzero, heq⟩ | ⟨n, f, hn, heq, hcanonical, hle, hrn⟩
  · exact Or.inl ⟨heq, hzero (by omega)⟩
  · refine Or.inr ⟨n, f, hn, heq, hcanonical, ?_⟩
    have hplace' : totalExponent n f = totalExponent r target := by
      rw [hrn, totalExponent_mul_two_pow hn, Int.toNat_of_nonneg (Int.sub_nonneg_of_le hle)]
      congr 1
      omega
    have hrpos : 0 < r := hrn ▸ Nat.mul_pos hn (Nat.two_pow_pos _)
    rw [hplace', totalExponent_eq r]
    by_cases hqzero : q = 0
    · have hr1 : r = 1 := by omega
      have hone : Nat.log2 1 = 0 := by decide
      have hsmall := hzero hqzero
      have htarget' : target = -1074 := hfull.resolve_left (by omega)
      rw [hr1, hone]
      omega
    · have hkept := hplace hqzero
      have hlog : r.log2 = q.log2 ∨ r.log2 = q.log2 + 1 := by
        rcases hcases with rfl | rfl
        · exact Or.inl rfl
        · exact log2_succ_cases q
      rw [totalExponent_eq] at hkept
      omega

end LiveScene.Binary64
