import LiveScene.Proofs.Binary64.Arithmetic

/-!
# LiveScene.Proofs.Binary64.Operations

What the operations between finite doubles yield.

Each operation forms its exact result from the significands and rounds it, so the result is the
closest double of what the fractions make (`rounds_add`, `rounds_sub`, `rounds_mul`, `rounds_div`).
What holds of a rounded fraction then follows from the fraction alone: bounds that are doubles
themselves are kept (`Rounds.between`, `Rounds.le_of_le`).

Fractions beyond all doubles become infinity (`Rounds.parts_of_limit_le`), differences of doubles do
not vanish (`closest_sub_pos`), and what is no number stays so in every operation.
-/

namespace LiveScene.Binary64

open Float.Model (Format UnpackedFloat totalExponent)
open Float.Model.UnpackedFloat (Sign)

variable {x y : Float} {p q : ℚ}

/-! ### Finite doubles are their own closest doubles -/

theorem value_cases (h : x.isFinite = true) :
    ∃ (s : Sign) (m : ℕ) (e : ℤ), value x = withSign s (m * 2 ^ e) ∧ m < 2 ^ 53 ∧ -1074 ≤ e ∧
      e ≤ 971 := by
  rcases isFinite_cases h with ⟨s, hx⟩ | ⟨s, m, e, hm, hx⟩
  · refine ⟨.positive, 0, 0, ?_, by decide, by decide, by decide⟩
    rw [value_of_parts hx, withSign_positive, Nat.cast_zero, zero_mul]
    rfl
  · obtain ⟨hcanonical, he⟩ := canonical_parts hx
    exact ⟨s, m, e, (value_of_parts hx).trans (exact_finite s hm), hcanonical.lt, hcanonical.le, he⟩

theorem closest_value (h : x.isFinite = true) : closest (value x) = value x := by
  obtain ⟨s, m, e, hvalue, hm, he, -⟩ := value_cases h
  have hdigits : closest (((m : ℤ) : ℚ) * 2 ^ e) = ((m : ℤ) : ℚ) * 2 ^ e := by
    refine closest_of_digits ?_ he
    rw [abs_of_nonneg (by omega)]
    omega
  rw [Int.cast_natCast] at hdigits
  rw [hvalue, closest_withSign, hdigits]

theorem abs_value_lt (h : x.isFinite = true) : |value x| < limit := by
  rcases isFinite_cases h with ⟨s, hx⟩ | ⟨s, m, e, hm, hx⟩
  · rw [value_of_parts hx]
    show |(0 : ℚ)| < limit
    rw [abs_zero]
    exact limit_pos
  · obtain ⟨hcanonical, he⟩ := canonical_parts hx
    have hlt := hcanonical.lt_of_le he
    have hpos := natCast_mul_pos hm e
    rw [value_of_parts hx, exact_finite]
    cases s
    · rwa [withSign_negative, abs_neg, abs_of_pos hpos]
    · rwa [withSign_positive, abs_of_pos hpos]

theorem rounds_value (h : x.isFinite = true) : Rounds (value x) x :=
  .inl ⟨by rw [closest_value h]; exact abs_value_lt h, h, (closest_value h).symm⟩

/-! ### What a rounded result keeps -/

namespace Rounds

/-- A fraction that is not too great has a finite closest double. -/
theorem finite (h : Rounds q x) (hq : |closest q| < limit) :
    x.isFinite = true ∧ value x = closest q := by
  obtain ⟨hlow, hhigh⟩ := abs_lt.mp hq
  rcases h with ⟨-, h⟩ | ⟨hle, -⟩ | ⟨hle, -⟩
  · exact h
  · exact absurd hhigh (not_lt.mpr hle)
  · exact absurd hlow (not_lt.mpr hle)

theorem value_eq (h : Rounds q x) (hx : x.isFinite = true) : value x = closest q := by
  rw [isFinite_eq] at hx
  rcases h with ⟨-, -, h⟩ | ⟨-, hparts⟩ | ⟨-, hparts⟩
  · exact h
  · rw [hparts] at hx
    exact absurd hx (by decide)
  · rw [hparts] at hx
    exact absurd hx (by decide)

/-- Between fractions that are doubles nothing overflows. -/
theorem between (h : Rounds q x) {low high : ℚ} (hlow : closest low = low)
    (hhigh : closest high = high) (hbelow : -limit < low) (habove : high < limit) (hle : low ≤ q)
    (hge : q ≤ high) : x.isFinite = true ∧ low ≤ value x ∧ value x ≤ high := by
  have hdown := closest_mono hle
  have hup := closest_mono hge
  rw [hlow] at hdown
  rw [hhigh] at hup
  obtain ⟨hfinite, heq⟩ := h.finite (abs_lt.mpr ⟨by linarith, by linarith⟩)
  exact ⟨hfinite, heq ▸ hdown, heq ▸ hup⟩

/-- Between finite doubles nothing overflows. -/
theorem finite_of_between (h : Rounds q x) {low high : Float} (hlow : low.isFinite = true)
    (hhigh : high.isFinite = true) (hle : value low ≤ q) (hge : q ≤ value high) :
    x.isFinite = true ∧ value low ≤ value x ∧ value x ≤ value high :=
  h.between (closest_value hlow) (closest_value hhigh) (abs_lt.mp (abs_value_lt hlow)).1
    (abs_lt.mp (abs_value_lt hhigh)).2 hle hge

/-- What is not below a finite double is rounded to nothing below it. -/
theorem le_of_le (h : Rounds q x) {low : Float} (hlow : low.isFinite = true)
    (hle : value low ≤ q) : low ≤ x := by
  have hdown := closest_mono hle
  rw [closest_value hlow] at hdown
  rcases h with ⟨-, hfinite, heq⟩ | ⟨-, hx⟩ | ⟨hsmall, -⟩
  · rw [le_iff_value hlow hfinite, heq]
    exact hdown
  · rw [le_iff, hx]
    rcases isFinite_cases hlow with ⟨s, hl⟩ | ⟨s, m, e, hm, hl⟩ <;> rw [hl] <;> cases s <;> rfl
  · have hbelow := (abs_lt.mp (abs_value_lt hlow)).1
    linarith

end Rounds

/-! ### Sums and differences -/

/-- A significand that is shifted down to an exponent stands for the same fraction. -/
theorem exact_shiftLeft (s : Sign) {m : Nat} {e low : Int} (hm : 0 < m) (h : low ≤ e) :
    ((s.apply (m <<< (e - low).toNat : ℕ) : ℤ) : ℚ) * 2 ^ low = exact (.finite s m e hm) := by
  obtain ⟨k, hk⟩ := Int.eq_ofNat_of_zero_le (Int.sub_nonneg_of_le h)
  have hshift : ((m <<< (e - low).toNat : ℕ) : ℚ) * 2 ^ low = m * 2 ^ e := by
    rw [hk, Int.toNat_natCast, Nat.shiftLeft_eq, show e = k + low by omega, two_zpow_add,
      zpow_natCast]
    push_cast
    ring
  rw [exact_finite, ← hshift]
  cases s
  · rw [withSign_negative, ← neg_mul]
    show ((-((m <<< (e - low).toNat : ℕ) : ℤ) : ℤ) : ℚ) * 2 ^ low = _
    rw [Int.cast_neg, Int.cast_natCast]
  · rw [withSign_positive]
    rfl

theorem value_of_zero {s : Sign} (h : parts x = .zero s) : value x = 0 := value_of_parts h

theorem rounds_zero {s : Sign} (h : parts x = .zero s) : Rounds 0 x := by
  have hfinite : x.isFinite = true := by
    rw [isFinite_eq, h]
    rfl
  have hrounds := rounds_value hfinite
  rwa [value_of_zero h] at hrounds

/-- The sum of two finite doubles is the closest double of the exact sum. -/
theorem rounds_add (hx : x.isFinite = true) (hy : y.isFinite = true) :
    Rounds (value x + value y) (x + y) := by
  rcases isFinite_cases hx with ⟨s, hpx⟩ | ⟨s, m, e, hm, hpx⟩
  · rw [value_of_zero hpx, zero_add]
    rcases isFinite_cases hy with ⟨t, hpy⟩ | ⟨t, n, f, hn, hpy⟩
    · rw [value_of_zero hpy]
      obtain ⟨u, hu⟩ : ∃ u, parts (x + y) = .zero u := by
        rw [parts_add, hpx, hpy]
        cases s <;> cases t <;> exact ⟨_, stored_zero _⟩
      exact rounds_zero hu
    · have heq : x + y = y := by
        refine parts_inj ?_
        rw [parts_add, hpx, hpy]
        exact (hpy ▸ stored_parts y : stored (.finite t n f hn) = .finite t n f hn)
      rw [heq]
      exact rounds_value hy
  · rcases isFinite_cases hy with ⟨t, hpy⟩ | ⟨t, n, f, hn, hpy⟩
    · have heq : x + y = x := by
        refine parts_inj ?_
        rw [parts_add, hpx, hpy]
        exact (hpx ▸ stored_parts x : stored (.finite s m e hm) = .finite s m e hm)
      rw [heq, value_of_zero hpy, add_zero]
      exact rounds_value hx
    · have hparts : parts (x + y) = stored (UnpackedFloat.normalize Format.binary64
          (s.apply (m <<< (e - min e f).toNat : ℕ) + t.apply (n <<< (f - min e f).toNat : ℕ))
          (min e f) .positive) := by
        rw [parts_add, hpx, hpy]
        rfl
      have hrounds := rounds_of_normalize hparts
      rwa [Int.cast_add, add_mul, exact_shiftLeft s hm (min_le_left e f),
        exact_shiftLeft t hn (min_le_right e f), ← value_of_parts hpx, ← value_of_parts hpy]
        at hrounds

theorem withSign_neg (s : Sign) (q : ℚ) : withSign (-s) q = -withSign s q := by
  cases s
  · rw [withSign_negative, neg_neg]
    exact withSign_positive q
  · rw [withSign_positive]
    exact withSign_negative q

/-- The difference of two finite doubles is the closest double of the exact difference. -/
theorem rounds_sub (hx : x.isFinite = true) (hy : y.isFinite = true) :
    Rounds (value x - value y) (x - y) := by
  rcases isFinite_cases hx with ⟨s, hpx⟩ | ⟨s, m, e, hm, hpx⟩
  · rw [value_of_zero hpx, zero_sub]
    rcases isFinite_cases hy with ⟨t, hpy⟩ | ⟨t, n, f, hn, hpy⟩
    · rw [value_of_zero hpy, neg_zero]
      obtain ⟨u, hu⟩ : ∃ u, parts (x - y) = .zero u := by
        rw [parts_sub, hpx, hpy]
        cases s <;> cases t <;> exact ⟨_, stored_zero _⟩
      exact rounds_zero hu
    · obtain ⟨hcanonical, he⟩ := canonical_parts hpy
      have hparts : parts (x - y) = .finite (-t) n f hn := by
        rw [parts_sub, hpx, hpy]
        exact stored_finite (-t) hn hcanonical he
      have hfinite : (x - y).isFinite = true := by
        rw [isFinite_eq, hparts]
        rfl
      have hvalue : value (x - y) = -value y := by
        rw [value_of_parts hparts, value_of_parts hpy, exact_finite, exact_finite, withSign_neg]
      rw [← hvalue]
      exact rounds_value hfinite
  · rcases isFinite_cases hy with ⟨t, hpy⟩ | ⟨t, n, f, hn, hpy⟩
    · have heq : x - y = x := by
        refine parts_inj ?_
        rw [parts_sub, hpx, hpy]
        exact (hpx ▸ stored_parts x : stored (.finite s m e hm) = .finite s m e hm)
      rw [heq, value_of_zero hpy, sub_zero]
      exact rounds_value hx
    · have hparts : parts (x - y) = stored (UnpackedFloat.normalize Format.binary64
          (s.apply (m <<< (e - min e f).toNat : ℕ) - t.apply (n <<< (f - min e f).toNat : ℕ))
          (min e f) .positive) := by
        rw [parts_sub, hpx, hpy]
        rfl
      have hrounds := rounds_of_normalize hparts
      rwa [Int.cast_sub, sub_mul, exact_shiftLeft s hm (min_le_left e f),
        exact_shiftLeft t hn (min_le_right e f), ← value_of_parts hpx, ← value_of_parts hpy]
        at hrounds

/-! ### Products and quotients -/

theorem withSign_mul (s t : Sign) (p q : ℚ) :
    withSign (s * t) (p * q) = withSign s p * withSign t q := by
  cases s <;> cases t
  · exact (withSign_positive _).trans (by rw [withSign_negative, withSign_negative, neg_mul_neg])
  · exact (withSign_negative _).trans (by rw [withSign_negative, withSign_positive, neg_mul])
  · exact (withSign_negative _).trans (by rw [withSign_negative, withSign_positive, mul_neg])
  · exact (withSign_positive _).trans (by rw [withSign_positive, withSign_positive])

theorem withSign_div (s t : Sign) (p q : ℚ) :
    withSign (s / t) (p / q) = withSign s p / withSign t q := by
  cases s <;> cases t
  · exact (withSign_positive _).trans (by rw [withSign_negative, withSign_negative, neg_div_neg_eq])
  · exact (withSign_negative _).trans (by rw [withSign_negative, withSign_positive, neg_div])
  · exact (withSign_negative _).trans (by rw [withSign_negative, withSign_positive, div_neg])
  · exact (withSign_positive _).trans (by rw [withSign_positive, withSign_positive])

/-- The product of two finite doubles is the closest double of the exact product. -/
theorem rounds_mul (hx : x.isFinite = true) (hy : y.isFinite = true) :
    Rounds (value x * value y) (x * y) := by
  rcases isFinite_cases hx with ⟨s, hpx⟩ | ⟨s, m, e, hm, hpx⟩
  · rw [value_of_zero hpx, zero_mul]
    rcases isFinite_cases hy with ⟨t, hpy⟩ | ⟨t, n, f, hn, hpy⟩ <;>
      exact rounds_zero (by rw [parts_mul, hpx, hpy]; exact stored_zero (s * t))
  · rcases isFinite_cases hy with ⟨t, hpy⟩ | ⟨t, n, f, hn, hpy⟩
    · rw [value_of_zero hpy, mul_zero]
      exact rounds_zero (by rw [parts_mul, hpx, hpy]; exact stored_zero (s * t))
    · have hexact := isClosest_roundWithAccuracy (s * t) (describes_exact (m * n))
        (mul_exponent_le hm hn (canonical_parts hpx).1 (canonical_parts hpy).1)
        (fun hzero => absurd hzero (Nat.mul_pos hm hn).ne')
      have hparts : parts (x * y) = stored
          (UnpackedFloat.roundWithAccuracy Format.binary64 (s * t) (m * n) (e + f) .exact) := by
        rw [parts_mul, hpx, hpy]
        rfl
      have hproduct : ((m * n : ℕ) : ℚ) * 2 ^ (e + f) = m * 2 ^ e * (n * 2 ^ f) := by
        rw [two_zpow_add]
        push_cast
        ring
      have hrounds := hexact.rounds hparts
      rwa [hproduct, withSign_mul, ← exact_finite s hm, ← exact_finite t hn,
        ← value_of_parts hpx, ← value_of_parts hpy] at hrounds

/-- A quotient reaches down far enough to be rounded, and only one below the least spacing has no
digits. -/
theorem div_exponent_le {m n : Nat} {e f target : Int} (hm : 0 < m) (hn : 0 < n)
    (htarget : min (e - f) (Format.binary64.targetExponent
      (totalExponent m e - totalExponent n f)) = target) :
    target ≤ Format.binary64.targetExponent
        (totalExponent (m <<< (e - f - target).toNat / n) target) ∧
      (m <<< (e - f - target).toNat / n = 0 → target ≤ -1074) := by
  rw [targetExponent_eq, totalExponent_eq, totalExponent_eq] at htarget
  have hplace := totalExponent_shiftLeft hm (e - f) (e - f - target).toNat
  rw [totalExponent_eq, totalExponent_eq] at hplace
  rw [targetExponent_eq, totalExponent_eq]
  by_cases hleast : target ≤ -1074
  · exact ⟨hleast.trans (le_max_right _ _), fun _ => hleast⟩
  · obtain ⟨hpos, hlog⟩ := log2_div_cases (a := m <<< (e - f - target).toNat) hn (by omega)
    exact ⟨le_max_of_le_left (by omega), fun hzero => absurd hzero hpos.ne'⟩

/-- The quotient of two finite doubles is the closest double of the exact quotient, unless the
divisor is zero. -/
theorem rounds_div (hx : x.isFinite = true) (hy : y.isFinite = true) (hne : value y ≠ 0) :
    Rounds (value x / value y) (x / y) := by
  rcases isFinite_cases hy with ⟨t, hpy⟩ | ⟨t, n, f, hn, hpy⟩
  · exact absurd (value_of_zero hpy) hne
  · rcases isFinite_cases hx with ⟨s, hpx⟩ | ⟨s, m, e, hm, hpx⟩
    · rw [value_of_zero hpx, zero_div]
      exact rounds_zero (by rw [parts_div, hpx, hpy]; exact stored_zero (s / t))
    · obtain ⟨target, htarget⟩ : ∃ target, min (e - f) (Format.binary64.targetExponent
          (totalExponent m e - totalExponent n f)) = target := ⟨_, rfl⟩
      obtain ⟨hle, hzero⟩ := div_exponent_le hm hn htarget
      have hexact := isClosest_roundWithAccuracy (s / t) (describes_fraction _ hn) hle hzero
      have hparts : parts (x / y) = stored (UnpackedFloat.roundWithAccuracy Format.binary64 (s / t)
          (m <<< (e - f - target).toNat / n) target
          (UnpackedFloat.accuracyOfFraction (m <<< (e - f - target).toNat % n) n)) := by
        rw [parts_div, hpx, hpy, ← htarget]
        rfl
      have hquotient : ((m <<< (e - f - target).toNat : ℕ) : ℚ) / n * 2 ^ target =
          m * 2 ^ e / (n * 2 ^ f) := by
        have hshift := exact_shiftLeft .positive hm (show target ≤ e - f by omega)
        rw [exact_positive, zpow_sub₀ (by norm_num)] at hshift
        have hcast : ((m <<< (e - f - target).toNat : ℕ) : ℚ) * 2 ^ target =
            m * (2 ^ e / 2 ^ f) := hshift
        rw [div_mul_eq_mul_div, hcast]
        field_simp
      have hrounds := hexact.rounds hparts
      rwa [hquotient, withSign_div, ← exact_finite s hm, ← exact_finite t hn,
        ← value_of_parts hpx, ← value_of_parts hpy] at hrounds

/-- A whole number is read as the closest double. -/
theorem rounds_toFloat (n : UInt64) : Rounds n.toNat n.toFloat := by
  have hparts : parts n.toFloat =
      stored (UnpackedFloat.normalize Format.binary64 (n.toNat : ℤ) 0 .positive) := rfl
  have hrounds := rounds_of_normalize hparts
  rwa [zpow_zero, mul_one, Int.cast_natCast] at hrounds

/-! ### Great fractions -/

/-- What is rounded beyond all doubles is infinity. -/
theorem Rounds.parts_of_limit_le {q : ℚ} (h : Rounds q x) (hq : limit ≤ closest q) :
    parts x = .infinity .positive := by
  have hpos := limit_pos
  rcases h with ⟨hlt, -⟩ | ⟨-, hx⟩ | ⟨hle, -⟩
  · exact absurd (lt_of_le_of_lt (le_abs_self _) hlt) (not_lt.mpr hq)
  · exact hx
  · linarith

theorem Rounds.limit_le_of_not_isFinite {q : ℚ} (h : Rounds q x) (hq : 0 ≤ closest q)
    (hx : x.isFinite = false) : limit ≤ closest q := by
  have hpos := limit_pos
  rcases h with ⟨-, hfinite, -⟩ | ⟨hle, -⟩ | ⟨hle, -⟩
  · exact absurd (hx.symm.trans hfinite) (by decide)
  · exact hle
  · linarith

/-- Finite doubles are multiples of the least one. -/
theorem exists_multiple (h : x.isFinite = true) : ∃ k : ℤ, value x = k * 2 ^ (-1074 : ℤ) := by
  obtain ⟨s, m, e, hvalue, -, he, -⟩ := value_cases h
  obtain ⟨d, hd⟩ := Int.eq_ofNat_of_zero_le (Int.sub_nonneg_of_le he)
  refine ⟨s.apply 1 * (m * 2 ^ d), ?_⟩
  rw [hvalue, withSign, show e = d + -1074 by omega, two_zpow_add, zpow_natCast]
  generalize (2 : ℚ) ^ (-1074 : ℤ) = unit
  push_cast
  ring

/-- Doubles that differ have a difference that does not vanish. -/
theorem closest_sub_pos (hx : x.isFinite = true) (hy : y.isFinite = true)
    (h : value x < value y) : 0 < closest (value y - value x) := by
  obtain ⟨k, hk⟩ := exists_multiple hx
  obtain ⟨l, hl⟩ := exists_multiple hy
  have hunit := two_zpow_pos (-1074)
  have hlt : k < l := by
    rw [hk, hl] at h
    exact_mod_cast lt_of_mul_lt_mul_right h hunit.le
  have hstep : ((1 : ℤ) : ℚ) * 2 ^ (-1074 : ℤ) ≤ value y - value x := by
    rw [hk, hl, ← sub_mul]
    refine mul_le_mul_of_nonneg_right ?_ hunit.le
    exact_mod_cast (by omega : (1 : ℤ) ≤ l - k)
  have hclosest := closest_mono hstep
  rw [closest_of_digits (by norm_num) le_rfl] at hclosest
  exact lt_of_lt_of_le (by rw [Int.cast_one, one_mul]; exact hunit) hclosest

/-! ### No number in, no number out -/

/-- An operation that makes no number of no number does so when its result is written down. -/
theorem isNaN_stored_of {f : UnpackedFloat → UnpackedFloat → UnpackedFloat}
    (hleft : ∀ v, f .notANumber v = .notANumber) (hright : ∀ u, f u .notANumber = .notANumber)
    (h : x.isNaN = true ∨ y.isNaN = true) : (stored (f (parts x) (parts y))).isNaN = true := by
  rw [isNaN_stored]
  rcases h with h | h <;> rw [parts_of_isNaN h]
  · rw [hleft]
    rfl
  · rw [hright]
    rfl

theorem isNaN_add_of (h : x.isNaN = true ∨ y.isNaN = true) : (x + y).isNaN = true := by
  rw [isNaN_eq, parts_add]
  exact isNaN_stored_of (fun _ => rfl) (fun u => by cases u <;> rfl) h

theorem isNaN_sub_of (h : x.isNaN = true ∨ y.isNaN = true) : (x - y).isNaN = true := by
  rw [isNaN_eq, parts_sub]
  exact isNaN_stored_of (fun _ => rfl) (fun u => by cases u <;> rfl) h

theorem isNaN_mul_of (h : x.isNaN = true ∨ y.isNaN = true) : (x * y).isNaN = true := by
  rw [isNaN_eq, parts_mul]
  exact isNaN_stored_of (fun _ => rfl) (fun u => by cases u <;> rfl) h

theorem isNaN_div_of (h : x.isNaN = true ∨ y.isNaN = true) : (x / y).isNaN = true := by
  rw [isNaN_eq, parts_div]
  exact isNaN_stored_of (fun _ => rfl) (fun u => by cases u <;> rfl) h

end LiveScene.Binary64
