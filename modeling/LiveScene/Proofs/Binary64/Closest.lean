import Mathlib.Data.Int.Log
import Mathlib.Data.Rat.Floor

/-!
# LiveScene.Proofs.Binary64.Closest

The closest double of a fraction, as a fraction.

* `halfEven` is the closest whole number, the even one of two. It is determined by its distance
  (`eq_halfEven`), and all that follows uses only that.
* A fraction is rounded to a whole multiple of its spacing: a power of two that leaves
  fifty-three digits, or the least one (`closest`). There is no greatest double here; where the
  doubles end is a matter of writing a result down.
* Rounding keeps what has fifty-three digits already (`closest_of_digits`), does not exchange two
  fractions (`closest_mono`), and moves none by more than half its spacing
  (`abs_closest_sub_le`).
-/

namespace LiveScene.Binary64

/-! ### The closest whole number -/

/-- The whole number closest to a fraction, the even one of two. -/
def halfEven (q : ℚ) : ℤ :=
  if Int.fract q < 1 / 2 then ⌊q⌋
  else if 1 / 2 < Int.fract q then ⌊q⌋ + 1
  else ⌊q⌋ + ⌊q⌋ % 2

/-- A whole number that no other one is closer to, and even if another is as close. -/
def IsHalfEven (q : ℚ) (n : ℤ) : Prop := |q - n| < 1 / 2 ∨ |q - n| = 1 / 2 ∧ Even n

variable {p q : ℚ} {n : ℤ}

theorem isHalfEven_halfEven (q : ℚ) : IsHalfEven q (halfEven q) := by
  have hsplit := Int.floor_add_fract q
  have hlow := Int.fract_nonneg q
  have hhigh := Int.fract_lt_one q
  unfold halfEven
  split
  · next h =>
      refine .inl (abs_lt.mpr ⟨?_, ?_⟩) <;> linarith
  · next h =>
      split
      · next h' =>
          refine .inl (abs_lt.mpr ⟨?_, ?_⟩) <;> push_cast <;> linarith
      · next h' =>
          have hhalf : Int.fract q = 1 / 2 := by linarith
          rcases Int.emod_two_eq_zero_or_one ⌊q⌋ with heven | hodd
          · refine .inr ⟨?_, ?_⟩
            · rw [heven, add_zero, abs_of_nonneg] <;> linarith
            · exact Int.even_iff.mpr (by omega)
          · refine .inr ⟨?_, ?_⟩
            · rw [hodd, abs_of_nonpos] <;> push_cast <;> linarith
            · exact Int.even_iff.mpr (by omega)

theorem IsHalfEven.abs_sub_le (h : IsHalfEven q n) : |q - n| ≤ 1 / 2 :=
  h.elim le_of_lt fun h => h.1.le

theorem IsHalfEven.neg (h : IsHalfEven q n) : IsHalfEven (-q) (-n) := by
  have hdistance : |-q - ((-n : ℤ) : ℚ)| = |q - n| := by
    rw [Int.cast_neg, ← abs_neg]
    congr 1
    ring
  rw [IsHalfEven, hdistance, even_neg]
  exact h

/-- Greater fractions have no smaller closest numbers. -/
theorem IsHalfEven.mono {m : ℤ} (hp : IsHalfEven p m) (hq : IsHalfEven q n) (h : p ≤ q) :
    m ≤ n := by
  by_contra hlt
  have hstep : (n : ℚ) + 1 ≤ m := by exact_mod_cast not_le.mp hlt
  have hpm := abs_le.mp hp.abs_sub_le
  have hqn := abs_le.mp hq.abs_sub_le
  -- The two can only be exchanged if they are one fraction in the middle between them.
  have heq : p = q := by linarith
  subst heq
  have hm : m = n + 1 := by
    have hle : (m : ℚ) ≤ n + 1 := by linarith
    exact le_antisymm (by exact_mod_cast hle) (by exact_mod_cast hstep)
  subst hm
  push_cast at hpm hp
  have hmiddle : p - n = 1 / 2 := by linarith
  have hmiddle' : |p - (n + 1)| = 1 / 2 := by
    rw [show p - (n + 1) = -(1 / 2) by linarith, abs_neg, abs_of_pos (by norm_num)]
  rcases hq with hq | ⟨-, heven⟩
  · rw [hmiddle, abs_of_pos (by norm_num)] at hq
    exact lt_irrefl _ hq
  · rcases hp with hp | ⟨-, heven'⟩
    · rw [Int.cast_add, Int.cast_one, hmiddle'] at hp
      exact lt_irrefl _ hp
    · rw [Int.even_iff] at heven heven'
      omega

theorem eq_halfEven (h : IsHalfEven q n) : halfEven q = n :=
  le_antisymm ((isHalfEven_halfEven q).mono h le_rfl) (h.mono (isHalfEven_halfEven q) le_rfl)

theorem halfEven_mono (h : p ≤ q) : halfEven p ≤ halfEven q :=
  (isHalfEven_halfEven p).mono (isHalfEven_halfEven q) h

theorem halfEven_intCast (n : ℤ) : halfEven n = n := by
  refine eq_halfEven (.inl ?_)
  rw [sub_self, abs_zero]
  norm_num

theorem halfEven_neg (q : ℚ) : halfEven (-q) = -halfEven q :=
  eq_halfEven (isHalfEven_halfEven q).neg

/-! ### The spacing of doubles -/

theorem two_zpow_pos (e : ℤ) : (0 : ℚ) < 2 ^ e := zpow_pos (by norm_num) e

theorem two_zpow_le {d e : ℤ} (h : d ≤ e) : (2 : ℚ) ^ d ≤ 2 ^ e :=
  zpow_le_zpow_right₀ (by norm_num) h

theorem two_zpow_add (d e : ℤ) : (2 : ℚ) ^ (d + e) = 2 ^ d * 2 ^ e :=
  zpow_add₀ (by norm_num) d e

/-- The exponent of the power of two that a fraction is rounded to a multiple of. -/
def spacing (q : ℚ) : ℤ := if q = 0 then -1074 else max (Int.log 2 |q| - 52) (-1074)

@[simp] theorem spacing_zero : spacing 0 = -1074 := if_pos rfl

theorem spacing_neg (q : ℚ) : spacing (-q) = spacing q := by
  simp only [spacing, abs_neg, neg_eq_zero]

theorem le_spacing (q : ℚ) : -1074 ≤ spacing q := by
  rw [spacing]
  split
  · exact le_rfl
  · exact le_max_right _ _

theorem abs_lt_spacing (q : ℚ) : |q| < 2 ^ (spacing q + 53) := by
  rcases eq_or_ne q 0 with rfl | hq
  · rw [abs_zero]
    exact two_zpow_pos _
  · have hlog : Int.log 2 |q| + 1 ≤ spacing q + 53 := by
      rw [spacing, if_neg hq]
      omega
    have hlt : |q| < 2 ^ (Int.log 2 |q| + 1) := by
      exact_mod_cast Int.lt_zpow_succ_log_self Nat.one_lt_two |q|
    exact lt_of_lt_of_le hlt (two_zpow_le hlog)

theorem spacing_le_abs (h : -1074 < spacing q) : (2 : ℚ) ^ (spacing q + 52) ≤ |q| := by
  rcases eq_or_ne q 0 with rfl | hq
  · exact absurd h (by rw [spacing_zero]; exact lt_irrefl _)
  · have hlog : spacing q + 52 = Int.log 2 |q| := by
      rw [spacing, if_neg hq] at h ⊢
      omega
    rw [hlog]
    exact_mod_cast Int.zpow_log_le_self Nat.one_lt_two (abs_pos.mpr hq)

/-- Fractions below a power of two have no greater spacing. -/
theorem spacing_le {e : ℤ} (hq : |q| < 2 ^ (e + 53)) (he : -1074 ≤ e) : spacing q ≤ e := by
  by_contra hlt
  have hle := spacing_le_abs (lt_of_le_of_lt he (not_le.mp hlt))
  have hpow : (2 : ℚ) ^ (e + 53) ≤ 2 ^ (spacing q + 52) := two_zpow_le (by omega)
  exact lt_irrefl _ (lt_of_lt_of_le hq (hpow.trans hle))

theorem spacing_mono (h : |p| ≤ |q|) : spacing p ≤ spacing q :=
  spacing_le (lt_of_le_of_lt h (abs_lt_spacing q)) (le_spacing q)

/-- The spacing is the exponent at which a fraction has fifty-three digits before the point, or the
least one. -/
theorem spacing_eq {e : ℤ} (hlt : |q| < 2 ^ (e + 53)) (he : -1074 ≤ e)
    (hle : e = -1074 ∨ (2 : ℚ) ^ (e + 52) ≤ |q|) : spacing q = e := by
  refine le_antisymm (spacing_le hlt he) ?_
  rcases hle with rfl | hle
  · exact le_spacing q
  · by_contra hgt
    have hpow : (2 : ℚ) ^ (spacing q + 53) ≤ 2 ^ (e + 52) := two_zpow_le (by omega)
    exact lt_irrefl _ (lt_of_lt_of_le (abs_lt_spacing q) (hpow.trans hle))

/-! ### The closest double -/

/-- The closest multiple of its spacing to a fraction, the even one of two. -/
def closest (q : ℚ) : ℚ := halfEven (q / 2 ^ spacing q) * 2 ^ spacing q

theorem closest_neg (q : ℚ) : closest (-q) = -closest q := by
  rw [closest, spacing_neg, neg_div, halfEven_neg, closest, Int.cast_neg, neg_mul]

/-- Multiples of the spacing, or of a greater power of two, are doubles. -/
theorem closest_of_spacing_le {m e : ℤ} (h : spacing (m * 2 ^ e) ≤ e) :
    closest (m * 2 ^ e) = m * 2 ^ e := by
  obtain ⟨k, hk⟩ := Int.eq_ofNat_of_zero_le (Int.sub_nonneg_of_le h)
  have hwhole : (m : ℚ) * 2 ^ e / 2 ^ spacing (m * 2 ^ e) = ((m * 2 ^ k : ℤ) : ℚ) := by
    rw [mul_div_assoc, ← zpow_sub₀ (by norm_num), hk]
    push_cast
    rw [zpow_natCast]
  rw [closest, hwhole, halfEven_intCast, ← hwhole, div_mul_cancel₀ _ (two_zpow_pos _).ne']

/-- What has fifty-three digits at most stays as it is. -/
theorem closest_of_digits {m e : ℤ} (hm : |m| ≤ 2 ^ 53) (he : -1074 ≤ e) :
    closest (m * 2 ^ e) = m * 2 ^ e := by
  have hcast : |(m : ℚ)| ≤ 2 ^ (53 : ℤ) := by exact_mod_cast hm
  have habs : |(m : ℚ) * 2 ^ e| = |(m : ℚ)| * 2 ^ e := by rw [abs_mul, abs_of_pos (two_zpow_pos e)]
  rcases lt_or_eq_of_le hm with hlt | hfull
  · refine closest_of_spacing_le (spacing_le ?_ he)
    rw [habs, add_comm, two_zpow_add, mul_lt_mul_iff_left₀ (two_zpow_pos e)]
    exact_mod_cast hlt
  · -- A power of two has one digit, at the next exponent.
    obtain ⟨half, rfl⟩ : ∃ half, m = half * 2 := by
      rcases (abs_eq (by norm_num)).mp hfull with rfl | rfl
      · exact ⟨2 ^ 52, by norm_num⟩
      · exact ⟨-2 ^ 52, by norm_num⟩
    have hnext : ((half * 2 : ℤ) : ℚ) * 2 ^ e = half * 2 ^ (e + 1) := by
      rw [two_zpow_add, zpow_one]
      push_cast
      ring
    rw [hnext] at habs ⊢
    refine closest_of_spacing_le (spacing_le ?_ (by omega))
    calc |(half : ℚ) * 2 ^ (e + 1)| ≤ 2 ^ (53 : ℤ) * 2 ^ e := by
          rw [habs]
          exact mul_le_mul_of_nonneg_right hcast (two_zpow_pos e).le
      _ = 2 ^ (e + 53) := by rw [← two_zpow_add, add_comm]
      _ < 2 ^ (e + 1 + 53) := zpow_lt_zpow_right₀ (by norm_num) (by omega)

theorem closest_intCast {n : ℤ} (h : |n| ≤ 2 ^ 53) : closest n = n := by
  have hdigits := closest_of_digits h (e := 0) (by norm_num)
  rwa [zpow_zero, mul_one] at hdigits

/-- A fraction is rounded to a significand of fifty-three digits, or to the next power of two. -/
theorem halfEven_le_of_nonneg (h : 0 ≤ q) : halfEven (q / 2 ^ spacing q) ≤ 2 ^ 53 := by
  have hup := abs_lt_spacing q
  rw [abs_of_nonneg h, add_comm, two_zpow_add, ← div_lt_iff₀ (two_zpow_pos _)] at hup
  have hle : q / 2 ^ spacing q ≤ ((2 ^ 53 : ℤ) : ℚ) := by exact_mod_cast hup.le
  have hmono := halfEven_mono hle
  rwa [halfEven_intCast] at hmono

theorem le_halfEven_of_nonneg (h : 0 ≤ q) (hgreat : -1074 < spacing q) :
    2 ^ 52 ≤ halfEven (q / 2 ^ spacing q) := by
  have hlow := spacing_le_abs hgreat
  rw [abs_of_nonneg h, add_comm, two_zpow_add, ← le_div_iff₀ (two_zpow_pos _)] at hlow
  have hle : ((2 ^ 52 : ℤ) : ℚ) ≤ q / 2 ^ spacing q := by exact_mod_cast hlow
  have hmono := halfEven_mono hle
  rwa [halfEven_intCast] at hmono

/-- Rounding moves a fraction by half its spacing at most. -/
theorem abs_closest_sub_le (q : ℚ) : |closest q - q| ≤ 2 ^ (spacing q - 1) := by
  have hpos := two_zpow_pos (spacing q)
  have hhalf := (isHalfEven_halfEven (q / 2 ^ spacing q)).abs_sub_le
  calc |closest q - q|
      = |q / 2 ^ spacing q - halfEven (q / 2 ^ spacing q)| * 2 ^ spacing q := by
        rw [abs_sub_comm, ← abs_of_pos hpos, ← abs_mul, abs_of_pos hpos, sub_mul,
          div_mul_cancel₀ _ hpos.ne', closest]
    _ ≤ 1 / 2 * 2 ^ spacing q := mul_le_mul_of_nonneg_right hhalf hpos.le
    _ = 2 ^ (spacing q - 1) := by
        rw [zpow_sub₀ (by norm_num), zpow_one]
        ring

/-- A multiple of the spacing on either side of a fraction is not passed by rounding. -/
theorem closest_le_of_le {m e : ℤ} (h : q ≤ m * 2 ^ e) (he : e = spacing q) :
    closest q ≤ m * 2 ^ e := by
  subst he
  have hpos := two_zpow_pos (spacing q)
  refine mul_le_mul_of_nonneg_right ?_ hpos.le
  have hle := halfEven_mono ((div_le_iff₀ hpos).mpr h)
  rw [halfEven_intCast] at hle
  exact_mod_cast hle

theorem le_closest_of_le {m e : ℤ} (h : m * 2 ^ e ≤ q) (he : e = spacing q) :
    m * 2 ^ e ≤ closest q := by
  subst he
  have hpos := two_zpow_pos (spacing q)
  refine mul_le_mul_of_nonneg_right ?_ hpos.le
  have hle := halfEven_mono ((le_div_iff₀ hpos).mpr h)
  rw [halfEven_intCast] at hle
  exact_mod_cast hle

theorem closest_nonneg (h : 0 ≤ q) : 0 ≤ closest q := by
  have hle := le_closest_of_le (q := q) (m := 0) (by rw [Int.cast_zero, zero_mul]; exact h) rfl
  rwa [Int.cast_zero, zero_mul] at hle

theorem closest_mono_of_nonneg (hp : 0 ≤ p) (h : p ≤ q) : closest p ≤ closest q := by
  have hspacing : spacing p ≤ spacing q := by
    refine spacing_mono ?_
    rwa [abs_of_nonneg hp, abs_of_nonneg (hp.trans h)]
  rcases lt_or_eq_of_le hspacing with hlt | heq
  · -- Between two spacings lies a power of two, which is a multiple of both.
    have hup : p ≤ ((2 ^ 53 : ℤ) : ℚ) * 2 ^ spacing p := by
      have hle := (le_abs_self p).trans (abs_lt_spacing p).le
      rw [add_comm, two_zpow_add] at hle
      exact_mod_cast hle
    have hdown : ((2 ^ 52 : ℤ) : ℚ) * 2 ^ spacing q ≤ q := by
      have hle := spacing_le_abs (lt_of_le_of_lt (le_spacing p) hlt)
      rw [abs_of_nonneg (hp.trans h), add_comm, two_zpow_add] at hle
      exact_mod_cast hle
    calc closest p ≤ ((2 ^ 53 : ℤ) : ℚ) * 2 ^ spacing p := closest_le_of_le hup rfl
      _ = 2 ^ (53 + spacing p) := by rw [two_zpow_add]; norm_cast
      _ ≤ 2 ^ (52 + spacing q) := two_zpow_le (by omega)
      _ = ((2 ^ 52 : ℤ) : ℚ) * 2 ^ spacing q := by rw [two_zpow_add]; norm_cast
      _ ≤ closest q := le_closest_of_le hdown rfl
  · have hpos := two_zpow_pos (spacing q)
    rw [closest, closest, heq]
    refine mul_le_mul_of_nonneg_right ?_ hpos.le
    exact_mod_cast halfEven_mono (div_le_div_of_nonneg_right h hpos.le)

/-- Rounding does not exchange two fractions. -/
theorem closest_mono (h : p ≤ q) : closest p ≤ closest q := by
  rcases le_total 0 p with hp | hp
  · exact closest_mono_of_nonneg hp h
  · rcases le_total 0 q with hq | hq
    · have hneg := closest_nonneg (neg_nonneg.mpr hp)
      rw [closest_neg] at hneg
      linarith [closest_nonneg hq]
    · have hneg := closest_mono_of_nonneg (neg_nonneg.mpr hq) (neg_le_neg h)
      rw [closest_neg, closest_neg] at hneg
      linarith

/-- What is a closest double is a double. -/
theorem closest_closest (q : ℚ) : closest (closest q) = closest q := by
  have hnonneg : ∀ q : ℚ, 0 ≤ q → closest (closest q) = closest q := by
    intro q hq
    have hpos := halfEven_mono (div_nonneg hq (two_zpow_pos (spacing q)).le)
    rw [show halfEven 0 = 0 from halfEven_intCast 0] at hpos
    refine closest_of_digits ?_ (le_spacing q)
    rw [abs_of_nonneg hpos]
    exact halfEven_le_of_nonneg hq
  rcases le_total 0 q with hq | hq
  · exact hnonneg q hq
  · have hneg := hnonneg (-q) (neg_nonneg.mpr hq)
    rwa [closest_neg, closest_neg, neg_inj] at hneg

/-! ### Whole numbers -/

theorem closest_natCast {n : ℕ} (h : n ≤ 2 ^ 53) : closest n = n := by
  have hclosest := closest_intCast (n := n) (by rw [abs_of_nonneg (by omega)]; omega)
  rwa [Int.cast_natCast] at hclosest

/-- Whole numbers that have one closest double are great. -/
theorem le_closest_of_eq {m n : ℕ} (h : m < n) (heq : closest m = closest n) :
    2 ^ (53 : ℤ) ≤ closest m := by
  have hm : 2 ^ 53 ≤ m := by
    by_contra hlt
    have hnext : ((m + 1 : ℕ) : ℚ) ≤ closest n := by
      rw [← closest_natCast (by omega : m + 1 ≤ 2 ^ 53)]
      exact closest_mono (by exact_mod_cast h)
    rw [← heq, closest_natCast (by omega)] at hnext
    push_cast at hnext
    linarith
  have hle : ((2 ^ 53 : ℕ) : ℚ) ≤ closest m := by
    rw [← closest_natCast (le_refl (2 ^ 53))]
    exact closest_mono (by exact_mod_cast hm)
  exact_mod_cast hle

theorem one_le_spacing (h : 2 ^ (53 : ℤ) ≤ q) : 1 ≤ spacing q := by
  by_contra hlow
  have hlt := lt_of_le_of_lt (le_abs_self q) (abs_lt_spacing q)
  have hpow : (2 : ℚ) ^ (spacing q + 53) ≤ 2 ^ (53 : ℤ) := two_zpow_le (by omega)
  linarith

/-- The closest double of a whole number is a whole number. -/
theorem exists_closest_intCast (n : ℤ) : ∃ k : ℤ, closest n = k := by
  rcases le_or_gt 0 (spacing n) with hspacing | hspacing
  · obtain ⟨k, hk⟩ := Int.eq_ofNat_of_zero_le hspacing
    refine ⟨halfEven (n / 2 ^ spacing n) * 2 ^ k, ?_⟩
    rw [closest, hk]
    push_cast
    rfl
  · refine ⟨n, closest_intCast ?_⟩
    have hlt : |(n : ℚ)| ≤ 2 ^ (53 : ℤ) :=
      (abs_lt_spacing n).le.trans (two_zpow_le (by omega))
    exact_mod_cast hlt

/-- What is less than half the spacing is lost when it is added to a double. -/
theorem closest_add_of_lt {c r : ℚ} (hc : closest c = c) (hpos : 0 ≤ c) (hr : 0 ≤ r)
    (hlt : 2 * r < 2 ^ spacing c) : closest (c + r) = c := by
  have hunit := two_zpow_pos (spacing c)
  obtain ⟨k, hk⟩ : ∃ k : ℤ, c = k * 2 ^ spacing c := ⟨_, hc.symm⟩
  have hspacing : spacing (c + r) = spacing c := by
    refine le_antisymm (spacing_le ?_ (le_spacing c)) (spacing_mono ?_)
    · -- The next multiple of the spacing is not above the power of two that bounds the digits.
      have hup := abs_lt_spacing c
      rw [abs_of_nonneg hpos, add_comm, two_zpow_add] at hup
      have hkup : (k : ℚ) < 2 ^ (53 : ℤ) := lt_of_mul_lt_mul_right (hk ▸ hup) hunit.le
      have hnext : (k : ℚ) + 1 ≤ 2 ^ (53 : ℤ) := by
        have hint : k < 2 ^ 53 := by exact_mod_cast hkup
        exact_mod_cast (Int.add_one_le_iff.mpr hint)
      rw [abs_of_nonneg (add_nonneg hpos hr), add_comm (spacing c), two_zpow_add]
      calc c + r < (k + 1) * 2 ^ spacing c := by linarith
        _ ≤ 2 ^ (53 : ℤ) * 2 ^ spacing c := mul_le_mul_of_nonneg_right hnext hunit.le
    · rw [abs_of_nonneg hpos, abs_of_nonneg (add_nonneg hpos hr)]
      linarith
  have hround : halfEven ((c + r) / 2 ^ spacing c) = k := by
    refine eq_halfEven (.inl ?_)
    have hdistance : (c + r) / 2 ^ spacing c - k = r / 2 ^ spacing c := by
      rw [add_div, div_eq_iff hunit.ne' |>.mpr hk]
      ring
    rw [hdistance, abs_of_nonneg (div_nonneg hr hunit.le), div_lt_iff₀ hunit]
    linarith
  rw [closest, hspacing, hround, ← hk]

end LiveScene.Binary64
