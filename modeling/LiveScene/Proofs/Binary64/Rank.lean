import LiveScene.Proofs.Binary64.Operations

/-!
# LiveScene.Proofs.Binary64.Rank

The order of all doubles that are numbers, infinities included.

A double ranks as the fraction that it stands for, and an infinity as the least power of two that
is above all finite doubles, with its sign (`rank`). Numbers are compared as their ranks
(`compare_rank`), so `<`, `≤` and `==` between them are those of a linear order. What is less than
something has a difference to it that is not zero (`beq_zero_of_lt`).
-/

namespace LiveScene.Binary64

open Float.Model (Format UnpackedFloat)
open Float.Model.UnpackedFloat (Sign)

/-- The place of parts among all that are numbers. -/
def rankOf : UnpackedFloat → ℚ
  | .infinity s => withSign s limit
  | u => exact u

/-- The place of a double among all that are numbers. -/
def rank (x : Float) : ℚ := rankOf (parts x)

variable {x y : Float}

theorem rank_of_isFinite (h : x.isFinite = true) : rank x = value x := by
  rcases isFinite_cases h with ⟨s, hx⟩ | ⟨s, m, e, hm, hx⟩ <;> simp only [rank, rankOf, value, hx]

theorem rank_of_infinity {s : Sign} (h : parts x = .infinity s) : rank x = withSign s limit := by
  simp only [rank, rankOf, h]

theorem isFinite_of_infinity {s : Sign} (h : parts x = .infinity s) : x.isFinite = false := by
  rw [isFinite_eq, h]
  rfl

theorem isNaN_of_infinity {s : Sign} (h : parts x = .infinity s) : x.isNaN = false := by
  rw [isNaN_eq, h]
  rfl

/-- A number is finite or infinite. -/
theorem number_cases (h : x.isNaN = false) :
    x.isFinite = true ∨ ∃ s, parts x = .infinity s := by
  rw [isNaN_eq] at h
  cases hx : parts x with
  | notANumber =>
      rw [hx] at h
      exact absurd h (by decide)
  | infinity s => exact .inr ⟨s, rfl⟩
  | zero s =>
      refine .inl ?_
      rw [isFinite_eq, hx]
      rfl
  | finite s m e hm =>
      refine .inl ?_
      rw [isFinite_eq, hx]
      rfl

/-- Finite doubles rank between the infinities. -/
theorem rank_lt_limit (h : x.isFinite = true) : -limit < rank x ∧ rank x < limit := by
  rw [rank_of_isFinite h]
  exact abs_lt.mp (abs_value_lt h)

theorem exists_zero_of_value (h : x.isFinite = true) (hzero : value x = 0) :
    ∃ s, parts x = .zero s := by
  refine (isFinite_cases h).resolve_right fun ⟨s, m, e, hm, hx⟩ => ?_
  have hpos := natCast_mul_pos hm e
  rw [value_of_parts hx, exact_finite] at hzero
  cases s with
  | positive => exact absurd hzero (by rw [withSign_positive]; exact hpos.ne')
  | negative => exact absurd hzero (by rw [withSign_negative]; exact (neg_neg_of_pos hpos).ne)

/-! ### Comparisons -/

/-- A finite double is compared with an infinity by the sign of this. -/
theorem compare_infinity {s : Sign} (hx : x.isFinite = true) (hy : parts y = .infinity s) :
    (parts x).compare (parts y) = some (compare (rank x) (rank y)) := by
  obtain ⟨hlow, hhigh⟩ := rank_lt_limit hx
  rw [rank_of_infinity hy, hy]
  cases s with
  | positive =>
      rw [withSign_positive, compare_lt_iff_lt.mpr hhigh]
      rcases isFinite_cases hx with ⟨t, hx⟩ | ⟨t, m, e, hm, hx⟩ <;> rw [hx] <;> cases t <;> rfl
  | negative =>
      rw [withSign_negative, compare_gt_iff_gt.mpr hlow]
      rcases isFinite_cases hx with ⟨t, hx⟩ | ⟨t, m, e, hm, hx⟩ <;> rw [hx] <;> cases t <;> rfl

theorem compare_infinities {s t : Sign} (hx : parts x = .infinity s)
    (hy : parts y = .infinity t) :
    (parts x).compare (parts y) = some (compare (rank x) (rank y)) := by
  have hlimit := limit_pos
  rw [rank_of_infinity hx, rank_of_infinity hy, hx, hy]
  cases s <;> cases t <;> simp only [withSign_negative, withSign_positive]
  · rw [compare_eq_iff_eq.mpr rfl]
    rfl
  · rw [compare_lt_iff_lt.mpr (by linarith)]
    rfl
  · rw [compare_gt_iff_gt.mpr (by linarith)]
    rfl
  · rw [compare_eq_iff_eq.mpr rfl]
    rfl

/-- Numbers are compared as their ranks. -/
theorem compare_rank (hx : x.isNaN = false) (hy : y.isNaN = false) :
    (parts x).compare (parts y) = some (compare (rank x) (rank y)) := by
  rcases number_cases hx with hx | ⟨s, hx⟩
  · rcases number_cases hy with hy | ⟨t, hy⟩
    · rw [compare_parts hx hy, rank_of_isFinite hx, rank_of_isFinite hy]
    · exact compare_infinity hx hy
  · rcases number_cases hy with hy | ⟨t, hy⟩
    · rw [compare_swap, compare_infinity hy hx, Option.map_some, ← Std.OrientedOrd.eq_swap]
    · exact compare_infinities hx hy

theorem lt_iff_rank (hx : x.isNaN = false) (hy : y.isNaN = false) : x < y ↔ rank x < rank y := by
  rw [lt_iff, UnpackedFloat.lt, compare_rank hx hy, beq_iff_eq, Option.some_inj, compare_lt_iff_lt]

theorem le_iff_rank (hx : x.isNaN = false) (hy : y.isNaN = false) : x ≤ y ↔ rank x ≤ rank y := by
  rw [le_iff, UnpackedFloat.le, compare_rank hx hy, Option.any_some, Ordering.isLE_iff_ne_gt]
  exact compare_le_iff_le

theorem beq_iff_rank (hx : x.isNaN = false) (hy : y.isNaN = false) :
    (x == y) = true ↔ rank x = rank y := by
  rw [beq_eq, UnpackedFloat.beq, compare_rank hx hy, beq_iff_eq, Option.some_inj,
    compare_eq_iff_eq]

/-- What is compared is a number. -/
theorem isNaN_of_le (h : x ≤ y) : x.isNaN = false ∧ y.isNaN = false := by
  rw [le_iff, UnpackedFloat.le] at h
  constructor
  · cases hx : x.isNaN with
    | false => rfl
    | true =>
        rw [(compare_of_isNaN hx y).1] at h
        exact absurd h (by decide)
  · cases hy : y.isNaN with
    | false => rfl
    | true => exact absurd ((le_iff x y).mpr h) (not_le_of_isNaN hy x)

theorem isNaN_of_lt (h : x < y) : x.isNaN = false ∧ y.isNaN = false := by
  constructor
  · exact isNaN_of_lt_left h
  · cases hy : y.isNaN with
    | false => rfl
    | true => exact absurd h (not_lt_of_isNaN hy x).2

theorem le_of_lt (h : x < y) : x ≤ y := by
  obtain ⟨hx, hy⟩ := isNaN_of_lt h
  rw [lt_iff_rank hx hy] at h
  exact (le_iff_rank hx hy).mpr h.le

theorem not_le_of_lt (h : x < y) : ¬ y ≤ x := by
  obtain ⟨hx, hy⟩ := isNaN_of_lt h
  rw [lt_iff_rank hx hy] at h
  rw [le_iff_rank hy hx]
  exact not_le.mpr h

theorem lt_of_not_le (hx : x.isNaN = false) (hy : y.isNaN = false) (h : ¬ x ≤ y) : y < x := by
  rw [le_iff_rank hx hy, not_le] at h
  exact (lt_iff_rank hy hx).mpr h

variable {z : Float}

theorem le_of_le_of_le (hxy : x ≤ y) (hyz : y ≤ z) : x ≤ z := by
  obtain ⟨hx, hy⟩ := isNaN_of_le hxy
  obtain ⟨-, hz⟩ := isNaN_of_le hyz
  rw [le_iff_rank hx hy] at hxy
  rw [le_iff_rank hy hz] at hyz
  exact (le_iff_rank hx hz).mpr (hxy.trans hyz)

theorem lt_of_lt_le (hxy : x < y) (hyz : y ≤ z) : x < z := by
  obtain ⟨hx, hy⟩ := isNaN_of_lt hxy
  obtain ⟨-, hz⟩ := isNaN_of_le hyz
  rw [lt_iff_rank hx hy] at hxy
  rw [le_iff_rank hy hz] at hyz
  exact (lt_iff_rank hx hz).mpr (hxy.trans_le hyz)

/-! ### Differences -/

theorem beq_zero_of_not_isFinite (h : x.isFinite = false) : (x == 0) = false := by
  rw [isFinite_eq] at h
  rw [beq_eq, UnpackedFloat.beq, parts_zero]
  cases hx : parts x with
  | notANumber => rfl
  | infinity s => cases s <;> rfl
  | zero s =>
      rw [hx] at h
      exact absurd h (by cases s <;> decide)
  | finite s m e hm =>
      rw [hx] at h
      exact absurd h (by simp [UnpackedFloat.isFinite])

/-- What is less than something has a difference to it. -/
theorem beq_zero_of_lt (h : x < y) : (y - x == 0) = false := by
  cases hfinite : (y - x).isFinite with
  | false => exact beq_zero_of_not_isFinite hfinite
  | true =>
      obtain ⟨hy, hx⟩ := isFinite_of_isFinite_sub hfinite
      have hpos := closest_sub_pos hx hy ((lt_iff_value hx hy).mp h)
      rw [← (rounds_sub hy hx).value_eq hfinite] at hpos
      rw [← Bool.not_eq_true, beq_iff_value hfinite isFinite_zero, value_zero]
      exact hpos.ne'

/-! ### Rounded fractions -/

section

variable {p q : ℚ}

theorem Rounds.isNaN (h : Rounds q x) : x.isNaN = false := by
  rcases h with ⟨-, hx, -⟩ | ⟨-, hx⟩ | ⟨-, hx⟩
  · exact isNaN_of_isFinite hx
  · exact isNaN_of_infinity hx
  · exact isNaN_of_infinity hx

/-- A rounded fraction ranks as the closest double, or as the infinity that it is beyond. -/
theorem Rounds.rank_eq (h : Rounds q x) : rank x = max (-limit) (min limit (closest q)) := by
  have hlimit := limit_pos
  rcases h with ⟨hlt, hx, hvalue⟩ | ⟨hle, hx⟩ | ⟨hle, hx⟩
  · obtain ⟨hlow, hhigh⟩ := abs_lt.mp hlt
    rw [rank_of_isFinite hx, hvalue, min_eq_right hhigh.le, max_eq_right hlow.le]
  · rw [rank_of_infinity hx, withSign_positive, min_eq_left hle, max_eq_right (by linarith)]
  · rw [rank_of_infinity hx, withSign_negative, min_eq_right (by linarith), max_eq_left hle]

/-- Rounding keeps the order, also where it overflows. -/
theorem Rounds.mono (hx : Rounds p x) (hy : Rounds q y) (h : p ≤ q) : x ≤ y := by
  rw [le_iff_rank hx.isNaN hy.isNaN, hx.rank_eq, hy.rank_eq]
  exact max_le_max_left _ (min_le_min_left _ (closest_mono h))

/-- A rounded fraction is a finite double exactly if that is the closest one. -/
theorem Rounds.beq_iff (hx : Rounds q x) (hy : y.isFinite = true) :
    (x == y) = true ↔ closest q = value y := by
  obtain ⟨hlow, hhigh⟩ := rank_lt_limit hy
  have hlimit := limit_pos
  rw [beq_iff_rank hx.isNaN (isNaN_of_isFinite hy), hx.rank_eq, ← rank_of_isFinite hy]
  constructor
  · intro h
    rcases le_total limit (closest q) with hle | hle
    · rw [min_eq_left hle, max_eq_right (by linarith)] at h
      exact absurd h hhigh.ne'
    · rw [min_eq_right hle] at h
      rcases le_total (closest q) (-limit) with hle' | hle'
      · rw [max_eq_left hle'] at h
        exact absurd h hlow.ne
      · rw [max_eq_right hle'] at h
        exact h
  · intro h
    rw [h, min_eq_right hhigh.le, max_eq_right hlow.le]

end

end LiveScene.Binary64
