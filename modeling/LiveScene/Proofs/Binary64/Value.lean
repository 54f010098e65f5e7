import LiveScene.Proofs.Binary64.Order

/-!
# LiveScene.Proofs.Binary64.Value

Finite doubles as fractions.

Doubles are compared by their exponents first and then by their significands. Between canonical
doubles this is the order of the fractions that they stand for (`compare_parts`), so `<`, `≤` and
`==` can be read off these. What is no number is not compared with anything, so moving it into a
range leaves it as it is (`clamp_between_iff`).
-/

namespace LiveScene.Binary64

open Float.Model (Format UnpackedFloat totalExponent)
open Float.Model.UnpackedFloat (Sign)

/-- The fraction that the parts of a finite double stand for. -/
def exact : UnpackedFloat → ℚ
  | .finite s m e _ => s.apply m * 2 ^ e
  | _ => 0

/-- The fraction that a finite double stands for. -/
def value (x : Float) : ℚ := exact (parts x)

variable {x y : Float}

theorem value_of_parts {u : UnpackedFloat} (h : parts x = u) : value x = exact u :=
  congrArg exact h

theorem isFinite_zero : (0 : Float).isFinite = true := by rfl

theorem isFinite_one : (1 : Float).isFinite = true := by rfl

theorem value_zero : value 0 = 0 := value_of_parts parts_zero

theorem value_one : value 1 = 1 := by
  rw [value_of_parts parts_one]
  show ((2 ^ 52 : ℕ) : ℤ) * (2 : ℚ) ^ (-52 : ℤ) = 1
  norm_num

theorem natCast_mul_pos {m : Nat} (hm : 0 < m) (e : ℤ) : (0 : ℚ) < m * 2 ^ e := by
  have hcast : (0 : ℚ) < m := by exact_mod_cast hm
  positivity

/-! ### Comparisons -/

/-- Canonical doubles are ordered as the fractions. -/
theorem scaled_lt_of_exponent_lt {m n : Nat} {e f : Int} (hme : Canonical m e)
    (hnf : Canonical n f) (h : e < f) : (m : ℚ) * 2 ^ e < n * 2 ^ f := by
  have hm : (m : ℚ) < 2 ^ (53 : ℤ) := by exact_mod_cast hme.lt
  have hle := hme.le
  have hn : (2 : ℚ) ^ (52 : ℤ) ≤ n := by
    exact_mod_cast hnf.full.resolve_right (by omega)
  calc (m : ℚ) * 2 ^ e < 2 ^ (53 : ℤ) * 2 ^ e := by gcongr
    _ = 2 ^ (53 + e) := (zpow_add₀ (by norm_num) _ _).symm
    _ ≤ 2 ^ (52 + f) := zpow_le_zpow_right₀ (by norm_num) (by omega)
    _ = 2 ^ (52 : ℤ) * 2 ^ f := zpow_add₀ (by norm_num) _ _
    _ ≤ n * 2 ^ f := by gcongr

theorem compare_scaled {m n : Nat} {e f : Int} (hme : Canonical m e) (hnf : Canonical n f) :
    (compare e f).then (compare m n) = compare ((m : ℚ) * 2 ^ e) (n * 2 ^ f) := by
  rcases lt_trichotomy e f with hlt | rfl | hgt
  · rw [compare_lt_iff_lt.mpr hlt, compare_lt_iff_lt.mpr (scaled_lt_of_exponent_lt hme hnf hlt)]
    rfl
  · have hpos : (0 : ℚ) < 2 ^ e := by positivity
    rw [compare_eq_iff_eq.mpr rfl, Ordering.eq_then]
    rcases lt_trichotomy m n with hmn | rfl | hmn
    · rw [compare_lt_iff_lt.mpr hmn, eq_comm, compare_lt_iff_lt]
      gcongr
    · rw [compare_eq_iff_eq.mpr rfl, compare_eq_iff_eq.mpr rfl]
    · rw [compare_gt_iff_gt.mpr hmn, eq_comm, compare_gt_iff_gt]
      gcongr
  · rw [compare_gt_iff_gt.mpr hgt, compare_gt_iff_gt.mpr (scaled_lt_of_exponent_lt hnf hme hgt)]
    rfl

theorem compare_neg (p q : ℚ) : compare (-p) (-q) = (compare p q).swap := by
  rcases lt_trichotomy p q with hlt | rfl | hgt
  · rw [compare_lt_iff_lt.mpr hlt, compare_gt_iff_gt.mpr (neg_lt_neg hlt)]
    rfl
  · rw [compare_eq_iff_eq.mpr rfl, compare_eq_iff_eq.mpr rfl]
    rfl
  · rw [compare_gt_iff_gt.mpr hgt, compare_lt_iff_lt.mpr (neg_lt_neg hgt)]
    rfl

theorem exact_negative {m : Nat} {e : Int} (hm : 0 < m) :
    exact (.finite .negative m e hm) = -(m * 2 ^ e) := by
  show ((-(m : ℤ) : ℤ) : ℚ) * 2 ^ e = _
  push_cast
  ring

theorem exact_positive {m : Nat} {e : Int} (hm : 0 < m) :
    exact (.finite .positive m e hm) = m * 2 ^ e := by
  show ((m : ℤ) : ℚ) * 2 ^ e = _
  push_cast
  rfl

/-- Finite doubles are compared as the fractions that they stand for. -/
theorem compare_parts (hx : x.isFinite = true) (hy : y.isFinite = true) :
    (parts x).compare (parts y) = some (compare (value x) (value y)) := by
  rcases isFinite_cases hx with ⟨s, hx⟩ | ⟨s, m, e, hm, hx⟩
  · rcases isFinite_cases hy with ⟨t, hy⟩ | ⟨t, n, f, hn, hy⟩
    · rw [value_of_parts hx, value_of_parts hy, hx, hy]
      rfl
    · have hpos := natCast_mul_pos hn f
      rw [value_of_parts hx, value_of_parts hy, hx, hy]
      cases t with
      | positive =>
          rw [exact_positive, compare_lt_iff_lt.mpr (show exact (.zero s) < _ from hpos)]
          rfl
      | negative =>
          rw [exact_negative, compare_gt_iff_gt.mpr
            (show _ < exact (.zero s) from neg_neg_of_pos hpos)]
          rfl
  · have hmpos := natCast_mul_pos hm e
    rcases isFinite_cases hy with ⟨t, hy⟩ | ⟨t, n, f, hn, hy⟩
    · rw [value_of_parts hx, value_of_parts hy, hx, hy]
      cases s with
      | positive =>
          rw [exact_positive, compare_gt_iff_gt.mpr (show exact (.zero t) < _ from hmpos)]
          rfl
      | negative =>
          rw [exact_negative, compare_lt_iff_lt.mpr
            (show _ < exact (.zero t) from neg_neg_of_pos hmpos)]
          rfl
    · have hnpos := natCast_mul_pos hn f
      have hscaled := compare_scaled (canonical_parts hx).1 (canonical_parts hy).1
      rw [value_of_parts hx, value_of_parts hy, hx, hy]
      cases s <;> cases t
      · rw [exact_negative, exact_negative, compare_neg, ← hscaled]
        rfl
      · rw [exact_negative, exact_positive,
          compare_lt_iff_lt.mpr ((neg_neg_of_pos hmpos).trans hnpos)]
        rfl
      · rw [exact_positive, exact_negative,
          compare_gt_iff_gt.mpr ((neg_neg_of_pos hnpos).trans hmpos)]
        rfl
      · rw [exact_positive, exact_positive, ← hscaled]
        rfl

theorem lt_iff_value (hx : x.isFinite = true) (hy : y.isFinite = true) :
    x < y ↔ value x < value y := by
  rw [lt_iff, UnpackedFloat.lt, compare_parts hx hy, beq_iff_eq, Option.some_inj,
    compare_lt_iff_lt]

theorem le_iff (x y : Float) : x ≤ y ↔ (parts x).le (parts y) = true := by
  show decide (x.toModel ≤ y.toModel) = true ↔ _
  exact decide_eq_true_iff

theorem le_iff_value (hx : x.isFinite = true) (hy : y.isFinite = true) :
    x ≤ y ↔ value x ≤ value y := by
  rw [le_iff, UnpackedFloat.le, compare_parts hx hy, Option.any_some, Ordering.isLE_iff_ne_gt]
  exact compare_le_iff_le

theorem le_self_of_isFinite (hx : x.isFinite = true) : x ≤ x := (le_iff_value hx hx).mpr le_rfl

theorem beq_iff_value (hx : x.isFinite = true) (hy : y.isFinite = true) :
    (x == y) = true ↔ value x = value y := by
  rw [beq_eq, UnpackedFloat.beq, compare_parts hx hy, beq_iff_eq, Option.some_inj,
    compare_eq_iff_eq]

/-! ### Ranges -/

theorem isFinite_of_isNaN (h : x.isNaN = true) : x.isFinite = false := by
  rw [isNaN_eq] at h
  rw [isFinite_eq]
  cases hx : parts x with
  | notANumber => rfl
  | _ =>
      rw [hx] at h
      exact absurd h (by simp [UnpackedFloat.isNaN])

theorem parts_of_isNaN (h : x.isNaN = true) : parts x = .notANumber := by
  rw [isNaN_eq] at h
  cases hx : parts x with
  | notANumber => rfl
  | _ =>
      rw [hx] at h
      exact absurd h (by simp [UnpackedFloat.isNaN])

/-- What is no number is not compared with anything. -/
theorem compare_of_isNaN (h : x.isNaN = true) (y : Float) :
    (parts x).compare (parts y) = none ∧ (parts y).compare (parts x) = none := by
  have hnone : (parts x).compare (parts y) = none := by
    rw [parts_of_isNaN h]
    cases parts y <;> rfl
  exact ⟨hnone, by rw [compare_swap, hnone]; rfl⟩

theorem not_lt_of_isNaN (h : x.isNaN = true) (y : Float) : ¬ x < y ∧ ¬ y < x := by
  obtain ⟨hleft, hright⟩ := compare_of_isNaN h y
  rw [lt_iff, lt_iff, UnpackedFloat.lt, UnpackedFloat.lt, hleft, hright]
  decide

theorem not_le_of_isNaN (h : x.isNaN = true) (y : Float) : ¬ y ≤ x := by
  rw [le_iff, UnpackedFloat.le, (compare_of_isNaN h y).2]
  decide

/-- Parts that are numbers are always compared. -/
theorem exists_compare (u v : UnpackedFloat) :
    u.isNaN = true ∨ v.isNaN = true ∨ ∃ order, u.compare v = some order := by
  cases u with
  | notANumber => exact .inl rfl
  | infinity s =>
      cases v with
      | notANumber => exact .inr (.inl rfl)
      | _ => cases s <;> exact .inr (.inr ⟨_, rfl⟩)
  | zero s =>
      cases v with
      | notANumber => exact .inr (.inl rfl)
      | zero t => exact .inr (.inr ⟨_, rfl⟩)
      | infinity t => cases t <;> exact .inr (.inr ⟨_, rfl⟩)
      | finite t n f hn => cases t <;> exact .inr (.inr ⟨_, rfl⟩)
  | finite s m e hm =>
      cases v with
      | notANumber => exact .inr (.inl rfl)
      | zero t => cases s <;> exact .inr (.inr ⟨_, rfl⟩)
      | infinity t => cases t <;> exact .inr (.inr ⟨_, rfl⟩)
      | finite t n f hn => cases s <;> cases t <;> exact .inr (.inr ⟨_, rfl⟩)

theorem le_of_not_lt (hx : x.isNaN = false) (hy : y.isNaN = false) (h : ¬ y < x) : x ≤ y := by
  rw [lt_iff, UnpackedFloat.lt, compare_swap] at h
  rw [le_iff, UnpackedFloat.le]
  rw [isNaN_eq] at hx hy
  rcases exists_compare (parts x) (parts y) with hnan | hnan | ⟨order, horder⟩
  · exact absurd (hx.symm.trans hnan) (by decide)
  · exact absurd (hy.symm.trans hnan) (by decide)
  · rw [horder] at h ⊢
    cases order with
    | gt => exact absurd rfl h
    | _ => rfl

variable {low high : Float}

/-- What lies between finite doubles is finite. -/
theorem isFinite_of_between (hlow : low.isFinite = true) (hhigh : high.isFinite = true)
    (hle : low ≤ x) (hge : x ≤ high) : x.isFinite = true := by
  rw [le_iff, UnpackedFloat.le] at hle hge
  rw [isFinite_eq]
  cases hx : parts x with
  | notANumber =>
      have hnan : x.isNaN = true := by
        rw [isNaN_eq, hx]
        rfl
      rw [(compare_of_isNaN hnan low).2] at hle
      exact absurd hle (by decide)
  | infinity s =>
      rw [hx] at hle hge
      cases s with
      | positive =>
          rcases isFinite_cases hhigh with ⟨t, hy⟩ | ⟨t, n, f, hn, hy⟩ <;> rw [hy] at hge <;>
            exact absurd hge (by simp [UnpackedFloat.compare])
      | negative =>
          rcases isFinite_cases hlow with ⟨t, hy⟩ | ⟨t, n, f, hn, hy⟩ <;> rw [hy] at hle <;>
            exact absurd hle (by cases t <;> simp [UnpackedFloat.compare])
  | _ => rfl

theorem isNaN_of_isFinite (h : x.isFinite = true) : x.isNaN = false := by
  cases hnan : x.isNaN with
  | false => rfl
  | true =>
      rw [isFinite_of_isNaN hnan] at h
      exact absurd h (by decide)

theorem clamp_of_isNaN (h : x.isNaN = true) (low high : Float) : clamp low high x = x := by
  rw [clamp, if_neg (not_lt_of_isNaN h low).1, if_neg (not_lt_of_isNaN h high).2]

/-- A number that is moved into a range is there, and what is no number is not. -/
theorem clamp_between_iff (hlow : low.isFinite = true) (hhigh : high.isFinite = true)
    (hle : low ≤ high) :
    low ≤ clamp low high x ∧ clamp low high x ≤ high ↔ x.isNaN = false := by
  constructor
  · intro hbetween
    cases hnan : x.isNaN with
    | false => rfl
    | true =>
        rw [clamp_of_isNaN hnan] at hbetween
        exact absurd hbetween.1 (not_le_of_isNaN hnan low)
  · intro hx
    rw [clamp]
    split
    · exact ⟨le_self_of_isFinite hlow, hle⟩
    · next hbelow =>
        split
        · exact ⟨hle, le_self_of_isFinite hhigh⟩
        · next habove =>
            exact ⟨le_of_not_lt (isNaN_of_isFinite hlow) hx hbelow,
              le_of_not_lt hx (isNaN_of_isFinite hhigh) habove⟩

end LiveScene.Binary64
