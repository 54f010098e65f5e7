import LiveScene.Proofs.Binary64.Bounds

/-!
# LiveScene.Proofs.Binary64.Order

Comparisons of doubles, and what they say about sizes.

A double that is a number and neither below minus one nor above one is `Below 1`. So is whatever
`clamp`, `greater` and `smaller` put between these bounds.
-/

namespace LiveScene.Binary64

open Float.Model (Format UnpackedFloat totalExponent)
open Float.Model.UnpackedFloat (Sign)

theorem parts_zero : parts 0 = .zero .positive := by rfl

theorem parts_one : parts 1 = .finite .positive (2 ^ 52) (-52) (by decide) := by rfl

theorem parts_neg_one : parts (-1) = .finite .negative (2 ^ 52) (-52) (by decide) := by rfl

/-! ### Comparisons -/

/-- What is compared the other way round comes out the other way round. -/
theorem compare_swap (u v : UnpackedFloat) : v.compare u = (u.compare v).map Ordering.swap := by
  cases u with
  | notANumber => cases v <;> rfl
  | infinity s =>
      cases v with
      | notANumber => cases s <;> rfl
      | infinity t => cases s <;> cases t <;> rfl
      | zero t => cases s <;> rfl
      | finite t n f hn => cases s <;> cases t <;> rfl
  | zero s =>
      cases v with
      | notANumber => rfl
      | infinity t => cases t <;> rfl
      | zero t => rfl
      | finite t n f hn => cases t <;> rfl
  | finite s m e hm =>
      cases v with
      | notANumber => cases s <;> rfl
      | infinity t => cases s <;> cases t <;> rfl
      | zero t => cases s <;> rfl
      | finite t n f hn =>
          have hthen : (compare f e).then (compare n m) =
              ((compare e f).then (compare m n)).swap := by
            rw [Ordering.swap_then, Int.compare_swap, Nat.compare_swap]
          cases s <;> cases t
          · exact congrArg some (congrArg Ordering.swap hthen)
          · rfl
          · rfl
          · exact congrArg some hthen

variable {x y : Float}

theorem not_lt_of_lt (h : x < y) : ¬ y < x := by
  rw [lt_iff, UnpackedFloat.lt, beq_iff_eq] at h
  rw [lt_iff, UnpackedFloat.lt, compare_swap, h]
  decide

theorem isNaN_of_lt_left (h : x < y) : x.isNaN = false := by
  rw [lt_iff] at h
  rw [isNaN_eq]
  cases hx : parts x with
  | notANumber =>
      rw [hx] at h
      exact absurd h (by simp [UnpackedFloat.lt, UnpackedFloat.compare])
  | _ => rfl

theorem not_lt_neg_one (h : ¬ x < 0) : ¬ x < -1 := by
  intro hlt
  rw [lt_iff, parts_zero] at h
  rw [lt_iff, parts_neg_one] at hlt
  cases hx : parts x with
  | notANumber =>
      rw [hx] at hlt
      exact absurd hlt (by decide)
  | infinity s =>
      rw [hx] at h hlt
      cases s
      · exact h rfl
      · exact absurd hlt (by decide)
  | zero s =>
      rw [hx] at hlt
      cases s <;> exact absurd hlt (by decide)
  | finite s m e hm =>
      rw [hx] at h hlt
      cases s
      · exact h rfl
      · exact absurd hlt (by simp [UnpackedFloat.lt, UnpackedFloat.compare])

/-- What is a number, and neither below minus one nor above one. -/
theorem below_one (hnan : x.isNaN = false) (hlow : ¬ x < -1) (hhigh : ¬ 1 < x) : Below 1 x := by
  rw [isNaN_eq] at hnan
  rw [lt_iff, parts_neg_one] at hlow
  rw [lt_iff, parts_one] at hhigh
  cases hx : parts x with
  | notANumber =>
      rw [hx] at hnan
      exact absurd hnan (by decide)
  | infinity s =>
      rw [hx] at hlow hhigh
      cases s
      · exact absurd rfl hlow
      · exact absurd rfl hhigh
  | zero s => exact Or.inl ⟨s, hx⟩
  | finite s m e hm =>
      refine Or.inr ⟨s, m, e, hm, hx, ?_⟩
      -- The exponent is that of one or less, and the significand has fifty-three digits at most.
      have hlt := (canonical_parts hx).1.lt
      have hlog : m.log2 < 53 := (Nat.log2_lt (Nat.ne_of_gt hm)).mpr hlt
      -- Above the exponent of one every significand is too great.
      have he : ¬ -52 < e := by
        intro he
        rw [hx] at hlow hhigh
        cases s
        · refine hlow ?_
          show (some ((compare e (-52)).then (compare m (2 ^ 52))).swap == some Ordering.lt) = true
          rw [Int.compare_eq_gt.mpr he]
          rfl
        · refine hhigh ?_
          show (some ((compare (-52) e).then (compare (2 ^ 52) m)) == some Ordering.lt) = true
          rw [Int.compare_eq_lt.mpr he]
          rfl
      rw [totalExponent_eq]
      omega

/-! ### Bounds put on a double -/

theorem below_zero : Below 1 0 := Or.inl ⟨.positive, parts_zero⟩

theorem below_literal_one : Below 1 1 :=
  Or.inr ⟨.positive, 2 ^ 52, -52, by decide, parts_one, by decide⟩

theorem below_literal_neg_one : Below 1 (-1) :=
  Or.inr ⟨.negative, 2 ^ 52, -52, by decide, parts_neg_one, by decide⟩

/-- A double from zero to one. -/
def IsPart (x : Float) : Prop := (∃ s, parts x = .zero s) ∨ Positive x ∧ Below 1 x

theorem IsPart.below (h : IsPart x) : Below 1 x := h.elim Or.inl And.right

/-- A number that is moved into the range from zero to one is there. -/
theorem isPart_clamp (h : x.isNaN = false) : IsPart (clamp 0 1 x) := by
  unfold clamp
  by_cases hlow : x < 0
  · rw [if_pos hlow]
    exact Or.inl ⟨.positive, parts_zero⟩
  · by_cases hhigh : 1 < x
    · rw [if_neg hlow, if_pos hhigh]
      exact Or.inr ⟨⟨2 ^ 52, -52, by decide, parts_one⟩, below_literal_one⟩
    · rw [if_neg hlow, if_neg hhigh]
      have hbelow := below_one h (not_lt_neg_one hlow) hhigh
      rcases id hbelow with hzero | ⟨s, m, e, hm, hx, -⟩
      · exact Or.inl hzero
      · cases s with
        | positive => exact Or.inr ⟨⟨m, e, hm, hx⟩, hbelow⟩
        -- What is finite and negative is below zero.
        | negative =>
            rw [lt_iff, hx, parts_zero] at hlow
            exact absurd rfl hlow

/-- The smaller of one and anything is a number not above one. -/
theorem smaller_one (y : Float) : (smaller 1 y).isNaN = false ∧ ¬ 1 < smaller 1 y := by
  have hone : (1 : Float).isNaN = false := by decide
  unfold smaller
  rw [hone, if_neg (by decide)]
  by_cases h : y < 1
  · rw [if_pos h]
    exact ⟨isNaN_of_lt_left h, not_lt_of_lt h⟩
  · rw [if_neg h]
    exact ⟨hone, by decide⟩

theorem below_greater_smaller {low : Float} (hnan : low.isNaN = false) (hlow : Below 1 low)
    (hmin : ∀ z, low < z → ¬ z < -1) (y : Float) : Below 1 (greater low (smaller 1 y)) := by
  obtain ⟨hnumber, hhigh⟩ := smaller_one y
  unfold greater
  rw [hnan, if_neg (by decide)]
  by_cases h : low < smaller 1 y
  · rw [if_pos h]
    exact below_one hnumber (hmin _ h) hhigh
  · rw [if_neg h]
    exact hlow

/-- The exponential function of what is zero or below it. -/
theorem below_exp (h : (x == 0) = true ∨ x < 0) : Below 1 (exp x) := by
  unfold exp
  by_cases hzero : (x == 0) = true
  · rw [if_pos hzero]
    exact below_literal_one
  · rw [if_neg hzero, if_pos (h.resolve_left hzero)]
    exact below_greater_smaller (by decide) below_zero
      (fun z hz => not_lt_neg_one (not_lt_of_lt hz)) _

/-- The cosine of a finite angle. -/
theorem below_cos (h : x.isFinite = true) : Below 1 (cos x) := by
  unfold cos
  by_cases hzero : (x == 0) = true
  · rw [if_pos hzero]
    exact below_literal_one
  · rw [if_neg hzero, if_pos h]
    exact below_greater_smaller (by decide) below_literal_neg_one
      (fun z hz => not_lt_of_lt hz) _

end LiveScene.Binary64
