import LiveScene.Proofs.Binary64.Rank
import LiveScene.Proofs.Binary64.Remainder
import LiveScene.Proofs.Expr.Number

/-!
# LiveScene.Proofs.Expr.Modulo

What is left of a number that is less than the divisor.

To correct the sign the divisor is added to what is left, and the result is what is left of the
sum. The two remainders are exact, but the sum is rounded. It lies between the divisor and its
double, and the result is by how much it is above the divisor; at the double, and where the sum
overflows, it is zero (`value_mod`). So a number is left as it is exactly if the sum of it and the
divisor is not rounded (`mod_keeps_iff`).
-/

namespace LiveScene.Operator

open Binary64 (Rounds closest value remainder)

variable {a b s : Float}

theorem apply_mod (hb : b.isFinite = true) (hpos : 0 < value b) :
    apply .mod [a, b] = remainder (remainder a b + b) b := by
  have hne : ¬ (b == 0) = true := by
    rw [Binary64.beq_iff_value hb Binary64.isFinite_zero, Binary64.value_zero]
    exact hpos.ne'
  exact if_neg hne

/-- Of less than the divisor everything is left. -/
theorem value_remainder_of_lt (ha : a.isFinite = true) (hb : b.isFinite = true)
    (hnonneg : 0 ≤ value a) (hlt : value a < value b) :
    (remainder a b).isFinite = true ∧ value (remainder a b) = value a := by
  have hpos := hnonneg.trans_lt hlt
  have hquotient : ⌊value a / value b⌋₊ = 0 := Nat.floor_eq_zero.mpr ((div_lt_one hpos).mpr hlt)
  have hrest := Binary64.value_remainder_of_nonneg ha hb hnonneg hpos
  rwa [hquotient, Nat.cast_zero, zero_mul, sub_zero] at hrest

/-- From the divisor to its double, the divisor is taken away once, at the double twice. -/
theorem value_remainder_of_sum (hs : s.isFinite = true) (hb : b.isFinite = true)
    (hpos : 0 < value b) (hlow : value b ≤ value s) (hhigh : value s ≤ 2 * value b) :
    (remainder s b).isFinite = true ∧
      value (remainder s b) = if value s < 2 * value b then value s - value b else 0 := by
  obtain ⟨hfinite, hvalue⟩ := Binary64.value_remainder_of_nonneg hs hb (hpos.le.trans hlow) hpos
  refine ⟨hfinite, hvalue.trans ?_⟩
  split
  · next hlt =>
      have hquotient : ⌊value s / value b⌋₊ = 1 := by
        rw [Nat.floor_eq_iff' one_ne_zero]
        push_cast
        exact ⟨(one_le_div hpos).mpr hlow, (div_lt_iff₀ hpos).mpr (by linarith)⟩
      rw [hquotient, Nat.cast_one, one_mul]
  · next hge =>
      have htwice : value s = 2 * value b := le_antisymm hhigh (not_lt.mp hge)
      have hquotient : ⌊value s / value b⌋₊ = 2 := by
        rw [htwice, mul_div_cancel_right₀ _ hpos.ne']
        exact Nat.floor_natCast 2
      rw [hquotient, htwice]
      push_cast
      ring

/-- The double of a double is not rounded. -/
theorem closest_two_mul_value (hb : b.isFinite = true) :
    closest (2 * value b) = 2 * value b := by
  obtain ⟨sign, m, e, hvalue, hm, he, -⟩ := Binary64.value_cases hb
  have hdigits := Binary64.closest_of_digits (m := m) (e := e + 1)
    (by rw [abs_of_nonneg] <;> omega) (by omega)
  have hdouble : 2 * value b = Binary64.withSign sign (((m : ℤ) : ℚ) * 2 ^ (e + 1)) := by
    rw [hvalue, Binary64.two_zpow_add, zpow_one, Int.cast_natCast, Binary64.withSign,
      Binary64.withSign]
    ring
  rw [hdouble, Binary64.closest_withSign, hdigits]

/-- What is left after the sign is corrected: by how much the rounded sum is above the divisor, and
zero if it is its double or overflows. -/
theorem value_mod (ha : a.isFinite = true) (hb : b.isFinite = true) (hnonneg : 0 ≤ value a)
    (hlt : value a < value b) :
    (Binary64.orZero (apply .mod [a, b])).isFinite = true ∧
      value (Binary64.orZero (apply .mod [a, b])) =
        if (a + b).isFinite = true ∧ value (a + b) < 2 * value b then value (a + b) - value b
        else 0 := by
  have hpos := hnonneg.trans_lt hlt
  obtain ⟨hrest, hvalue⟩ := value_remainder_of_lt ha hb hnonneg hlt
  have hsum := Binary64.rounds_add ha hb
  have hcorrected := Binary64.rounds_add hrest hb
  rw [hvalue] at hcorrected
  rw [apply_mod hb hpos]
  cases hfinite : (a + b).isFinite with
  | true =>
      have hclosest := hsum.value_eq hfinite
      have hsmall : |closest (value a + value b)| < Binary64.limit := by
        rw [← hclosest]
        exact Binary64.abs_value_lt hfinite
      obtain ⟨hsame, hequal⟩ := hcorrected.finite hsmall
      have hlow : closest (value b) ≤ closest (value a + value b) :=
        Binary64.closest_mono (by linarith)
      have hhigh : closest (value a + value b) ≤ closest (2 * value b) :=
        Binary64.closest_mono (by linarith)
      rw [Binary64.closest_value hb, ← hequal] at hlow
      rw [closest_two_mul_value hb, ← hequal] at hhigh
      obtain ⟨hresult, hleft⟩ := value_remainder_of_sum hsame hb hpos hlow hhigh
      rw [Binary64.orZero_of_isNaN (Binary64.isNaN_of_isFinite hresult), hclosest, ← hequal]
      exact ⟨hresult, by simpa using hleft⟩
  | false =>
      have hoverflow : (remainder a b + b).isFinite = false := by
        rw [← Bool.not_eq_true]
        intro hsame
        have hsmall := Binary64.abs_value_lt hsame
        rw [hcorrected.value_eq hsame] at hsmall
        exact absurd (hfinite.symm.trans (hsum.finite hsmall).1) (by decide)
      rw [Binary64.orZero_eq_zero (Binary64.isNaN_remainder hoverflow)]
      exact ⟨Binary64.isFinite_zero, by simp [Binary64.value_zero]⟩

/-- A number below the divisor is left as it is exactly if the sum of both is not rounded. -/
theorem mod_beq_iff (ha : a.isFinite = true) (hb : b.isFinite = true) (hnonneg : 0 ≤ value a)
    (hlt : value a < value b) :
    (Binary64.orZero (apply .mod [a, b]) == a) = true ↔
      (a + b).isFinite = true ∧ value (a + b) = value a + value b := by
  obtain ⟨hresult, hvalue⟩ := value_mod ha hb hnonneg hlt
  rw [Binary64.beq_iff_value hresult ha, hvalue]
  constructor
  · intro h
    split at h
    · next hsum => exact ⟨hsum.1, by linarith⟩
    · -- Zero is left as it is as well: the sum is the divisor then.
      have hsum := Binary64.rounds_add ha hb
      rw [← h, zero_add] at hsum
      rw [← h, zero_add, ← Binary64.closest_value hb]
      refine hsum.finite ?_
      rw [Binary64.closest_value hb]
      exact Binary64.abs_value_lt hb
  · intro ⟨hfinite, hexact⟩
    rw [if_pos ⟨hfinite, by linarith⟩, hexact]
    ring

end LiveScene.Operator

namespace LiveScene.Expr

variable {cells : CellStore} {params : Params} {e f : Expr} {a b : Float}

/-- An expression for what is left of a number below the divisor is the number itself exactly if
the sum of both is not rounded, and does not overflow. -/
theorem mod_keeps_iff (he : e.evalNumber cells params = a) (hf : f.evalNumber cells params = b)
    (ha : a.isFinite = true) (hb : b.isFinite = true) (hnonneg : 0 ≤ a) (hlt : a < b) :
    ((op .mod [e, f]).evalNumber cells params == a) = true ↔
      (a + b).isFinite = true ∧
        Binary64.value (a + b) = Binary64.value a + Binary64.value b := by
  rw [Binary64.le_iff_value Binary64.isFinite_zero ha, Binary64.value_zero] at hnonneg
  rw [Binary64.lt_iff_value ha hb] at hlt
  rw [evalNumber_op, List.map_cons, List.map_singleton, he, hf]
  exact Operator.mod_beq_iff ha hb hnonneg hlt

/-- What is left of a number, as an expression. -/
def leftOf (a b : Float) : Expr := op .mod [literal (.number a), literal (.number b)]

theorem mod_keeps_one_three :
    ((literal (.number 1)).evalNumber (.new "scene") ∅ = 1 ∧
      (literal (.number 3)).evalNumber (.new "scene") ∅ = 3 ∧
      (1 : Float).isFinite = true ∧ (3 : Float).isFinite = true ∧ (0 : Float) ≤ 1 ∧
      (1 : Float) < 3) ∧
    (((leftOf 1 3).evalNumber (.new "scene") ∅ == 1) = true ↔
      ((1 : Float) + 3).isFinite = true ∧
        Binary64.value (1 + 3) = Binary64.value 1 + Binary64.value 3) :=
  have hnumber : (literal (.number 1)).evalNumber (.new "scene") ∅ = 1 := by decide +kernel
  have hdivisor : (literal (.number 3)).evalNumber (.new "scene") ∅ = 3 := by decide +kernel
  have hone : (1 : Float).isFinite = true := by rfl
  have hthree : (3 : Float).isFinite = true := by rfl
  have hnonneg : (0 : Float) ≤ 1 := by decide +kernel
  have hlt : (1 : Float) < 3 := by decide +kernel
  ⟨⟨hnumber, hdivisor, hone, hthree, hnonneg, hlt⟩,
    mod_keeps_iff hnumber hdivisor hone hthree hnonneg hlt⟩

/-- Nothing is left of a great number, too much of a tenth, and nothing of a small number. -/
theorem mod_changes :
    ((1e308 : Float).isFinite = true ∧ (1.5e308 : Float).isFinite = true ∧
      (0 : Float) ≤ 1e308 ∧ (1e308 : Float) < 1.5e308 ∧
      (leftOf 1e308 1.5e308).evalNumber (.new "scene") ∅ = 0 ∧ ((0 : Float) == 1e308) = false) ∧
    ((leftOf 0.1 1).evalNumber (.new "scene") ∅ = 0.10000000000000009 ∧
      ((0.10000000000000009 : Float) == 0.1) = false) ∧
    ((leftOf 1e-20 1).evalNumber (.new "scene") ∅ = 0 ∧ ((0 : Float) == 1e-20) = false) := by
  decide +kernel

end LiveScene.Expr
