import LiveScene.Expr.Eval
import LiveScene.Proofs.Color.Range
import LiveScene.Proofs.Expr.Part

/-!
# LiveScene.Proofs.Color.Mix

Which texts an interpolation between colours yields.

* A mixed channel is rounded three times, so it may lie outside the range by less than what the
  text shows (`nearRange_mix`).
* What is no number goes through every operation (`hasNaN_mix`).
-/

namespace LiveScene

namespace Color

open Binary64 (value closest limit isFinite_zero isFinite_one)

/-! ### Mixed channels -/

/-- A channel that is hardly outside of its range. -/
def NearRange (top : ℕ) (x : Float) : Prop :=
  x.isFinite = true ∧ -(1 / 4096) ≤ value x ∧ value x ≤ top + 1 / 4096

theorem great_limit : (256 : ℚ) < limit :=
  calc (256 : ℚ) = 2 ^ (8 : ℤ) := by norm_num
    _ < limit := zpow_lt_zpow_right₀ (by norm_num) (by norm_num)

variable {top : ℕ} {x y t : Float}

/-- A difference of channels is rounded by next to nothing. -/
theorem abs_sub_channels (htop : top ≤ 255) (hx : x.isFinite = true) (hy : y.isFinite = true)
    (hxtop : 0 ≤ value x ∧ value x ≤ top) (hytop : 0 ≤ value y ∧ value y ≤ top) :
    (y - x).isFinite = true ∧ |value (y - x) - (value y - value x)| ≤ 1 / 4096 := by
  have hcast : (top : ℚ) ≤ 255 := by exact_mod_cast htop
  have hgreat := great_limit
  have hrounds := Binary64.rounds_sub hy hx
  have hdigits : closest ((top : ℕ) : ℚ) = top := Binary64.closest_natCast (by omega)
  have hnegative : closest (-(top : ℚ)) = -top := by rw [Binary64.closest_neg, hdigits]
  obtain ⟨hfinite, -⟩ := hrounds.between hnegative hdigits (by linarith) (by linarith)
    (by linarith) (by linarith)
  refine ⟨hfinite, ?_⟩
  have hsmall : |value y - value x| < 2 ^ ((-45 : ℤ) + 53) := by
    rw [abs_lt]
    norm_num
    exact ⟨by linarith, by linarith⟩
  have hspacing := Binary64.spacing_le hsmall (by norm_num)
  calc |value (y - x) - (value y - value x)|
      ≤ 2 ^ (Binary64.spacing (value y - value x) - 1) := by
        rw [hrounds.value_eq hfinite]
        exact Binary64.abs_closest_sub_le _
    _ ≤ 2 ^ (-12 : ℤ) := Binary64.two_zpow_le (by omega)
    _ = 1 / 4096 := by norm_num

/-- The point between two channels is hardly outside of the range. -/
theorem nearRange_mix (htop : top ≤ 255) (hx : x.isFinite = true) (hy : y.isFinite = true)
    (hxtop : 0 ≤ value x ∧ value x ≤ top) (hytop : 0 ≤ value y ∧ value y ≤ top)
    (ht : t.isFinite = true) (htlow : 0 ≤ value t) (hthigh : value t ≤ 1) :
    NearRange top (x + (y - x) * t) := by
  have hcast : (top : ℚ) ≤ 255 := by exact_mod_cast htop
  have hgreat := great_limit
  obtain ⟨hdifference, herror⟩ := abs_sub_channels htop hx hy hxtop hytop
  obtain ⟨hbelow, habove⟩ := abs_le.mp herror
  obtain ⟨hfinite, hdown, hup⟩ := Segment.mul_part_bounds hdifference ht htlow hthigh
  have hlow : -(1 / 4096) ≤ value x + value ((y - x) * t) := by
    rcases min_le_iff.mp hdown with hsign | hsign <;> linarith
  have hhigh : value x + value ((y - x) * t) ≤ top + 1 / 4096 := by
    rcases le_max_iff.mp hup with hsign | hsign <;> linarith
  have hdigits : closest (((top * 4096 + 1 : ℕ) : ℤ) * 2 ^ (-12 : ℤ)) =
      ((top * 4096 + 1 : ℕ) : ℤ) * 2 ^ (-12 : ℤ) :=
    Binary64.closest_of_digits (by rw [abs_of_nonneg (by omega)]; omega) (by norm_num)
  have hleast := Binary64.closest_of_digits (m := -1) (e := -12) (by norm_num) (by norm_num)
  rw [show ((-1 : ℤ) : ℚ) * 2 ^ (-12 : ℤ) = -(1 / 4096) by norm_num] at hleast
  rw [show (((top * 4096 + 1 : ℕ) : ℤ) : ℚ) * 2 ^ (-12 : ℤ) = top + 1 / 4096 by
    push_cast; norm_num; ring] at hdigits
  exact (Binary64.rounds_add hx hfinite).between hleast hdigits (by linarith) (by linarith) hlow
    hhigh

/-! ### Mixed colours -/

/-- A colour that is hardly out of range. -/
structure NearlyInRange (c : Color) : Prop where
  red : NearRange 255 c.red
  green : NearRange 255 c.green
  blue : NearRange 255 c.blue
  alpha : NearRange 1 c.alpha

variable {c d : Color}

theorem value_of_between {top : Float} {n : ℕ} (htop : top.isFinite = true)
    (hvalue : value top = n) (h : 0 ≤ x ∧ x ≤ top) :
    x.isFinite = true ∧ 0 ≤ value x ∧ value x ≤ n := by
  have hx := Binary64.isFinite_of_between isFinite_zero htop h.1 h.2
  rw [between_iff_value hx htop, hvalue] at h
  exact ⟨hx, h⟩

theorem value_channel_of_between (h : 0 ≤ x ∧ x ≤ 255) :
    x.isFinite = true ∧ 0 ≤ value x ∧ value x ≤ (255 : ℕ) :=
  value_of_between isFinite_255 value_255 h

theorem value_opacity_of_between (h : 0 ≤ x ∧ x ≤ 1) :
    x.isFinite = true ∧ 0 ≤ value x ∧ value x ≤ (1 : ℕ) :=
  value_of_between isFinite_one (Binary64.value_one.trans Nat.cast_one.symm) h

theorem nearRange_of_between (h : x.isFinite = true ∧ 0 ≤ value x ∧ value x ≤ top) :
    NearRange top x :=
  ⟨h.1, by linarith [h.2.1], by linarith [h.2.2]⟩

theorem InRange.nearlyInRange (h : c.InRange) : c.NearlyInRange where
  red := nearRange_of_between (value_channel_of_between h.red)
  green := nearRange_of_between (value_channel_of_between h.green)
  blue := nearRange_of_between (value_channel_of_between h.blue)
  alpha := nearRange_of_between (value_opacity_of_between h.alpha)

/-- A part of the way from one colour in range to another is hardly out of range. -/
theorem InRange.mix (hc : c.InRange) (hd : d.InRange) (ht : t.isFinite = true)
    (htlow : 0 ≤ value t) (hthigh : value t ≤ 1) : (c.mix d t).NearlyInRange := by
  have hchannel : ∀ {top : ℕ} {x y : Float}, top ≤ 255 →
      (x.isFinite = true ∧ 0 ≤ value x ∧ value x ≤ top) →
      (y.isFinite = true ∧ 0 ≤ value y ∧ value y ≤ top) → NearRange top (x + (y - x) * t) :=
    fun htop hx hy => nearRange_mix htop hx.1 hy.1 hx.2 hy.2 ht htlow hthigh
  exact {
    red := hchannel le_rfl (value_channel_of_between hc.red) (value_channel_of_between hd.red)
    green := hchannel le_rfl (value_channel_of_between hc.green) (value_channel_of_between hd.green)
    blue := hchannel le_rfl (value_channel_of_between hc.blue) (value_channel_of_between hd.blue)
    alpha := hchannel (by decide) (value_opacity_of_between hc.alpha)
      (value_opacity_of_between hd.alpha) }

theorem isNaN_mix (h : x.isNaN = true ∨ y.isNaN = true ∨ t.isNaN = true) :
    (x + (y - x) * t).isNaN = true := by
  rcases h with h | h | h
  · exact Binary64.isNaN_add_of (.inl h)
  · have hdifference : (y - x).isNaN = true := Binary64.isNaN_sub_of (.inl h)
    exact Binary64.isNaN_add_of (.inr (Binary64.isNaN_mul_of (.inl hdifference)))
  · exact Binary64.isNaN_add_of (.inr (Binary64.isNaN_mul_of (.inr h)))

/-- What is no number stays in the mixture, whichever of the three it is in. -/
theorem hasNaN_mix (h : c.HasNaN ∨ d.HasNaN ∨ t.isNaN = true) : (c.mix d t).HasNaN := by
  rcases h with (h | h | h | h) | (h | h | h | h) | h
  · exact .inl (isNaN_mix (.inl h))
  · exact .inr (.inl (isNaN_mix (.inl h)))
  · exact .inr (.inr (.inl (isNaN_mix (.inl h))))
  · exact .inr (.inr (.inr (isNaN_mix (.inl h))))
  · exact .inl (isNaN_mix (.inr (.inl h)))
  · exact .inr (.inl (isNaN_mix (.inr (.inl h))))
  · exact .inr (.inr (.inl (isNaN_mix (.inr (.inl h)))))
  · exact .inr (.inr (.inr (isNaN_mix (.inr (.inl h)))))
  · exact .inl (isNaN_mix (.inr (.inr h)))

end Color

end LiveScene
