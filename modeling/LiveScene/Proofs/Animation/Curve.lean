import LiveScene.Proofs.Binary64.Order
import LiveScene.Animation.Curve

/-!
# LiveScene.Proofs.Animation.Curve

The height of a curve is finite at every part of the time that is a number, and zero at the
beginning.

The part is first moved into the range from zero to one, where every term of every curve is below
a small power of two.
-/

namespace LiveScene

open Float.Model (Format UnpackedFloat totalExponent)
open Float.Model.UnpackedFloat (Sign)

namespace Binary64

variable {x : Float}

theorem below_two : Below 2 2 :=
  Or.inr ⟨.positive, 2 ^ 52, -51, by decide, by rfl, by decide⟩

theorem below_three : Below 2 3 :=
  Or.inr ⟨.positive, 3 * 2 ^ 51, -51, by decide, by rfl, by decide⟩

theorem below_four : Below 3 4 :=
  Or.inr ⟨.positive, 2 ^ 52, -50, by decide, by rfl, by decide⟩

theorem below_pi : Below 2 Curve.pi :=
  Or.inr ⟨.positive, 7074237752028440, -51, by decide, by rfl, by decide⟩

theorem parts_neg_six : parts (-6) = .finite .negative (3 * 2 ^ 51) (-50) (by decide) := by rfl

/-- A negative multiple of a part is zero or below it. -/
theorem IsPart.neg_six_mul (h : IsPart x) : ((-6 * x) == 0) = true ∨ -6 * x < 0 := by
  have hproduct : parts (-6 * x) = .zero .negative ∨ parts (-6 * x) = .zero .positive ∨
      ∃ m e hm, parts (-6 * x) = .finite .negative m e hm := by
    rw [parts_mul, parts_neg_six]
    rcases h with ⟨s, hx⟩ | ⟨⟨m, e, hm, hx⟩, hbelow⟩
    · rw [hx]
      cases s
      · exact Or.inr (Or.inl (stored_zero .positive))
      · exact Or.inl (stored_zero .negative)
    · have hrounded := rounded_mul .negative (by decide) hm
        (canonical_parts parts_neg_six).1 (canonical_parts hx).1
      -- The product is too small to become infinite, but it may vanish.
      have hplace := hbelow.totalExponent_le hx
      have hlog := log2_mul_cases (show 0 < 3 * 2 ^ 51 by decide) hm
      have hthree : (3 * 2 ^ 51 : Nat).log2 = 52 := by decide
      rw [totalExponent_eq] at hplace
      have hkept := stored_rounded hrounded (by rw [totalExponent_eq]; omega)
      rw [hx]
      rcases hrounded with ⟨hzero, -⟩ | ⟨r, g, hr, hfinite, -⟩
      · exact Or.inl (hkept.trans hzero)
      · exact Or.inr (Or.inr ⟨r, g, hr, hkept.trans hfinite⟩)
  rw [beq_eq, lt_iff, parts_zero]
  rcases hproduct with h | h | ⟨m, e, hm, h⟩
  · rw [h]
    exact Or.inl rfl
  · rw [h]
    exact Or.inl rfl
  · rw [h]
    exact Or.inr rfl

end Binary64

namespace Curve

open Binary64

variable {part : Float}

theorem isFinite_apply (curve : Curve) (h : part.isNaN = false) :
    (curve.apply part).isFinite = true := by
  have hpart := isPart_clamp h
  have ht := hpart.below
  unfold apply
  cases curve with
  | linear => exact ht.isFinite
  | easeIn => exact (ht.mul ht (by decide) (by decide)).isFinite
  | easeOut =>
      have hrest := below_two.sub (ht.mono (by decide)) (by decide)
      exact (ht.mul hrest (by decide) (by decide)).isFinite
  | easeInOut =>
      have hdouble := below_two.mul ht (by decide) (by decide)
      by_cases hhalf : clamp 0 1 part < 0.5
      · refine (congrArg Float.isFinite (if_pos hhalf)).trans ?_
        exact (hdouble.mul ht (by decide) (by decide)).isFinite
      · have hrest := (below_four.mono (by decide)).sub hdouble (by decide)
        have hproduct := hrest.mul ht (by decide) (by decide)
        refine (congrArg Float.isFinite (if_neg hhalf)).trans ?_
        exact ((below_literal_neg_one.mono (by decide)).add hproduct (by decide)).isFinite
  | spring =>
      -- The exponential and the cosine stay within one, so three factors are limited.
      have hangle := (below_three.mul below_pi (by decide) (by decide)).mul ht
        (by decide) (by decide)
      have hrest := below_literal_one.sub ht (by decide)
      have hdamped := hrest.mul (below_exp hpart.neg_six_mul) (by decide) (by decide)
      have hswing := hdamped.mul (below_cos hangle.isFinite) (by decide) (by decide)
      exact ((below_literal_one.mono (by decide)).sub hswing (by decide)).isFinite

/-- Every curve starts at zero. -/
theorem apply_zero (curve : Curve) : curve.apply 0 = 0 := by
  cases curve with
  | spring =>
      have hexp : exp (-6 * clamp 0 1 0) = 1 := if_pos rfl
      have hcos : cos (3 * pi * clamp 0 1 0) = 1 := if_pos rfl
      show 1 - (1 - clamp 0 1 0) * exp (-6 * clamp 0 1 0) * cos (3 * pi * clamp 0 1 0) = 0
      rw [hexp, hcos]
      rfl
  | _ => rfl

end Curve

end LiveScene
