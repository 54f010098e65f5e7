import LiveScene.Proofs.Animation.Curve
import LiveScene.Proofs.Animation.Frame
import LiveScene.Proofs.Animation.Progress

/-!
# LiveScene.Proofs.Animation.Span

When a tween writes what is no number.

A tween writes its start and a part of its *span*, the distance from the start to the target. The
part is finite, so the sum is a number if the span is finite. A span that is too great is infinite
(`Overruns`), and at its first frame a tween adds nothing of it: zero times infinity, which is no
number.
-/

namespace LiveScene

open Binary64

namespace Tween

/-- The first frame of a tween of a cell that reads as `x`, with a span that is not finite. -/
structure Overruns (t : Tween) (x : Float) : Prop where
  fresh : t.start = none
  takes_time : t.length.nanos ≠ 0
  too_great : (t.target - x).isFinite = false

/-- A tween to a number, which it has started only over a finite span. -/
structure Bounded (t : Tween) : Prop where
  target : t.target.isNaN = false
  span : ∀ begin x, t.start = some (begin, x) → (t.target - x).isFinite = true

variable {t : Tween} {now : Duration} {x : Float}

theorem one_le_progress {length : Duration} (h : length.nanos = 0) (elapsed : Duration) :
    1 ≤ progress length elapsed := by
  rw [progress, if_pos h]
  decide

/-- The start that a frame goes by is at a finite distance, if the frame is not the last. -/
theorem Bounded.span_of_not_overruns (h : t.Bounded) (hno : ¬ t.Overruns x) (now : Duration)
    (hpart : ¬ 1 ≤ progress t.length (now - (t.start.getD (now, x)).1)) :
    (t.target - (t.start.getD (now, x)).2).isFinite = true := by
  cases hstart : t.start with
  | some start => exact h.span start.1 start.2 hstart
  | none =>
      -- A tween that has not started takes `x` for its start, so its span is the one in question.
      have htime : t.length.nanos ≠ 0 := fun hzero => hpart (one_le_progress hzero _)
      rw [← Bool.not_eq_false]
      exact fun hspan => hno ⟨hstart, htime, hspan⟩

/-- A frame writes a number, unless the tween overruns. -/
theorem Bounded.isNaN_frame (h : t.Bounded) (hno : ¬ t.Overruns x) :
    (t.frame now x).1.isNaN = false := by
  unfold frame
  simp only
  split
  · exact h.target
  · next hpart =>
      have hspan := h.span_of_not_overruns hno now hpart
      have hcurve := t.curve.isFinite_apply
        (isNaN_progress t.length (now - (t.start.getD (now, x)).1))
      exact isNaN_add (isFinite_of_isFinite_sub hspan).2 (isNaN_mul hspan hcurve)

/-- A tween that goes on stays bounded, unless it overruns. -/
theorem Bounded.frame (h : t.Bounded) (hno : ¬ t.Overruns x) {rest : Tween}
    (hrest : (t.frame now x).2 = some rest) : rest.Bounded := by
  unfold Tween.frame at hrest
  simp only at hrest
  split at hrest
  · cases hrest
  · next hpart =>
      have hspan := h.span_of_not_overruns hno now hpart
      cases hrest
      refine ⟨h.target, fun begin y hstart => ?_⟩
      have hkept : t.start.getD (now, x) = (begin, y) := Option.some.inj hstart
      rw [hkept] at hspan
      exact hspan

/-- What a tween writes that overruns is no number. -/
theorem Overruns.isNaN_frame (h : t.Overruns x) (now : Duration) :
    (t.frame now x).1.isNaN = true := by
  have hpart : progress t.length (now - (now, x).1) = 0 := progress_first h.takes_time now
  unfold Tween.frame
  rw [h.fresh, Option.getD_none]
  simp only
  rw [hpart, if_neg (by decide), Curve.apply_zero]
  exact isNaN_add_mul_zero x h.too_great parts_zero

end Tween

end LiveScene
