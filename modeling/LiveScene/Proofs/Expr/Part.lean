import LiveScene.Proofs.Binary64.Rank

/-!
# LiveScene.Proofs.Expr.Part

The part of the way between two breakpoints.

* It is from zero to one, unless the distance from the lower breakpoint overflows: then the distance
  of the two overflows as well, and the part is no number (`part_cases`).
* It grows with the number, up to where it is no number. If it comes to that, it is zero before
  (`part_mono`).
* A part of a way is not longer than the way, and in its direction (`mul_part_bounds`).
-/

namespace LiveScene.Segment

open Binary64 (parts value isFinite_zero isFinite_one)

variable {x r low high : Float}

/-! ### Distances -/

/-- A distance upwards is not negative, and overflows to an infinity. -/
theorem distance_cases (hlow : low.isFinite = true) (hx : x.isFinite = true) (hle : low ≤ x) :
    (x - low).isFinite = true ∧ 0 ≤ value (x - low) ∨ parts (x - low) = .infinity .positive := by
  rw [Binary64.le_iff_value hlow hx] at hle
  have hdistance := Binary64.rounds_sub hx hlow
  have hnonneg := Binary64.closest_nonneg (sub_nonneg.mpr hle)
  cases hfinite : (x - low).isFinite with
  | true =>
      rw [← hdistance.value_eq hfinite] at hnonneg
      exact .inl ⟨rfl, hnonneg⟩
  | false =>
      exact .inr (hdistance.parts_of_limit_le (hdistance.limit_le_of_not_isFinite hnonneg hfinite))

theorem distance_mono (hlow : low.isFinite = true) (hx : x.isFinite = true)
    (hr : r.isFinite = true) (hle : x ≤ r) : x - low ≤ r - low := by
  rw [Binary64.le_iff_value hx hr] at hle
  exact (Binary64.rounds_sub hx hlow).mono (Binary64.rounds_sub hr hlow) (by linarith)

/-- Where one distance overflows, so do longer ones. -/
theorem distance_infinity (hlow : low.isFinite = true) (hx : x.isFinite = true)
    (hr : r.isFinite = true) (hle : x ≤ r) (h : parts (x - low) = .infinity .positive) :
    parts (r - low) = .infinity .positive := by
  have hmono := distance_mono hlow hx hr hle
  have hrounds := Binary64.rounds_sub hr hlow
  rw [Binary64.le_iff_rank (Binary64.isNaN_of_infinity h) hrounds.isNaN,
    Binary64.rank_of_infinity h, Binary64.withSign_positive] at hmono
  rcases Binary64.number_cases hrounds.isNaN with hfinite | ⟨s, hinfinity⟩
  · exact absurd hmono (not_le.mpr (Binary64.rank_lt_limit hfinite).2)
  · cases s with
    | positive => exact hinfinity
    | negative =>
        have hpos := Binary64.limit_pos
        rw [Binary64.rank_of_infinity hinfinity, Binary64.withSign_negative] at hmono
        linarith

/-! ### Parts -/

/-- A finite distance is no part of an infinite one. -/
theorem value_div_infinity {distance span : Float} {s : Float.Model.UnpackedFloat.Sign}
    (hdistance : distance.isFinite = true) (hspan : parts span = .infinity s) :
    (distance / span).isFinite = true ∧ value (distance / span) = 0 := by
  obtain ⟨t, hzero⟩ : ∃ t, parts (distance / span) = .zero t := by
    rw [Binary64.parts_div, hspan]
    rcases Binary64.isFinite_cases hdistance with ⟨t, h⟩ | ⟨t, m, e, hm, h⟩ <;> rw [h] <;>
      exact ⟨_, Binary64.stored_zero _⟩
  rw [Binary64.value_of_zero hzero, Binary64.isFinite_eq, hzero]
  exact ⟨rfl, rfl⟩

/-- The distance of two breakpoints that are not equal is finite and positive, or infinite. -/
theorem span_cases (hlow : low.isFinite = true) (hhigh : high.isFinite = true) (hle : low ≤ high)
    (hne : (high == low) = false) :
    (high - low).isFinite = true ∧ 0 < value (high - low) ∨
      parts (high - low) = .infinity .positive := by
  refine (distance_cases hlow hhigh hle).imp_left fun ⟨hfinite, _⟩ => ⟨hfinite, ?_⟩
  have hdistinct : value low ≠ value high := by
    intro heq
    rw [(Binary64.beq_iff_value hhigh hlow).mpr heq.symm] at hne
    exact absurd hne (by decide)
  rw [(Binary64.rounds_sub hhigh hlow).value_eq hfinite]
  rw [Binary64.le_iff_value hlow hhigh] at hle
  exact Binary64.closest_sub_pos hlow hhigh (lt_of_le_of_ne hle hdistinct)

/-- Between two breakpoints the part of the way is a number from zero to one, or no number if the
distance from the lower one is too great. -/
theorem part_cases (hlow : low.isFinite = true) (hhigh : high.isFinite = true) (hle : low ≤ x)
    (hge : x ≤ high) (hne : (high == low) = false) :
    (x - low).isFinite = true ∧ ((x - low) / (high - low)).isFinite = true ∧
        0 ≤ value ((x - low) / (high - low)) ∧ value ((x - low) / (high - low)) ≤ 1 ∨
      (x - low).isFinite = false ∧ ((x - low) / (high - low)).isNaN = true := by
  have hx := Binary64.isFinite_of_between hlow hhigh hle hge
  have hmono := distance_mono hlow hx hhigh hge
  have hspan := span_cases hlow hhigh (Binary64.le_of_le_of_le hle hge) hne
  rcases distance_cases hlow hx hle with ⟨hfinite, hnonneg⟩ | hinfinite
  · refine .inl ⟨hfinite, ?_⟩
    rcases hspan with ⟨hwide, hpositive⟩ | hwide
    · rw [Binary64.le_iff_value hfinite hwide] at hmono
      have hbounds := (Binary64.rounds_div hfinite hwide hpositive.ne').finite_of_between
        isFinite_zero isFinite_one
        (by rw [Binary64.value_zero]; exact div_nonneg hnonneg hpositive.le)
        (by rw [Binary64.value_one]; exact div_le_one_of_le₀ hmono hpositive.le)
      rwa [Binary64.value_zero, Binary64.value_one] at hbounds
    · obtain ⟨hpart, hzero⟩ := value_div_infinity hfinite hwide
      rw [hzero]
      exact ⟨hpart, le_rfl, zero_le_one' ℚ⟩
  · refine .inr ⟨Binary64.isFinite_of_infinity hinfinite, ?_⟩
    rw [Binary64.isNaN_eq, Binary64.parts_div, Binary64.isNaN_stored, hinfinite,
      distance_infinity hlow hx hhigh hge hinfinite]
    rfl

/-- Two parts of a way, the second one further up: both are numbers, the second not less; or the
second is none, and the first none either, or zero. -/
def PartsMove (t u : Float) : Prop :=
  u.isNaN = true ∧ (t.isNaN = true ∨ t.isFinite = true ∧ value t = 0) ∨
    t.isFinite = true ∧ u.isFinite = true ∧ 0 ≤ value t ∧ value t ≤ value u ∧ value u ≤ 1

/-- Of two numbers between two breakpoints the upper one is the greater part of the way, up to where
the part is no number. -/
theorem part_mono (hlow : low.isFinite = true) (hhigh : high.isFinite = true) (hle : low ≤ x)
    (hxr : x ≤ r) (hge : r ≤ high) (hne : (high == low) = false) :
    PartsMove ((x - low) / (high - low)) ((r - low) / (high - low)) := by
  have hler := Binary64.le_of_le_of_le hle hxr
  have hr := Binary64.isFinite_of_between hlow hhigh hler hge
  have hx := Binary64.isFinite_of_between hlow hr hle hxr
  have hmono := distance_mono hlow hx hr hxr
  have hpartx := part_cases hlow hhigh hle (Binary64.le_of_le_of_le hxr hge) hne
  rcases part_cases hlow hhigh hler hge hne with ⟨hfar, hpart, -, hone⟩ | ⟨hfar, hnan⟩
  · have hnear : (x - low).isFinite = true := by
      refine (distance_cases hlow hx hle).elim And.left fun hinfinite => ?_
      have hfarther := Binary64.isFinite_of_infinity (distance_infinity hlow hx hr hxr hinfinite)
      exact absurd (hfar.symm.trans hfarther) (by decide)
    obtain ⟨-, hfinite, hnonneg, -⟩ := hpartx.resolve_right fun ⟨hnone, _⟩ =>
      absurd (hnear.symm.trans hnone) (by decide)
    refine .inr ⟨hfinite, hpart, hnonneg, ?_, hone⟩
    rcases span_cases hlow hhigh (Binary64.le_of_le_of_le hler hge) hne with
      ⟨hwide, hpositive⟩ | hwide
    · rw [Binary64.le_iff_value hnear hfar] at hmono
      rw [← Binary64.le_iff_value hfinite hpart]
      exact (Binary64.rounds_div hnear hwide hpositive.ne').mono
        (Binary64.rounds_div hfar hwide hpositive.ne')
        (div_le_div_of_nonneg_right hmono hpositive.le)
    · rw [(value_div_infinity hnear hwide).2, (value_div_infinity hfar hwide).2]
  · refine .inl ⟨hnan, ?_⟩
    rcases hpartx with ⟨hnear, hfinite, -⟩ | ⟨-, hnone⟩
    · have hinfinite := (distance_cases hlow hr hler).resolve_left fun ⟨hfinite, _⟩ =>
        absurd (hfar.symm.trans hfinite) (by decide)
      exact .inr (value_div_infinity hnear (distance_infinity hlow hr hhigh hge hinfinite))
    · exact .inl hnone

/-! ### A part of a way -/

/-- A part of a finite way is finite, not longer than the way, and in its direction. -/
theorem mul_part_bounds {way t : Float} (h : way.isFinite = true) (ht : t.isFinite = true)
    (hnonneg : 0 ≤ value t) (hle : value t ≤ 1) :
    (way * t).isFinite = true ∧ min 0 (value way) ≤ value (way * t) ∧
      value (way * t) ≤ max 0 (value way) := by
  have hrounds := Binary64.rounds_mul h ht
  rcases le_total 0 (value way) with hsign | hsign
  · rw [min_eq_left hsign, max_eq_right hsign, ← Binary64.value_zero]
    refine hrounds.finite_of_between isFinite_zero h ?_ (mul_le_of_le_one_right hsign hle)
    rw [Binary64.value_zero]
    exact mul_nonneg hsign hnonneg
  · rw [min_eq_right hsign, max_eq_left hsign, ← Binary64.value_zero]
    refine hrounds.finite_of_between h isFinite_zero (by nlinarith) ?_
    rw [Binary64.value_zero]
    exact mul_nonpos_of_nonpos_of_nonneg hsign hnonneg

end LiveScene.Segment
