import LiveScene.Proofs.Expr.Number
import LiveScene.Proofs.Expr.Part

/-!
# LiveScene.Proofs.Expr.Mix

The point at a part of the way between two numbers.

The way is rounded before it is shortened, and shortened before it is added, so the ends are not
always met (`lerp_meets_ends_iff`). The start is missed only if the way overflows (`mix_zero_iff`).
At the end the error of the rounded way is added as well, and the end is met exactly if it is lost
there (`mix_one_iff`). On the way the rounded point moves in one direction, so it lies between the
start and each later one (`mix_between`).
-/

namespace LiveScene.Operator

open Binary64 (Rounds closest value parts isFinite_zero isFinite_one)
open Float.Model.UnpackedFloat (Sign)

variable {a b t u : Float}

/-- By how much the rounded way between two numbers is longer than the exact one. -/
def wayError (a b : Float) : ℚ := value (b - a) - (value b - value a)

/-! ### Infinite ways -/

/-- A way between finite numbers that overflows is infinite. -/
theorem exists_infinity_of_overflow (ha : a.isFinite = true) (hb : b.isFinite = true)
    (h : (b - a).isFinite = false) : ∃ s, Binary64.parts (b - a) = .infinity s := by
  have hnan := (Binary64.rounds_sub hb ha).isNaN
  exact (Binary64.number_cases hnan).resolve_left (by simp [h])

/-- The part zero of an infinite way is no number, nor is what it is added to. -/
theorem isNaN_mix_of_zero (hway : (b - a).isFinite = false) (ht : t.isFinite = true)
    (hzero : value t = 0) : (mix a b t).isNaN = true := by
  obtain ⟨s, hs⟩ := Binary64.exists_zero_of_value ht hzero
  exact Binary64.isNaN_add_mul_zero a hway hs

/-- From a finite number on, a positive part of an infinite way is infinite. -/
theorem parts_add_mul_infinity {s : Sign} {way : Float} (ha : a.isFinite = true)
    (hway : parts way = .infinity s) (ht : t.isFinite = true) (hpos : 0 < value t) :
    parts (a + way * t) = .infinity s := by
  have hproduct : parts (way * t) = .infinity s := by
    rcases Binary64.isFinite_cases ht with ⟨u, hzero⟩ | ⟨u, m, e, hm, hfinite⟩
    · exact absurd (Binary64.value_of_zero hzero) hpos.ne'
    · cases u with
      | negative =>
          have hneg := Binary64.natCast_mul_pos hm e
          rw [Binary64.value_of_parts hfinite, Binary64.exact_negative] at hpos
          linarith
      | positive =>
          rw [Binary64.parts_mul, hway, hfinite]
          cases s <;> exact Binary64.stored_infinity _
  rw [Binary64.parts_add, hproduct]
  rcases Binary64.isFinite_cases ha with ⟨u, hzero⟩ | ⟨u, m, e, hm, hfinite⟩
  · rw [hzero]
    exact Binary64.stored_infinity s
  · rw [hfinite]
    exact Binary64.stored_infinity s

/-! ### Finite ways -/

/-- A finite part of the way, added to the start. -/
theorem rounds_mix (ha : a.isFinite = true) (hpart : ((b - a) * t).isFinite = true) :
    Rounds (value a + value ((b - a) * t)) (mix a b t) :=
  Binary64.rounds_add ha hpart

/-- The part zero of a finite way is zero. -/
theorem mul_zero_part {way : Float} (h : way.isFinite = true) (ht : t.isFinite = true)
    (hzero : value t = 0) : (way * t).isFinite = true ∧ value (way * t) = 0 := by
  have hrounds := Binary64.rounds_mul h ht
  rw [hzero, mul_zero] at hrounds
  have hclosest := Binary64.closest_zero
  have hfinite := hrounds.finite (by rw [hclosest, abs_zero]; exact Binary64.limit_pos)
  rwa [hclosest] at hfinite

theorem mul_one_part {way : Float} (h : way.isFinite = true) :
    (way * 1).isFinite = true ∧ value (way * 1) = value way := by
  have hrounds := Binary64.rounds_mul h isFinite_one
  rw [Binary64.value_one, mul_one] at hrounds
  have hclosest := Binary64.closest_value h
  have hfinite := hrounds.finite (by rw [hclosest]; exact Binary64.abs_value_lt h)
  rwa [hclosest] at hfinite

/-! ### Between the start and a later point -/

/-- On a finite way every point lies between the start and each later point. -/
theorem mix_between (ha : a.isFinite = true) (hway : (b - a).isFinite = true)
    (ht : t.isFinite = true) (hu : u.isFinite = true) (hnonneg : 0 ≤ value t)
    (hle : value t ≤ value u) (hone : value u ≤ 1) :
    a ≤ mix a b t ∧ mix a b t ≤ mix a b u ∨ mix a b u ≤ mix a b t ∧ mix a b t ≤ a := by
  have hpart := (Segment.mul_part_bounds hway ht hnonneg (hle.trans hone)).1
  have hlater := (Segment.mul_part_bounds hway hu (hnonneg.trans hle) hone).1
  have hstart := Binary64.rounds_value ha
  have hpoint := rounds_mix ha hpart
  have hnext := rounds_mix ha hlater
  rw [(Binary64.rounds_mul hway ht).value_eq hpart] at hpoint
  rw [(Binary64.rounds_mul hway hu).value_eq hlater] at hnext
  rcases le_total 0 (value (b - a)) with hsign | hsign
  · have hlow := Binary64.closest_nonneg (mul_nonneg hsign hnonneg)
    have hhigh := Binary64.closest_mono (mul_le_mul_of_nonneg_left hle hsign)
    exact .inl ⟨hstart.mono hpoint (by linarith), hpoint.mono hnext (by linarith)⟩
  · have hlow := Binary64.closest_mono (mul_le_mul_of_nonpos_left hle hsign)
    have hhigh := Binary64.closest_mono (mul_nonpos_of_nonpos_of_nonneg hsign hnonneg)
    rw [Binary64.closest_zero] at hhigh
    exact .inr ⟨hnext.mono hpoint (by linarith), hpoint.mono hstart (by linarith)⟩

/-- At the part zero of a finite way is the start. -/
theorem mix_of_zero (ha : a.isFinite = true) (hway : (b - a).isFinite = true)
    (ht : t.isFinite = true) (hzero : value t = 0) : a ≤ mix a b t ∧ mix a b t ≤ a := by
  obtain ⟨hpart, hvalue⟩ := mul_zero_part hway ht hzero
  have hpoint := rounds_mix ha hpart
  rw [hvalue, add_zero] at hpoint
  have hstart := Binary64.rounds_value ha
  exact ⟨hstart.mono hpoint le_rfl, hpoint.mono hstart le_rfl⟩

/-! ### The ends -/

/-- The start is met unless the way overflows. -/
theorem mix_zero_iff (ha : a.isFinite = true) (hb : b.isFinite = true) :
    (Binary64.orZero (mix a b 0) == a) = true ↔ (b - a).isFinite = true := by
  cases hway : (b - a).isFinite with
  | true =>
      obtain ⟨hpart, hvalue⟩ := mul_zero_part hway isFinite_zero Binary64.value_zero
      have hrounds := rounds_mix (t := 0) ha hpart
      rw [hvalue, add_zero] at hrounds
      rw [Binary64.orZero_of_isNaN hrounds.isNaN, hrounds.beq_iff ha]
      simp [Binary64.closest_value ha]
  | false =>
      have hnan : (mix a b 0).isNaN = true :=
        isNaN_mix_of_zero hway isFinite_zero Binary64.value_zero
      rw [Binary64.orZero_eq_zero hnan, Binary64.beq_iff_value isFinite_zero ha,
        Binary64.value_zero]
      refine iff_of_false (fun hzero => ?_) (by decide)
      -- From zero the way is the end itself, and does not overflow.
      have hrounds := Binary64.rounds_sub hb ha
      rw [← hzero, sub_zero] at hrounds
      have hfinite := hrounds.finite (by
        rw [Binary64.closest_value hb]
        exact Binary64.abs_value_lt hb)
      exact absurd (hway.symm.trans hfinite.1) (by decide)

/-- The end is met exactly if the way does not overflow and its error is lost at the end. -/
theorem mix_one_iff (ha : a.isFinite = true) (hb : b.isFinite = true) :
    (Binary64.orZero (mix a b 1) == b) = true ↔
      (b - a).isFinite = true ∧ closest (value b + wayError a b) = value b := by
  cases hway : (b - a).isFinite with
  | true =>
      obtain ⟨hpart, hvalue⟩ := mul_one_part hway
      have hrounds := rounds_mix (t := 1) ha hpart
      rw [hvalue, show value a + value (b - a) = value b + wayError a b by
        rw [wayError]; ring] at hrounds
      rw [Binary64.orZero_of_isNaN hrounds.isNaN, hrounds.beq_iff hb]
      simp
  | false =>
      obtain ⟨s, hs⟩ := exists_infinity_of_overflow ha hb hway
      have hparts : parts (mix a b 1) = .infinity s :=
        parts_add_mul_infinity ha hs isFinite_one (by rw [Binary64.value_one]; exact one_pos)
      rw [Binary64.orZero_of_isNaN (Binary64.isNaN_of_infinity hparts)]
      refine iff_of_false (fun heq => ?_) (by simp)
      have hrank := (Binary64.beq_iff_rank (Binary64.isNaN_of_infinity hparts)
        (Binary64.isNaN_of_isFinite hb)).mp heq
      obtain ⟨hlow, hhigh⟩ := Binary64.rank_lt_limit hb
      rw [← hrank, Binary64.rank_of_infinity hparts] at hlow hhigh
      cases s with
      | positive => exact absurd hhigh (by rw [Binary64.withSign_positive]; exact lt_irrefl _)
      | negative => exact absurd hlow (by rw [Binary64.withSign_negative]; exact lt_irrefl _)

end LiveScene.Operator

namespace LiveScene.Expr

open Operator (wayError)

variable {cells : CellStore} {params : Params} {e f : Expr} {a b : Float}

/-- Between finite numbers, an expression for the point at zero of the way is the start unless the
way overflows; at one of the way it is the end if also the error of the way is lost there. -/
theorem lerp_meets_ends_iff (he : e.evalNumber cells params = a)
    (hf : f.evalNumber cells params = b) (ha : a.isFinite = true) (hb : b.isFinite = true) :
    (((op .lerp [e, f, literal (.number 0)]).evalNumber cells params == a) = true ↔
      (b - a).isFinite = true) ∧
    (((op .lerp [e, f, literal (.number 1)]).evalNumber cells params == b) = true ↔
      (b - a).isFinite = true ∧
        Binary64.closest (Binary64.value b + wayError a b) = Binary64.value b) := by
  have hzero : Binary64.orZero 0 = 0 := Binary64.orZero_of_isNaN (by rfl)
  have hone : Binary64.orZero 1 = 1 := Binary64.orZero_of_isNaN (by rfl)
  constructor
  · rw [evalNumber_op, List.map_cons, List.map_cons, List.map_singleton, evalNumber_literal, he, hf,
      hzero]
    exact Operator.mix_zero_iff ha hb
  · rw [evalNumber_op, List.map_cons, List.map_cons, List.map_singleton, evalNumber_literal, he, hf,
      hone]
    exact Operator.mix_one_iff ha hb

/-- The point at a part of the way between two numbers, as an expression. -/
def pointBetween (a b t : Float) : Expr :=
  op .lerp [literal (.number a), literal (.number b), literal (.number t)]

theorem lerp_meets_ends_two_five :
    ((literal (.number 2)).evalNumber (.new "scene") ∅ = 2 ∧
      (literal (.number 5)).evalNumber (.new "scene") ∅ = 5 ∧
      (2 : Float).isFinite = true ∧ (5 : Float).isFinite = true) ∧
    (((pointBetween 2 5 0).evalNumber (.new "scene") ∅ == 2) = true ↔
      ((5 : Float) - 2).isFinite = true) ∧
    (((pointBetween 2 5 1).evalNumber (.new "scene") ∅ == 5) = true ↔
      ((5 : Float) - 2).isFinite = true ∧
        Binary64.closest (Binary64.value 5 + wayError 2 5) = Binary64.value 5) :=
  have hstart : (literal (.number 2)).evalNumber (.new "scene") ∅ = 2 := by decide +kernel
  have hend : (literal (.number 5)).evalNumber (.new "scene") ∅ = 5 := by decide +kernel
  have htwo : (2 : Float).isFinite = true := by rfl
  have hfive : (5 : Float).isFinite = true := by rfl
  ⟨⟨hstart, hend, htwo, hfive⟩, lerp_meets_ends_iff hstart hend htwo hfive⟩

/-- From one to a tenth the rounded way is too long, and from the one side of all doubles to the
other it overflows. -/
theorem lerp_misses_ends :
    ((1 : Float).isFinite = true ∧ (0.1 : Float).isFinite = true ∧
      (pointBetween 1 0.1 1).evalNumber (.new "scene") ∅ = 0.09999999999999998 ∧
      ((0.09999999999999998 : Float) == 0.1) = false) ∧
    ((-1.5e308 : Float).isFinite = true ∧ (1.5e308 : Float).isFinite = true ∧
      (pointBetween (-1.5e308) 1.5e308 0).evalNumber (.new "scene") ∅ = 0 ∧
      ((0 : Float) == -1.5e308) = false) := by
  decide +kernel

end LiveScene.Expr
