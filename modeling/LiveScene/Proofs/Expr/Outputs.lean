import LiveScene.Proofs.Binary64.Neighbour
import LiveScene.Proofs.Expr.Mix
import LiveScene.Proofs.Expr.Part
import LiveScene.Proofs.Expr.Piecewise

/-!
# LiveScene.Proofs.Expr.Outputs

Which piecewise maps stay within their outputs.

Between two breakpoints the value moves from the lower output on in one direction, so it is within
the outputs wherever it is so further up (`spans_mix`). The last place between two breakpoints is
the upper one, or the double before if that is where the last output begins (`exists_reach`). So a
map stays within its outputs exactly if it does so at its breakpoints and at the double before the
last (`interpolate_spans_iff`).
-/

namespace LiveScene

open Binary64 (parts value before orZero)
open Segment (Brackets PartsMove)

/-- A number is between the smallest and the largest of the outputs. -/
def Spans (outputs : List Float) (y : Float) : Prop :=
  (∃ low ∈ outputs, low ≤ y) ∧ ∃ high ∈ outputs, y ≤ high

instance (outputs : List Float) (y : Float) : Decidable (Spans outputs y) :=
  inferInstanceAs (Decidable ((∃ low ∈ outputs, low ≤ y) ∧ ∃ high ∈ outputs, y ≤ high))

/-- A piecewise map between finite numbers: the breakpoints increase, and each has an output. -/
structure IsPiecewise (breakpoints outputs : List Float) : Prop where
  length : outputs.length = breakpoints.length
  increasing : breakpoints.IsChain (· ≤ ·)
  finite : ∀ b ∈ breakpoints, b.isFinite = true
  finiteOutputs : ∀ o ∈ outputs, o.isFinite = true

theorem isPiecewise_iff (breakpoints outputs : List Float) :
    IsPiecewise breakpoints outputs ↔
      outputs.length = breakpoints.length ∧ breakpoints.IsChain (· ≤ ·) ∧
        (∀ b ∈ breakpoints, b.isFinite = true) ∧ ∀ o ∈ outputs, o.isFinite = true :=
  ⟨fun h => ⟨h.length, h.increasing, h.finite, h.finiteOutputs⟩,
    fun ⟨hlength, hincreasing, hfinite, houtputs⟩ => ⟨hlength, hincreasing, hfinite, houtputs⟩⟩

instance (breakpoints outputs : List Float) : Decidable (IsPiecewise breakpoints outputs) :=
  decidable_of_iff _ (isPiecewise_iff breakpoints outputs).symm

variable {breakpoints outputs : List Float} {a b t u x y z low high last : Float}

/-! ### Spans -/

theorem Spans.of_between (hx : Spans outputs x) (hz : Spans outputs z) (hxy : x ≤ y) (hyz : y ≤ z) :
    Spans outputs y := by
  obtain ⟨⟨low, hlow, hle⟩, -⟩ := hx
  obtain ⟨-, ⟨high, hhigh, hge⟩⟩ := hz
  exact ⟨⟨low, hlow, Binary64.le_of_le_of_le hle hxy⟩, high, hhigh, Binary64.le_of_le_of_le hyz hge⟩

theorem spans_of_mem (hfinite : ∀ o ∈ outputs, o.isFinite = true) (h : a ∈ outputs) :
    Spans outputs a := by
  have hself := Binary64.le_self_of_isFinite (hfinite a h)
  exact ⟨⟨a, h, hself⟩, a, h, hself⟩

/-- What is within finite outputs is finite. -/
theorem Spans.isFinite (hfinite : ∀ o ∈ outputs, o.isFinite = true) (h : Spans outputs y) :
    y.isFinite = true := by
  obtain ⟨⟨low, hlow, hle⟩, high, hhigh, hge⟩ := h
  exact Binary64.isFinite_of_between (hfinite low hlow) (hfinite high hhigh) hle hge

/-! ### Between two breakpoints -/

theorem orZero_mix_of_isNaN (ht : t.isNaN = true) : orZero (Operator.mix a b t) = 0 :=
  Binary64.orZero_eq_zero (Binary64.isNaN_add_of (.inr (Binary64.isNaN_mul_of (.inr ht))))

/-- A mixture over a finite way is within the outputs if the one further up is. -/
theorem spans_mix_of_finite (hfinite : ∀ o ∈ outputs, o.isFinite = true) (ha : a ∈ outputs)
    (hway : (b - a).isFinite = true) (hparts : PartsMove t u)
    (h : Spans outputs (orZero (Operator.mix a b u))) :
    Spans outputs (orZero (Operator.mix a b t)) := by
  have hstart := hfinite a ha
  have hself := spans_of_mem hfinite ha
  rcases hparts with ⟨hu, ht | ⟨ht, hzero⟩⟩ | ⟨ht, hu, hnonneg, hle, hone⟩
  · rwa [orZero_mix_of_isNaN hu, ← orZero_mix_of_isNaN ht] at h
  · obtain ⟨hlow, hhigh⟩ := Operator.mix_of_zero hstart hway ht hzero
    rw [Binary64.orZero_of_isNaN (Binary64.isNaN_of_le hlow).2]
    exact hself.of_between hself hlow hhigh
  · rcases Operator.mix_between hstart hway ht hu hnonneg hle hone with
      ⟨hlow, hhigh⟩ | ⟨hlow, hhigh⟩
    · obtain ⟨hpoint, hlater⟩ := Binary64.isNaN_of_le hhigh
      rw [Binary64.orZero_of_isNaN hlater] at h
      rw [Binary64.orZero_of_isNaN hpoint]
      exact hself.of_between h hlow hhigh
    · obtain ⟨hlater, hpoint⟩ := Binary64.isNaN_of_le hlow
      rw [Binary64.orZero_of_isNaN hlater] at h
      rw [Binary64.orZero_of_isNaN hpoint]
      exact h.of_between hself hlow hhigh

/-- At a positive part of an infinite way nothing is within the outputs. -/
theorem value_of_spans_mix (hfinite : ∀ o ∈ outputs, o.isFinite = true) (ha : a.isFinite = true)
    (hb : b.isFinite = true) (hway : (b - a).isFinite = false) (hu : u.isFinite = true)
    (hnonneg : 0 ≤ value u) (h : Spans outputs (orZero (Operator.mix a b u))) : value u = 0 := by
  refine (hnonneg.eq_or_lt).elim Eq.symm fun hpos => ?_
  obtain ⟨s, hs⟩ := Operator.exists_infinity_of_overflow ha hb hway
  have hinfinity := Operator.parts_add_mul_infinity ha hs hu hpos
  have hwithin := h.isFinite hfinite
  rw [Operator.mix, Binary64.orZero_of_isNaN (Binary64.isNaN_of_infinity hinfinity),
    Binary64.isFinite_of_infinity hinfinity] at hwithin
  exact absurd hwithin (by decide)

/-- Over an infinite way both mixtures are zero if the one further up is within the outputs. -/
theorem spans_mix_of_infinite (hfinite : ∀ o ∈ outputs, o.isFinite = true) (ha : a.isFinite = true)
    (hb : b.isFinite = true) (hway : (b - a).isFinite = false) (hparts : PartsMove t u)
    (h : Spans outputs (orZero (Operator.mix a b u))) :
    Spans outputs (orZero (Operator.mix a b t)) := by
  have hnone : ∀ {w : Float}, w.isFinite = true → value w = 0 → orZero (Operator.mix a b w) = 0 :=
    fun hw hzero => Binary64.orZero_eq_zero (Operator.isNaN_mix_of_zero hway hw hzero)
  rcases hparts with ⟨hu, ht | ⟨ht, hzero⟩⟩ | ⟨ht, hu, hnonneg, hle, -⟩
  · rwa [orZero_mix_of_isNaN hu, ← orZero_mix_of_isNaN ht] at h
  · rwa [orZero_mix_of_isNaN hu, ← hnone ht hzero] at h
  · have hlater := value_of_spans_mix hfinite ha hb hway hu (hnonneg.trans hle) h
    have hearlier : value t = 0 := le_antisymm (hlater ▸ hle) hnonneg
    rwa [hnone hu hlater, ← hnone ht hearlier] at h

/-- A mixture of two outputs is within the outputs if the one further up is. -/
theorem spans_mix (hfinite : ∀ o ∈ outputs, o.isFinite = true) (ha : a ∈ outputs)
    (hb : b ∈ outputs) (hparts : PartsMove t u)
    (h : Spans outputs (orZero (Operator.mix a b u))) :
    Spans outputs (orZero (Operator.mix a b t)) := by
  cases hway : (b - a).isFinite with
  | true => exact spans_mix_of_finite hfinite ha hway hparts h
  | false => exact spans_mix_of_infinite hfinite (hfinite a ha) (hfinite b hb) hway hparts h

/-! ### The last place between two breakpoints -/

/-- Above a number between two breakpoints there is one that is not above the upper one, and below
the last: the upper one, or the double before the last. -/
theorem exists_reach (hbreakpoints : ∀ b ∈ breakpoints, b.isFinite = true)
    (hlast : last.isFinite = true) {i : Nat} (h : Brackets breakpoints x i low high)
    (hx : x < last) :
    ∃ r ∈ before last :: breakpoints, x ≤ r ∧ r < last ∧ Brackets breakpoints r i low high := by
  have hlow := hbreakpoints low (List.mem_of_getElem? h.atLow)
  have hmem := List.mem_of_getElem? h.atHigh
  have hhigh := hbreakpoints high hmem
  by_cases hinner : high < last
  · exact ⟨high, List.mem_cons_of_mem _ hmem, h.le, hinner, h.atLow, h.atHigh,
      Binary64.lt_of_lt_le h.lt h.le, Binary64.le_self_of_isFinite hhigh⟩
  · have hbound : last ≤ high := Binary64.le_of_not_lt (Binary64.isNaN_of_isFinite hlast)
      (Binary64.isNaN_of_isFinite hhigh) hinner
    have hfinite := Binary64.isFinite_of_between hlow hhigh (Binary64.le_of_lt h.lt) h.le
    have hle := Binary64.le_before hfinite hlast hx
    have hbefore := Binary64.before_lt hlast
    exact ⟨before last, List.mem_cons_self, hle, hbefore, h.atLow, h.atHigh,
      Binary64.lt_of_lt_le h.lt hle,
      Binary64.le_of_le_of_le (Binary64.le_of_lt hbefore) hbound⟩

/-! ### Every number -/

theorem IsPiecewise.followsPieces (h : IsPiecewise breakpoints outputs) (hx : x.isNaN = false) :
    FollowsPieces Operator.mix x breakpoints outputs (interpolate x breakpoints outputs) := by
  have hbreakpoints := shared_of_length_le h.length.ge
  have houtputs := shared_of_length_le h.length.le
  have hnan : ∀ b ∈ shared breakpoints outputs, b.isNaN = false := by
    rw [hbreakpoints]
    exact fun b hb => Binary64.isNaN_of_isFinite (h.finite b hb)
  have hpieces := followsPieces_interpolate hnan hx
  rwa [hbreakpoints, houtputs] at hpieces

/-- Between two breakpoints that increase, the value is mixed of their outputs. -/
theorem IsPiecewise.interpolate_of_brackets (h : IsPiecewise breakpoints outputs) {first : Float}
    {i : Nat} (hfirst : breakpoints.head? = some first) (hlast : breakpoints.getLast? = some last)
    (habove : ¬ (breakpoints.length = 1 ∨ x ≤ first)) (hbelow : ¬ last ≤ x)
    (hx : Brackets breakpoints x i low high) :
    ∃ a b, outputs[i]? = some a ∧ outputs[i + 1]? = some b ∧
      interpolate x breakpoints outputs = Operator.mix a b ((x - low) / (high - low)) := by
  obtain ⟨j, low', high', a, b, hpair, -, honly, ha, hb, -, -, hvalue⟩ :=
    (h.followsPieces (Binary64.isNaN_of_lt hx.lt).2).inner first last hfirst hlast habove hbelow
  obtain rfl : i = j := honly h.increasing i low high hx
  obtain rfl : low = low' := Option.some.inj (hx.atLow.symm.trans hpair.atLow)
  obtain rfl : high = high' := Option.some.inj (hx.atHigh.symm.trans hpair.atHigh)
  exact ⟨a, b, ha, hb, hvalue⟩

/-- A value is within the outputs if those at the breakpoints are, and that at the double before the
last. -/
theorem IsPiecewise.spans (h : IsPiecewise breakpoints outputs)
    (hlast : breakpoints.getLast? = some last)
    (hspans : ∀ r ∈ before last :: breakpoints,
      Spans outputs (orZero (interpolate r breakpoints outputs))) (hx : x.isNaN = false) :
    Spans outputs (orZero (interpolate x breakpoints outputs)) := by
  obtain ⟨first, hfirst⟩ : ∃ first, breakpoints.head? = some first := by
    cases breakpoints with
    | nil => cases hlast
    | cons b r => exact ⟨b, rfl⟩
  have hfinite := h.finite last (List.mem_of_getLast? hlast)
  have hpieces := h.followsPieces hx
  have houtput : ∀ {y}, y ∈ outputs → Spans outputs (orZero y) := by
    intro y hy
    rw [Binary64.orZero_of_isNaN (Binary64.isNaN_of_isFinite (h.finiteOutputs y hy))]
    exact spans_of_mem h.finiteOutputs hy
  by_cases habove : breakpoints.length = 1 ∨ x ≤ first
  · exact houtput (List.mem_of_head? (hpieces.first first hfirst habove))
  · by_cases hbelow : last ≤ x
    · exact houtput (List.mem_of_getLast? (hpieces.last first last hfirst hlast habove hbelow))
    · obtain ⟨i, low, high, -, -, hxpair, -⟩ :=
        hpieces.inner first last hfirst hlast habove hbelow
      -- The value further up is mixed of the same two outputs.
      obtain ⟨r, hr, hxr, hrlast, hrpair⟩ := exists_reach h.finite hfinite hxpair
        (Binary64.lt_of_not_le (Binary64.isNaN_of_isFinite hfinite) hx hbelow)
      have hraround : ¬ (breakpoints.length = 1 ∨ r ≤ first) ∧ ¬ last ≤ r :=
        ⟨fun hle => habove (hle.imp_right (Binary64.le_of_le_of_le hxr)),
          Binary64.not_le_of_lt hrlast⟩
      obtain ⟨a, b, ha, hb, hvalue⟩ :=
        h.interpolate_of_brackets hfirst hlast habove hbelow hxpair
      obtain ⟨a', b', ha', hb', hfar⟩ :=
        h.interpolate_of_brackets hfirst hlast hraround.1 hraround.2 hrpair
      obtain rfl : a = a' := Option.some.inj (ha.symm.trans ha')
      obtain rfl : b = b' := Option.some.inj (hb.symm.trans hb')
      have hwithin := hspans r hr
      rw [hfar] at hwithin
      rw [hvalue]
      exact spans_mix h.finiteOutputs (List.mem_of_getElem? ha) (List.mem_of_getElem? hb)
        (Segment.part_mono (h.finite low (List.mem_of_getElem? hxpair.atLow))
          (h.finite high (List.mem_of_getElem? hxpair.atHigh)) (Binary64.le_of_lt hxpair.lt) hxr
          hrpair.le hxpair.ne) hwithin

/-- An expression for a piecewise map between finite numbers stays within its outputs exactly if
the map does so at its breakpoints and at the double before the last. -/
theorem Expr.interpolate_spans_iff (h : IsPiecewise breakpoints outputs)
    (hlast : breakpoints.getLast? = some last) :
    (∀ (input : Expr) (cells : CellStore) (params : Params),
        Spans outputs ((interpolate input breakpoints outputs).evalNumber cells params)) ↔
      ∀ x ∈ before last :: breakpoints,
        Spans outputs (orZero (LiveScene.interpolate x breakpoints outputs)) := by
  constructor
  · intro hall x hx
    have hnumber : x.isNaN = false := by
      rcases List.mem_cons.mp hx with rfl | hmem
      · exact Binary64.isNaN_before (h.finite last (List.mem_of_getLast? hlast))
      · exact Binary64.isNaN_of_isFinite (h.finite x hmem)
    have hliteral := hall (literal (.number x)) (.new "scene") ∅
    rwa [evalNumber_interpolate, evalNumber_literal, Binary64.orZero_of_isNaN hnumber] at hliteral
  · intro hspans input cells params
    rw [evalNumber_interpolate]
    exact h.spans hlast hspans (isNaN_evalNumber cells params input)

/-- A map up and down stays within its outputs, whatever is put in. -/
theorem Expr.interpolate_spans_hill :
    IsPiecewise [0, 10, 20] [0, 100, 0] ∧ [(0 : Float), 10, 20].getLast? = some 20 ∧
      ∀ (input : Expr) (cells : CellStore) (params : Params),
        Spans [0, 100, 0] ((interpolate input [0, 10, 20] [0, 100, 0]).evalNumber cells params) :=
  have hpiecewise : IsPiecewise [0, 10, 20] [0, 100, 0] := by decide +kernel
  have hlast : [(0 : Float), 10, 20].getLast? = some 20 := by simp
  have hpoints : ∀ x ∈ [before 20, 0, 10, 20],
      Spans [0, 100, 0] (orZero (LiveScene.interpolate x [0, 10, 20] [0, 100, 0])) := by
    decide +kernel
  ⟨hpiecewise, hlast, (Expr.interpolate_spans_iff hpiecewise hlast).mpr hpoints⟩

/-- From the one side of all doubles to the other the value is infinite halfway. At the second of
three breakpoints it can be too low, and where the part of the way overflows it is zero. -/
theorem Expr.interpolate_leaves_outputs :
    (IsPiecewise [0, 1] [-1.5e308, 1.5e308] ∧
      (interpolate (literal (.number 0.5)) [0, 1] [-1.5e308, 1.5e308]).evalNumber (.new "scene") ∅ =
        Binary64.signed false Binary64.infinity ∧
      ¬ Spans [-1.5e308, 1.5e308] (Binary64.signed false Binary64.infinity)) ∧
    (IsPiecewise [0, 1, 2] [1, 0.1, 1] ∧
      (interpolate (literal (.number 1)) [0, 1, 2] [1, 0.1, 1]).evalNumber (.new "scene") ∅ =
        0.09999999999999998 ∧
      ¬ Spans [1, 0.1, 1] 0.09999999999999998) ∧
    (IsPiecewise [-1.5e308, 1.5e308] [1, 2] ∧
      (interpolate (literal (.number 1e308)) [-1.5e308, 1.5e308] [1, 2]).evalNumber
        (.new "scene") ∅ = 0 ∧
      ¬ Spans [1, 2] 0) := by
  refine ⟨⟨?_, ?_, ?_⟩, ⟨?_, ?_, ?_⟩, ?_, ?_, ?_⟩ <;> decide +kernel

end LiveScene
