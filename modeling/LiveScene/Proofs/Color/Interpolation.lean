import LiveScene.Proofs.Color.Display
import LiveScene.Proofs.Expr.Part
import LiveScene.Proofs.Expr.Segment

/-!
# LiveScene.Proofs.Color.Interpolation

Which interpolations between colours have the text of a colour.

An interpolation picks an output or mixes two that follow each other. Its text is that of a colour
in range exactly if no output that counts has the word for what is no number, and the distance from
the breakpoint below does not overflow (`isText_interpolateColor_iff`).
-/

namespace LiveScene

namespace Color

/-! ### Outputs -/

/-- Every colour that an output writes has numbers only. -/
def IsClean (output : Option String) : Prop := ∀ s, output = some s → ¬ WritesNaN s

variable {output : Option String}

theorem inRange_of_isClean (h : IsClean output) :
    ((output.bind ofText?).getD transparent).InRange := by
  cases hc : output.bind ofText? with
  | none => exact inRange_transparent
  | some c =>
      obtain ⟨s, hs, hread⟩ := Option.bind_eq_some_iff.mp hc
      exact (inRange_iff hread).mpr (h s hs)

theorem hasNaN_of_not_isClean (h : ¬ IsClean output) :
    ((output.bind ofText?).getD transparent).HasNaN := by
  unfold IsClean at h
  push Not at h
  obtain ⟨s, hs, hnan⟩ := h
  obtain ⟨c, hc⟩ := Option.isSome_iff_exists.mp hnan.1
  rw [hs, Option.bind_some, hc]
  exact hasNaN_of_writesNaN hc hnan

/-- A mixture of two outputs has the text of a colour in range exactly if both are clean and the
part of the way is a number. -/
theorem isText_mix_iff {next : Option String} {t distance : Float}
    (ht : distance.isFinite = true ∧ t.isFinite = true ∧ 0 ≤ Binary64.value t ∧
        Binary64.value t ≤ 1 ∨ distance.isFinite = false ∧ t.isNaN = true) :
    IsText (((output.bind ofText?).getD transparent).mix
        ((next.bind ofText?).getD transparent) t).display ↔
      IsClean output ∧ IsClean next ∧ distance.isFinite = true := by
  by_cases hclean : IsClean output
  · by_cases hnext : IsClean next
    · rcases ht with ⟨hdistance, ht, hlow, hhigh⟩ | ⟨hdistance, hnan⟩
      · refine iff_of_true (isText_display ?_) ⟨hclean, hnext, hdistance⟩
        exact (inRange_of_isClean hclean).mix (inRange_of_isClean hnext) ht hlow hhigh
      · refine iff_of_false (not_isText_display (hasNaN_mix (.inr (.inr hnan)))) fun h => ?_
        exact absurd (hdistance.symm.trans h.2.2) (by decide)
    · refine iff_of_false (not_isText_display (hasNaN_mix (.inr (.inl ?_)))) fun h => hnext h.2.1
      exact hasNaN_of_not_isClean hnext
  · refine iff_of_false (not_isText_display (hasNaN_mix (.inl ?_))) fun h => hclean h.1
    exact hasNaN_of_not_isClean hclean

/-! ### Interpolations -/

/-- An interpolation of numbers only: the outputs that it picks or mixes are clean, and between two
breakpoints the distance from the lower one is finite. -/
def InterpolatesCleanly (x : Float) (breakpoints : List Float) (outputs : List String) : Prop :=
  match Segment.locate x (breakpoints.take (min breakpoints.length outputs.length)) with
  | .empty => True
  | .endpoint i => IsClean outputs[i]?
  | .between i _ =>
    IsClean outputs[i]? ∧ IsClean outputs[i + 1]? ∧
      ∀ low, breakpoints[i]? = some low → (x - low).isFinite = true

variable {breakpoints : List Float} {outputs : List String} {x : Float}

theorem getElem?_of_take {count i : Nat} {b : Float}
    (h : (breakpoints.take count)[i]? = some b) : breakpoints[i]? = some b := by
  rw [List.getElem?_take] at h
  split at h
  · exact h
  · cases h

/-- An interpolation between finite breakpoints has the text of a colour in range exactly if it has
numbers only. -/
theorem isText_interpolateColor_iff (hfinite : ∀ b ∈ breakpoints, b.isFinite = true) :
    IsText (interpolateColor x breakpoints outputs).display ↔
      InterpolatesCleanly x breakpoints outputs := by
  unfold interpolateColor InterpolatesCleanly
  dsimp only
  cases hlocate : Segment.locate x (breakpoints.take (min breakpoints.length outputs.length)) with
  | empty => exact iff_of_true (isText_display inRange_transparent.nearlyInRange) trivial
  | endpoint i =>
      by_cases hclean : IsClean outputs[i]?
      · exact iff_of_true (isText_display (inRange_of_isClean hclean).nearlyInRange) hclean
      · exact iff_of_false (not_isText_display (hasNaN_of_not_isClean hclean)) hclean
  | between i t =>
      obtain ⟨low, high, henc⟩ := Segment.encloses_of_locate hlocate
      have hlow := getElem?_of_take henc.atLow
      have hcases := Segment.part_cases (hfinite low (List.mem_of_getElem? hlow))
        (hfinite high (List.mem_of_getElem? (getElem?_of_take henc.atHigh))) henc.le henc.ge henc.ne
      rw [← henc.part] at hcases
      have hdistance : (∀ b, breakpoints[i]? = some b → (x - b).isFinite = true) ↔
          (x - low).isFinite = true := by
        rw [hlow]
        exact ⟨fun h => h low rfl, fun h b hb => Option.some.inj hb ▸ h⟩
      dsimp only
      rw [hdistance]
      exact isText_mix_iff hcases

/-- Colours that are read, and the texts of interpolations between finite breakpoints, are in range
exactly as far as the word for what is no number is not written, and no distance overflows. -/
theorem inRange_and_isText_iff (s : String) (cells : CellStore) (params : Params) (input : Expr)
    (breakpoints : List Float) (outputs : List String) :
    (∀ c, ofText? s = some c → (c.InRange ↔ ¬ WritesNaN s)) ∧
    ((∀ b ∈ breakpoints, b.isFinite = true) →
      ∃ text, (Expr.interpolateColor input breakpoints outputs).eval cells params = .text text ∧
        (IsText text ↔
          InterpolatesCleanly (input.evalNumber cells params) breakpoints outputs)) := by
  refine ⟨fun c h => inRange_iff h, fun hfinite => ⟨_, ?_, isText_interpolateColor_iff hfinite⟩⟩
  rw [Expr.eval, Expr.evalNumber]

/-- An interpolation from black to white over a span that overflows. -/
def wideGrey (x : Float) : Expr :=
  .interpolateColor (.literal (.number x)) [-1.5e308, 1.5e308] ["#000", "#fff"]

theorem isFinite_wideGrey : ∀ b ∈ [(-1.5e308 : Float), 1.5e308], b.isFinite = true := by
  rw [List.forall_mem_cons, List.forall_mem_singleton]
  exact ⟨by decide +kernel, by decide +kernel⟩

theorem inRange_and_isText_wideGrey :
    ofText? "rgb(1, 2, 3)" = some ⟨1, 2, 3, 1⟩ ∧
      ((⟨1, 2, 3, 1⟩ : Color).InRange ↔ ¬ WritesNaN "rgb(1, 2, 3)") ∧
      (∀ b ∈ [(-1.5e308 : Float), 1.5e308], b.isFinite = true) ∧
      ∃ text, (wideGrey 0).eval (.new "scene") ∅ = .text text ∧
        (IsText text ↔ InterpolatesCleanly ((Expr.literal (.number 0)).evalNumber (.new "scene") ∅)
          [-1.5e308, 1.5e308] ["#000", "#fff"]) :=
  have hread : ofText? "rgb(1, 2, 3)" = some ⟨1, 2, 3, 1⟩ := by decide +kernel
  have hboth := inRange_and_isText_iff "rgb(1, 2, 3)" (.new "scene") ∅ (.literal (.number 0))
    [-1.5e308, 1.5e308] ["#000", "#fff"]
  ⟨hread, hboth.1 _ hread, isFinite_wideGrey, hboth.2 isFinite_wideGrey⟩

/-- A colour is read from the word for what is no number. At three quarters of the span no channel
is a number, though both breakpoints are finite. -/
theorem nan_in_colours :
    (∃ c, ofText? "rgb(nan, 0, 0)" = some c ∧ ¬ c.InRange ∧ c.display = "rgba(NaN, 0, 0, 1)") ∧
      (∀ b ∈ [(-1.5e308 : Float), 1.5e308], b.isFinite = true) ∧
      (wideGrey 7.5e307).eval (.new "scene") ∅ = .text "rgba(NaN, NaN, NaN, NaN)" ∧
      ¬ IsText "rgba(NaN, NaN, NaN, NaN)" := by
  refine ⟨?_, isFinite_wideGrey, by decide +kernel, fun h => notMem_of_isText h (by decide)⟩
  have hread : ofText? "rgb(nan, 0, 0)" = some ⟨Binary64.nan, 0, 0, 1⟩ := by decide +kernel
  refine ⟨_, hread, fun hin => ?_, by decide +kernel⟩
  exact absurd hin.red.1 (Binary64.not_le_of_isNaN (by decide +kernel) 0)

end Color

end LiveScene
