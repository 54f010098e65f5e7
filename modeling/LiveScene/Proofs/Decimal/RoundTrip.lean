import LiveScene.Proofs.Binary64.Rank
import LiveScene.Proofs.Decimal.Positional
import LiveScene.Proofs.Expr.Number
import LiveScene.Proofs.Text

/-!
# LiveScene.Proofs.Decimal.RoundTrip

Numbers are read from their plain texts.

A double is its sign and its magnitude (`signed_magnitude`), and its text is written from the two:
the sign is read back from the first character, also before a zero, and the magnitude from the
shortest decimal (`ofText?_finiteText`) or from the word for infinity. There is no blank in the
text, so trimming takes nothing away, and the number is read back (`ofText?_plainText`) whenever
it is one.
-/

namespace LiveScene

namespace Binary64

variable {x : Float}

/-! ### Sign and magnitude -/

/-- A double is its sign and its magnitude. -/
theorem signed_magnitude (x : Float) : signed (isNegative x) (magnitude x) = x := by
  have hbelow : magnitude x < 1 <<< 63 := Nat.mod_lt _ (by decide)
  exact parts_inj ((parts_signed _ hbelow).trans (parts_eq x).symm)

open Float.Model.UnpackedFloat (Sign) in
theorem sign_of_ofFields {s t : Sign} {exponent : BitVec 11} {mantissa : BitVec 52}
    (h : ofFields s exponent mantissa = .infinity t) : s = t := by
  unfold ofFields at h
  split at h
  · split at h
    · injection h
    · cases h
  · split at h
    · split at h <;> cases h
    · cases h

/-- An infinite double has the magnitude of infinity. -/
theorem signed_infinity (hx : x.isNaN = false) (hinfinite : x.isFinite = false) :
    signed (isNegative x) infinity = x := by
  rcases number_cases hx with hfinite | ⟨s, hs⟩
  · rw [hfinite] at hinfinite
    exact absurd hinfinite (by decide)
  · have hsign : signOf (isNegative x) = s := sign_of_ofFields ((parts_eq x).symm.trans hs)
    refine parts_inj ?_
    rw [parts_signed _ (by decide), ofMagnitude_infinity, hsign, hs]

/-! ### Reading what was written -/

/-- The sign of a decimal is read from the first character. -/
theorem ofText?_sign {cs : List Char} {d : Decimal} (h : Decimal.ofText? cs = some d)
    (negative : Bool) :
    ofText? ((if negative then ['-'] else []) ++ cs) = some (signed negative d.nearest) := by
  have hunsigned : unsignedText? negative cs = some (signed negative d.nearest) := by
    rw [unsignedText?, h]
  have hnone : ∀ {c : Char} {r : List Char}, c = '-' ∨ c = '+' → cs ≠ c :: r := by
    rintro c r hc rfl
    have hdecimal : Decimal.ofText? (c :: r) = none := by
      rcases hc with rfl | rfl <;> exact Decimal.ofText?_cons_eq_none (by decide) (by decide) r
    rw [hdecimal] at h
    cases h
  cases negative with
  | true => exact hunsigned
  | false =>
      rw [if_neg (by decide), List.nil_append]
      unfold ofText?
      split
      · exact absurd rfl (hnone (.inl rfl))
      · exact absurd rfl (hnone (.inr rfl))
      · exact hunsigned

/-- A finite double is read from its text. -/
theorem ofText?_finiteText (h : x.isFinite = true) : ofText? (finiteText plain x) = some x := by
  rw [finiteText]
  split
  · next hzero =>
      have hread : Decimal.ofText? ('0' :: plain.wholeEnd) = some ⟨0, 0⟩ := by rfl
      have hnearest : (⟨0, 0⟩ : Decimal).nearest = magnitude x := hzero.symm
      rw [ofText?_sign hread, hnearest, signed_magnitude]
  · next hpos =>
      have hshortest := Decimal.nearest_shortest plain.tie (magnitude_lt_infinity h)
      have hne : (Decimal.shortest plain.tie (magnitude x)).coefficient ≠ 0 := by
        intro hzero
        rw [Decimal.nearest, if_pos hzero] at hshortest
        exact hpos hshortest.symm
      obtain ⟨d, hread, hnearest⟩ := Decimal.ofText?_text_plain hne
      rw [ofText?_sign hread, hnearest, hshortest, signed_magnitude]

/-- There is no blank in the text of a finite double. -/
theorem trim_finiteText (x : Float) : Text.trim (finiteText plain x) = finiteText plain x := by
  refine Text.trim_eq_self fun c hc => ?_
  rcases mem_finiteText_plain hc with hdigit | rfl | rfl
  · exact Text.isBlank_of_isDigit hdigit
  · decide
  · decide

/-- A number is read from its plain text. -/
theorem ofText?_plainText (h : x.isNaN = false) :
    ofText? (Text.trim (plainText x).toList) = some x := by
  rw [plainText, if_neg (by rw [h]; decide)]
  split
  · next hfinite =>
      rw [String.toList_ofList, trim_finiteText, ofText?_finiteText hfinite]
  · next hinfinite =>
      have heq := signed_infinity h (Bool.eq_false_iff.mpr hinfinite)
      split
      · next hnegative =>
          rw [hnegative] at heq
          rw [← heq]
          rfl
      · next hpositive =>
          rw [Bool.eq_false_iff.mpr hpositive] at heq
          rw [← heq]
          rfl

end Binary64

/-- Reading a number from its text gives the number. -/
theorem Value.toNumber_text_plainText {x : Float} (h : x.isNaN = false) :
    (text (Binary64.plainText x)).toNumber = x := by
  rw [toNumber, numberOfText, Binary64.ofText?_plainText h, Option.getD_some,
    Binary64.orZero_of_isNaN h]

end LiveScene
