import LiveScene.Proofs.Binary64.Magnitude
import LiveScene.Proofs.Binary64.Rank

/-!
# LiveScene.Proofs.Binary64.Neighbour

The double before another one.

Magnitudes stand for fractions in their own order (`strictMono_ofMagnitude`), that of infinity for
the limit. So the double before a finite one has the magnitude before, or after if it is not
positive (`before`), and what is less than the one is not above the other (`le_before`).
-/

namespace LiveScene.Binary64

/-- The greatest of the doubles that are less than a finite one. -/
def before (x : Float) : Float :=
  if 0 < x then signed false (magnitude x - 1) else signed true (magnitude x + 1)

/-! ### The order of magnitudes -/

/-- A magnitude by its row and its significand, where the next one is of the same row. -/
theorem exists_row (bits : ℕ) :
    ∃ row significand, bits = (row <<< 52) + significand ∧ significand < 2 ^ 53 ∧
      (2 ^ 52 ≤ significand ∨ row = 0) := by
  simp only [Nat.shiftLeft_eq]
  rcases lt_or_ge bits (2 ^ 52) with hlt | hge
  · exact ⟨0, bits, by omega, by omega, .inr rfl⟩
  · exact ⟨bits / 2 ^ 52 - 1, 2 ^ 52 + bits % 2 ^ 52, by omega, by omega, .inl (by omega)⟩

theorem toRat_ofMagnitude_lt_succ (bits : ℕ) :
    (Scaled.ofMagnitude bits).toRat < (Scaled.ofMagnitude (bits + 1)).toRat := by
  obtain ⟨row, significand, rfl, hlt, hfull⟩ := exists_row bits
  rw [add_assoc, toRat_ofMagnitude hlt.le hfull, toRat_ofMagnitude hlt (hfull.imp_left (by omega))]
  refine mul_lt_mul_of_pos_right ?_ (two_zpow_pos _)
  push_cast
  linarith

theorem strictMono_ofMagnitude : StrictMono fun bits => (Scaled.ofMagnitude bits).toRat :=
  strictMono_nat_of_lt_succ toRat_ofMagnitude_lt_succ

theorem toRat_ofMagnitude_infinity : (Scaled.ofMagnitude infinity).toRat = limit := by
  have hinfinity : infinity = (2046 <<< 52) + 2 ^ 52 := by decide
  rw [hinfinity, toRat_ofMagnitude (by decide) (.inl le_rfl), limit,
    show (1024 : ℤ) = 52 + ((2046 : ℕ) - 1074 : ℤ) by decide, two_zpow_add]
  norm_cast

variable {x b : Float}

/-- A double ranks as the fraction of its magnitude, also an infinity. -/
theorem rank_signed (negative : Bool) {bits : ℕ} (h : bits ≤ infinity) :
    rank (signed negative bits) = withSign (signOf negative) (Scaled.ofMagnitude bits).toRat := by
  have hinfinity : infinity < 1 <<< 63 := by decide
  have hparts := parts_signed negative (h.trans_lt hinfinity)
  rcases lt_or_eq_of_le h with hlt | rfl
  · obtain ⟨hfinite, hexact⟩ := ofMagnitude_of_lt (signOf negative) hlt
    rw [← hparts, ← isFinite_eq] at hfinite
    rw [rank_of_isFinite hfinite, value_of_parts hparts, hexact]
  · rw [ofMagnitude_infinity] at hparts
    rw [rank_of_infinity hparts, toRat_ofMagnitude_infinity]

theorem value_magnitude_cases (h : x.isFinite = true) :
    value x = (Scaled.ofMagnitude (magnitude x)).toRat ∨
      value x = -(Scaled.ofMagnitude (magnitude x)).toRat := by
  rw [value_eq_toRat h]
  cases signOf (isNegative x)
  · exact .inr (withSign_negative _)
  · exact .inl (withSign_positive _)

/-! ### The double before -/

/-- The double before has the magnitude before, or after if the double is not positive. -/
theorem before_cases (hb : b.isFinite = true) :
    (before b).isNaN = false ∧
      ((∃ n : ℕ, value b = (Scaled.ofMagnitude (n + 1)).toRat ∧
          rank (before b) = (Scaled.ofMagnitude n).toRat) ∨
        ∃ n : ℕ, value b = -(Scaled.ofMagnitude n).toRat ∧
          rank (before b) = -(Scaled.ofMagnitude (n + 1)).toRat) := by
  have hlt := magnitude_lt_infinity hb
  have hzero : (Scaled.ofMagnitude 0).toRat = 0 := by
    rw [Scaled.toRat, show (Scaled.ofMagnitude 0).significand = 0 by decide, Nat.cast_zero,
      zero_mul]
  have hcases := value_magnitude_cases hb
  have hsign := lt_iff_value isFinite_zero hb
  rw [value_zero] at hsign
  by_cases hpos : 0 < b
  · have hvalue : value b = (Scaled.ofMagnitude (magnitude b)).toRat := by
      refine hcases.resolve_right fun hneg => ?_
      have hnonneg := (Scaled.ofMagnitude (magnitude b)).toRat_nonneg
      linarith [hsign.mp hpos]
    obtain ⟨n, hn⟩ : ∃ n, magnitude b = n + 1 := by
      refine Nat.exists_eq_succ_of_ne_zero fun hnone => ?_
      rw [hvalue, hnone, hzero] at hsign
      exact absurd (hsign.mp hpos) (lt_irrefl 0)
    rw [hn] at hvalue hlt
    rw [before, if_pos hpos, hn, Nat.add_sub_cancel]
    refine ⟨isNaN_signed false (by omega), .inl ⟨n, hvalue, ?_⟩⟩
    rw [rank_signed false (by omega)]
    exact withSign_positive _
  · have hvalue : value b = -(Scaled.ofMagnitude (magnitude b)).toRat := by
      refine hcases.elim (fun heq => ?_) id
      have hnonneg := (Scaled.ofMagnitude (magnitude b)).toRat_nonneg
      have hnonpos := not_lt.mp (mt hsign.mpr hpos)
      linarith
    rw [before, if_neg hpos]
    refine ⟨isNaN_signed true hlt, .inr ⟨magnitude b, hvalue, ?_⟩⟩
    rw [rank_signed true hlt]
    exact withSign_negative _

theorem isNaN_before (hb : b.isFinite = true) : (before b).isNaN = false := (before_cases hb).1

theorem before_lt (hb : b.isFinite = true) : before b < b := by
  obtain ⟨hnan, hcases⟩ := before_cases hb
  rw [lt_iff_rank hnan (isNaN_of_isFinite hb), rank_of_isFinite hb]
  rcases hcases with ⟨n, hvalue, hrank⟩ | ⟨n, hvalue, hrank⟩
  · rw [hvalue, hrank]
    exact toRat_ofMagnitude_lt_succ n
  · rw [hvalue, hrank]
    exact neg_lt_neg (toRat_ofMagnitude_lt_succ n)

/-- No double is between a finite one and the one before. -/
theorem le_before (hx : x.isFinite = true) (hb : b.isFinite = true) (h : x < b) :
    x ≤ before b := by
  obtain ⟨hnan, hcases⟩ := before_cases hb
  have hmono := strictMono_ofMagnitude
  rw [lt_iff_value hx hb] at h
  rw [le_iff_rank (isNaN_of_isFinite hx) hnan, rank_of_isFinite hx]
  have hnonneg := (Scaled.ofMagnitude (magnitude x)).toRat_nonneg
  rcases hcases with ⟨n, hvalue, hrank⟩ | ⟨n, hvalue, hrank⟩
  · rw [hvalue] at h
    rw [hrank]
    rcases value_magnitude_cases hx with hx | hx
    · rw [hx] at h ⊢
      exact hmono.monotone (Nat.le_of_lt_succ (hmono.lt_iff_lt.mp h))
    · exact hx.trans_le ((neg_nonpos.mpr hnonneg).trans (Scaled.toRat_nonneg _))
  · rw [hvalue] at h
    rw [hrank]
    rcases value_magnitude_cases hx with hx | hx
    · have hbelow := (Scaled.ofMagnitude n).toRat_nonneg
      linarith
    · rw [hx] at h ⊢
      exact neg_le_neg (hmono.monotone (hmono.lt_iff_lt.mp (neg_lt_neg_iff.mp h)))

end LiveScene.Binary64
