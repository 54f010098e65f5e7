import LiveScene.Proofs.Color.Mix

/-!
# LiveScene.Proofs.Color.Display

The texts of colours.

* The text of a colour that is hardly out of range has whole channels from 0 to 255 and an opacity
  from zero to one (`isText_display`). A channel that is no number shows in the text
  (`not_isText_display`).
-/

namespace LiveScene.Color

open Binary64 (value plainText isFinite_zero isFinite_one)

/-! ### Texts -/

/-- The text of a whole channel, or of minus zero. -/
def IsChannelText (t : String) : Prop := (∃ n : ℕ, n ≤ 255 ∧ t = toString n) ∨ t = "-0"

/-- The text of an opacity. -/
def IsOpacityText (t : String) : Prop := ∃ x : Float, 0 ≤ x ∧ x ≤ 1 ∧ t = plainText x

/-- The text of a colour in range. -/
def IsText (t : String) : Prop :=
  ∃ red green blue alpha, IsChannelText red ∧ IsChannelText green ∧ IsChannelText blue ∧
    IsOpacityText alpha ∧
      t = "rgba(" ++ red ++ ", " ++ green ++ ", " ++ blue ++ ", " ++ alpha ++ ")"

set_option maxRecDepth 100000 in
theorem plainText_ofInt : ∀ n < 256, plainText (Binary64.ofInt (n : ℕ)) = toString n := by
  decide +kernel

variable {x : Float} {c : Color} {t : String}

theorem isChannelText_round (h : NearRange 255 x) :
    IsChannelText (plainText (Binary64.round x)) := by
  obtain ⟨hx, hlow, hhigh⟩ := h
  rcases Binary64.round_between 255 (by decide) hx (by linarith) (by linarith) with
    ⟨n, hn, hround⟩ | hround
  · rw [hround]
    exact .inl ⟨n, hn, plainText_ofInt n (by omega)⟩
  · rw [hround]
    exact .inr (by decide +kernel)

theorem isFinite_1000 : (1000 : Float).isFinite = true := by rfl

theorem value_1000 : value 1000 = 1000 := by
  have hparts : Binary64.parts 1000 = .finite .positive (1000 * 2 ^ 43) (-43) (by decide) := by rfl
  rw [Binary64.value_of_parts hparts, Binary64.exact_positive]
  norm_num

/-- An opacity is rounded to a number of thousandths. -/
theorem round_thousandfold (h : NearRange 1 x) :
    (Binary64.round (x * 1000)).isFinite = true ∧ 0 ≤ value (Binary64.round (x * 1000)) ∧
      value (Binary64.round (x * 1000)) ≤ 1000 := by
  obtain ⟨hx, hlow, hhigh⟩ := h
  rw [Nat.cast_one] at hhigh
  have hrounds := Binary64.rounds_mul hx isFinite_1000
  rw [value_1000] at hrounds
  have hleast := Binary64.closest_of_digits (m := -1) (e := -2) (by norm_num) (by norm_num)
  have hgreatest := Binary64.closest_of_digits (m := 4001) (e := -2) (by norm_num) (by norm_num)
  have hlimit : (2000 : ℚ) < Binary64.limit :=
    calc (2000 : ℚ) < 2 ^ (11 : ℤ) := by norm_num
      _ < Binary64.limit := zpow_lt_zpow_right₀ (by norm_num) (by norm_num)
  norm_num at hleast hgreatest
  obtain ⟨hfinite, hbelow, habove⟩ := hrounds.between hleast hgreatest (by linarith) (by linarith)
    (by linarith) (by linarith)
  rcases Binary64.round_between 1000 (by decide) hfinite (by linarith)
    (by push_cast; linarith) with ⟨n, hn, hround⟩ | hround
  · obtain ⟨hofInt, hvalue⟩ := Binary64.value_ofInt (n := n) (by omega)
    rw [hround, hvalue]
    exact ⟨hofInt, Nat.cast_nonneg n, by exact_mod_cast hn⟩
  · have hzero : Binary64.parts (Binary64.signed true 0) = .zero .negative := by rfl
    rw [hround, Binary64.value_of_zero hzero, Binary64.isFinite_eq, hzero]
    exact ⟨rfl, le_rfl, by norm_num⟩

theorem isOpacityText_round (h : NearRange 1 x) :
    IsOpacityText (plainText (Binary64.round (x * 1000) / 1000)) := by
  obtain ⟨hfinite, hlow, hhigh⟩ := round_thousandfold h
  have hrounds := Binary64.rounds_div hfinite isFinite_1000 (by rw [value_1000]; norm_num)
  rw [value_1000] at hrounds
  obtain ⟨hquotient, hbounds⟩ := hrounds.finite_of_between isFinite_zero isFinite_one
    (by rw [Binary64.value_zero]; positivity)
    (by rw [Binary64.value_one]; linarith)
  rw [Binary64.value_zero] at hbounds
  obtain ⟨hzero, hone⟩ := (between_iff_value hquotient isFinite_one).mpr hbounds
  exact ⟨_, hzero, hone, rfl⟩

/-- The text of a colour that is hardly out of range is that of a colour in range. -/
theorem isText_display (h : c.NearlyInRange) : IsText c.display :=
  ⟨_, _, _, _, isChannelText_round h.red, isChannelText_round h.green, isChannelText_round h.blue,
    isOpacityText_round h.alpha, rfl⟩

/-! ### No number in a text -/

theorem notMem_of_isChannelText (h : IsChannelText t) : 'N' ∉ t.toList := by
  rcases h with ⟨n, -, rfl⟩ | rfl
  · intro hmem
    rw [show (toString n).toList = Nat.toDigits 10 n from Nat.toList_repr] at hmem
    exact absurd (Nat.isDigit_of_mem_toDigits (by decide) (by decide) hmem) (by decide)
  · decide

theorem notMem_of_isOpacityText (h : IsOpacityText t) : 'N' ∉ t.toList := by
  obtain ⟨x, hlow, hhigh, rfl⟩ := h
  exact Binary64.notMem_plainText
    (Binary64.isFinite_of_between isFinite_zero isFinite_one hlow hhigh)

theorem notMem_of_isText (h : IsText t) : 'N' ∉ t.toList := by
  obtain ⟨red, green, blue, alpha, hred, hgreen, hblue, halpha, rfl⟩ := h
  have hred := notMem_of_isChannelText hred
  have hgreen := notMem_of_isChannelText hgreen
  have hblue := notMem_of_isChannelText hblue
  have halpha := notMem_of_isOpacityText halpha
  simp [hred, hgreen, hblue, halpha]

/-- A channel that is no number is written as it is. -/
theorem plainText_round_of_isNaN (h : x.isNaN = true) : plainText (Binary64.round x) = "NaN" := by
  rw [Binary64.round_of_not_isFinite (Binary64.isFinite_of_isNaN h), plainText, if_pos h]

theorem plainText_opacity_of_isNaN (h : x.isNaN = true) :
    plainText (Binary64.round (x * 1000) / 1000) = "NaN" := by
  have hproduct : (x * 1000).isNaN = true := Binary64.isNaN_mul_of (.inl h)
  rw [Binary64.round_of_not_isFinite (Binary64.isFinite_of_isNaN hproduct), plainText,
    if_pos (Binary64.isNaN_div_of (.inl hproduct))]

theorem not_isText_display (h : c.HasNaN) : ¬ IsText c.display := by
  intro htext
  refine notMem_of_isText htext ?_
  rw [display]
  rcases h with h | h | h | h
  · rw [plainText_round_of_isNaN h]
    simp
  · rw [plainText_round_of_isNaN h]
    simp
  · rw [plainText_round_of_isNaN h]
    simp
  · rw [plainText_opacity_of_isNaN h]
    simp

end LiveScene.Color
