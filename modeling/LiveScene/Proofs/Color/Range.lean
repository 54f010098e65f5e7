import LiveScene.Color
import LiveScene.Proofs.Decimal.Text
import LiveScene.Proofs.Text

/-!
# LiveScene.Proofs.Color.Range

Which colours are in range.

* Digits in base sixteen write colours that are in range (`inRange_ofHexDigits?`).
* Numbers between commas are moved into the ranges of their channels. This leaves what is no
  number as it is (`inRange_clamped_iff`), and such a number is read from its word only. So a
  colour that is read is in range exactly if its text has no such word (`inRange_iff`).
-/

namespace LiveScene.Color

open Binary64 (IsNaNText isFinite_zero isFinite_one)

/-- Channels from 0 to 255, and an opacity from 0 to 1. -/
structure InRange (c : Color) : Prop where
  red : 0 ≤ c.red ∧ c.red ≤ 255
  green : 0 ≤ c.green ∧ c.green ≤ 255
  blue : 0 ≤ c.blue ∧ c.blue ≤ 255
  alpha : 0 ≤ c.alpha ∧ c.alpha ≤ 1

/-- A colour with a channel or an opacity that is no number. -/
def HasNaN (c : Color) : Prop :=
  c.red.isNaN = true ∨ c.green.isNaN = true ∨ c.blue.isNaN = true ∨ c.alpha.isNaN = true

/-- A colour text that has the word for what is no number among its numbers. -/
def WritesNaN (s : String) : Prop :=
  (ofText? s).isSome = true ∧ ∃ body,
    (Text.trim s.toList = "rgb(".toList ++ body ++ [')'] ∨
      Text.trim s.toList = "rgba(".toList ++ body ++ [')']) ∧
    ∃ part ∈ Text.splitAt ',' body, IsNaNText (Text.trim part)

/-! ### Bounds -/

theorem isFinite_255 : (255 : Float).isFinite = true := by rfl

theorem value_255 : Binary64.value 255 = 255 := by
  have hparts : Binary64.parts 255 = .finite .positive (255 * 2 ^ 45) (-45) (by decide) := by rfl
  rw [Binary64.value_of_parts hparts, Binary64.exact_positive]
  norm_num

/-- Zero to a bound, as fractions. -/
theorem between_iff_value {x top : Float} (hx : x.isFinite = true) (htop : top.isFinite = true) :
    0 ≤ x ∧ x ≤ top ↔ 0 ≤ Binary64.value x ∧ Binary64.value x ≤ Binary64.value top := by
  rw [Binary64.le_iff_value isFinite_zero hx, Binary64.le_iff_value hx htop, Binary64.value_zero]

theorem zero_le_255 : (0 : Float) ≤ 255 := by
  rw [Binary64.le_iff_value isFinite_zero isFinite_255, Binary64.value_zero, value_255]
  norm_num

theorem zero_le_one : (0 : Float) ≤ 1 := by
  rw [Binary64.le_iff_value isFinite_zero isFinite_one, Binary64.value_zero, Binary64.value_one]
  norm_num

/-- Numbers are moved into range, and what is no number is not. -/
theorem inRange_clamped_iff (red green blue alpha : Float) :
    (clamped red green blue alpha).InRange ↔
      ∀ x ∈ [red, green, blue, alpha], x.isNaN = false := by
  have hchannel := fun x =>
    Binary64.clamp_between_iff (x := x) isFinite_zero isFinite_255 zero_le_255
  have hopacity := fun x =>
    Binary64.clamp_between_iff (x := x) isFinite_zero isFinite_one zero_le_one
  simp only [List.forall_mem_cons, List.not_mem_nil, false_imp_iff, implies_true, and_true]
  constructor
  · intro h
    exact ⟨(hchannel red).mp h.red, (hchannel green).mp h.green, (hchannel blue).mp h.blue,
      (hopacity alpha).mp h.alpha⟩
  · rintro ⟨hred, hgreen, hblue, halpha⟩
    exact ⟨(hchannel red).mpr hred, (hchannel green).mpr hgreen, (hchannel blue).mpr hblue,
      (hopacity alpha).mpr halpha⟩

theorem inRange_transparent : transparent.InRange :=
  have hzero : (0 : Float) ≤ 0 := Binary64.le_self_of_isFinite isFinite_zero
  ⟨⟨hzero, zero_le_255⟩, ⟨hzero, zero_le_255⟩, ⟨hzero, zero_le_255⟩, ⟨hzero, zero_le_one⟩⟩

/-! ### Digits -/

theorem hexValue?_lt {c : Char} {n : Nat} (h : hexValue? c = some n) : n < 16 := by
  unfold hexValue? at h
  split at h
  · next hdigit =>
      rw [Char.isDigit, Bool.and_eq_true, decide_eq_true_eq, decide_eq_true_eq] at hdigit
      have hle : c.toNat ≤ 57 := UInt32.le_iff_toNat_le.mp hdigit.2
      have hzero : '0'.toNat = 48 := rfl
      have heq := Option.some.inj h
      omega
  · split at h
    · next hlower =>
        have hle : c.toNat ≤ 102 := UInt32.le_iff_toNat_le.mp hlower.2
        have ha : 'a'.toNat = 97 := rfl
        have heq := Option.some.inj h
        omega
    · split at h
      · next hupper =>
          have hle : c.toNat ≤ 70 := UInt32.le_iff_toNat_le.mp hupper.2
          have ha : 'A'.toNat = 65 := rfl
          have heq := Option.some.inj h
          omega
      · exact absurd h (by simp)

theorem lt_of_mem_mapM_hexValue? {digits : List Char} {values : List Nat}
    (h : digits.mapM hexValue? = some values) : ∀ n ∈ values, n < 16 := by
  induction digits generalizing values with
  | nil =>
      rw [List.mapM_nil] at h
      rw [← Option.some.inj h]
      exact fun n hn => absurd hn List.not_mem_nil
  | cons c r ih =>
      rw [List.mapM_cons] at h
      obtain ⟨n, hn, hrest⟩ := Option.bind_eq_some_iff.mp h
      obtain ⟨values', hvalues, heq⟩ := Option.bind_eq_some_iff.mp hrest
      rw [← Option.some.inj heq, List.forall_mem_cons]
      exact ⟨hexValue?_lt hn, ih hvalues⟩

variable {high low : Nat}

theorem value_channel (hhigh : high < 16) (hlow : low < 16) :
    (channel high low).isFinite = true ∧
      Binary64.value (channel high low) = (16 * high + low : ℕ) :=
  Binary64.value_ofInt (by omega)

theorem channel_between (hhigh : high < 16) (hlow : low < 16) :
    0 ≤ channel high low ∧ channel high low ≤ 255 := by
  obtain ⟨hfinite, hvalue⟩ := value_channel hhigh hlow
  rw [between_iff_value hfinite isFinite_255, hvalue, value_255]
  exact ⟨Nat.cast_nonneg _, by exact_mod_cast (by omega : 16 * high + low ≤ 255)⟩

theorem opacity_between (hhigh : high < 16) (hlow : low < 16) :
    0 ≤ channel high low / 255 ∧ channel high low / 255 ≤ 1 := by
  obtain ⟨hfinite, hvalue⟩ := value_channel hhigh hlow
  have hrounds := Binary64.rounds_div hfinite isFinite_255 (by rw [value_255]; norm_num)
  have hle : ((16 * high + low : ℕ) : ℚ) ≤ 255 := by
    exact_mod_cast (by omega : 16 * high + low ≤ 255)
  rw [hvalue, value_255] at hrounds
  obtain ⟨hquotient, hbounds⟩ := hrounds.finite_of_between isFinite_zero isFinite_one
    (by rw [Binary64.value_zero]; positivity)
    (by rw [Binary64.value_one]; linarith)
  rw [Binary64.value_zero] at hbounds
  exact (between_iff_value hquotient isFinite_one).mpr hbounds

/-- Digits write colours in range. -/
theorem inRange_ofHexDigits? {values : List Nat} {c : Color} (hvalues : ∀ n ∈ values, n < 16)
    (h : ofHexDigits? values = some c) : c.InRange := by
  have hone : (0 : Float) ≤ 1 ∧ (1 : Float) ≤ 1 :=
    ⟨zero_le_one, Binary64.le_self_of_isFinite isFinite_one⟩
  unfold ofHexDigits? at h
  split at h
  · simp only [List.forall_mem_cons] at hvalues
    obtain ⟨hr, hg, hb, -⟩ := hvalues
    rw [← Option.some.inj h]
    exact ⟨channel_between hr hr, channel_between hg hg, channel_between hb hb, hone⟩
  · simp only [List.forall_mem_cons] at hvalues
    obtain ⟨hr, hr', hg, hg', hb, hb', -⟩ := hvalues
    rw [← Option.some.inj h]
    exact ⟨channel_between hr hr', channel_between hg hg', channel_between hb hb', hone⟩
  · simp only [List.forall_mem_cons] at hvalues
    obtain ⟨hr, hr', hg, hg', hb, hb', ha, ha', -⟩ := hvalues
    rw [← Option.some.inj h]
    exact ⟨channel_between hr hr', channel_between hg hg', channel_between hb hb',
      opacity_between ha ha'⟩
  · exact absurd h (by simp)

/-! ### Numbers between commas -/

theorem exists_isNaN_iff {parts : List (List Char)} {xs : List Float}
    (h : parts.mapM (fun part => Binary64.ofText? (Text.trim part)) = some xs) :
    (∃ x ∈ xs, x.isNaN = true) ↔ ∃ part ∈ parts, IsNaNText (Text.trim part) := by
  induction parts generalizing xs with
  | nil =>
      rw [List.mapM_nil] at h
      rw [← Option.some.inj h]
      simp
  | cons part r ih =>
      rw [List.mapM_cons] at h
      obtain ⟨x, hx, hrest⟩ := Option.bind_eq_some_iff.mp h
      obtain ⟨xs', hxs, heq⟩ := Option.bind_eq_some_iff.mp hrest
      rw [← Option.some.inj heq, List.exists_mem_cons_iff, List.exists_mem_cons_iff,
        Binary64.isNaN_of_ofText? hx, ih hxs]

variable {cs body : List Char} {s : String} {c : Color}

/-- What a colour is read from. -/
theorem ofChars?_cases (h : ofChars? cs = some c) :
    (∃ digits, Text.trim cs = '#' :: digits ∧
      (digits.mapM hexValue?).bind ofHexDigits? = some c) ∨
    ∃ body red green blue alpha xs, c = clamped red green blue alpha ∧ numbers? body = some xs ∧
      (Text.trim cs = "rgba(".toList ++ body ++ [')'] ∧ xs = [red, green, blue, alpha] ∨
        Text.trim cs = "rgb(".toList ++ body ++ [')'] ∧ xs = [red, green, blue] ∧ alpha = 1) := by
  unfold ofChars? at h
  split at h
  · next digits hdigits => exact .inl ⟨digits, hdigits, h⟩
  · split at h
    · next rest hrest =>
        split at h
        · next r g b a hnumbers =>
            obtain ⟨body, hbody, hxs⟩ := Option.bind_eq_some_iff.mp hnumbers
            rw [Text.after?_eq_some_iff] at hrest
            rw [beforeClose?, Text.before?_eq_some_iff] at hbody
            refine .inr ⟨body, r, g, b, a, _, (Option.some.inj h).symm, hxs, .inl ⟨?_, rfl⟩⟩
            rw [hrest, hbody, List.append_assoc]
        · exact absurd h (by simp)
    · split at h
      · next r g b hnumbers =>
          obtain ⟨rest, hrest, hclose⟩ := Option.bind_eq_some_iff.mp hnumbers
          obtain ⟨body, hbody, hxs⟩ := Option.bind_eq_some_iff.mp hclose
          rw [Text.after?_eq_some_iff] at hrest
          rw [beforeClose?, Text.before?_eq_some_iff] at hbody
          refine .inr ⟨body, r, g, b, 1, _, (Option.some.inj h).symm, hxs, .inr ⟨?_, rfl, rfl⟩⟩
          rw [hrest, hbody, List.append_assoc]
      · exact absurd h (by simp)

/-- A text in parentheses has one body. -/
theorem writesNaN_iff (hsome : (ofText? s).isSome = true)
    (h : Text.trim s.toList = "rgb(".toList ++ body ++ [')'] ∨
      Text.trim s.toList = "rgba(".toList ++ body ++ [')']) :
    WritesNaN s ↔ ∃ part ∈ Text.splitAt ',' body, IsNaNText (Text.trim part) := by
  refine ⟨?_, fun hpart => ⟨hsome, body, h, hpart⟩⟩
  rintro ⟨-, body', h', hpart⟩
  suffices heq : body' = body by rwa [← heq]
  have hcancel : ∀ {front : List Char}, front ++ body' ++ [')'] = front ++ body ++ [')'] →
      body' = body := fun heq => List.append_cancel_left (List.append_cancel_right heq)
  rcases h with h | h <;> rcases h' with h' | h' <;> rw [h] at h'
  · exact hcancel h'.symm
  · exact absurd h' (by simp)
  · exact absurd h' (by simp)
  · exact hcancel h'.symm

/-- A colour that is read is in range unless its text has the word for what is no number. -/
theorem inRange_iff (h : ofText? s = some c) : c.InRange ↔ ¬ WritesNaN s := by
  have hsome : (ofText? s).isSome = true := by rw [h]; rfl
  rcases ofChars?_cases h with ⟨digits, htrim, hdigits⟩ |
    ⟨body, red, green, blue, alpha, xs, rfl, hxs, htext⟩
  · obtain ⟨values, hvalues, hc⟩ := Option.bind_eq_some_iff.mp hdigits
    refine iff_of_true (inRange_ofHexDigits? (lt_of_mem_mapM_hexValue? hvalues) hc) ?_
    rintro ⟨-, body, hbody | hbody, -⟩ <;> exact absurd (htrim.symm.trans hbody) (by simp)
  · have hbody : Text.trim s.toList = "rgb(".toList ++ body ++ [')'] ∨
        Text.trim s.toList = "rgba(".toList ++ body ++ [')'] :=
      htext.elim (fun h => .inr h.1) (fun h => .inl h.1)
    have hone : (1 : Float).isNaN = false := by rfl
    have hnumbers : (∀ x ∈ [red, green, blue, alpha], x.isNaN = false) ↔
        ∀ x ∈ xs, x.isNaN = false := by
      rcases htext with ⟨-, rfl⟩ | ⟨-, rfl, rfl⟩
      · exact Iff.rfl
      · simp only [List.forall_mem_cons, hone, List.not_mem_nil, false_imp_iff, implies_true,
          and_true]
    rw [writesNaN_iff hsome hbody, ← exists_isNaN_iff hxs, inRange_clamped_iff, hnumbers]
    push Not
    exact forall₂_congr fun x _ => (Bool.not_eq_true _).symm.to_iff

/-- The word for what is no number stays in the colour. -/
theorem hasNaN_of_writesNaN (h : ofText? s = some c) (hnan : WritesNaN s) : c.HasNaN := by
  have hout : ¬ c.InRange := fun hin => (inRange_iff h).mp hin hnan
  rcases ofChars?_cases h with ⟨digits, -, hdigits⟩ | ⟨body, red, green, blue, alpha, xs, rfl, -⟩
  · obtain ⟨values, hvalues, hc⟩ := Option.bind_eq_some_iff.mp hdigits
    exact absurd (inRange_ofHexDigits? (lt_of_mem_mapM_hexValue? hvalues) hc) hout
  · rw [inRange_clamped_iff] at hout
    push Not at hout
    obtain ⟨x, hmem, hne⟩ := hout
    have hx : x.isNaN = true := (Bool.not_eq_false _).mp hne
    have hself := Binary64.clamp_of_isNaN hx
    simp only [List.mem_cons, List.not_mem_nil, or_false] at hmem
    rw [HasNaN, clamped]
    rcases hmem with rfl | rfl | rfl | rfl <;> simp only [hself, hx, true_or, or_true]

end LiveScene.Color
