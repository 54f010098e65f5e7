import LiveScene.Proofs.Decimal.Closest
import Mathlib.Data.List.DropRight

/-!
# LiveScene.Proofs.Decimal.Positional

What a positional text reads back as.

* A run of digits reads as a decimal, with a point or without (`ofText?_whole`,
  `ofText?_fraction`), and leading zeros do not count.
* So digits that are written with a point after the first few of them read back as the fraction
  that they write, whether zeros had to be put before them or after them (`ofText?_positional`).
* The digits of a decimal and its point write the fraction of the decimal, although the zeros at
  the end are not among them (`toRat_ofDigits`). So its plain text reads back as a decimal with
  the same closest double (`ofText?_text_plain`).
-/

namespace LiveScene

/-! ### The value of digits -/

theorem digitsValue_append (cs ds : List Char) :
    digitsValue (cs ++ ds) = 10 ^ ds.length * digitsValue cs + digitsValue ds :=
  (Nat.ofDigitChars_append 0).trans Nat.ofDigitChars_eq_ofDigitChars_zero

theorem digitsValue_toDigits (n : ℕ) : digitsValue (Nat.toDigits 10 n) = n :=
  Nat.ofDigitChars_toDigits (by decide) (by decide)

theorem digitsValue_zeros (n : ℕ) : digitsValue (List.replicate n '0') = 0 :=
  Nat.ofDigitChars_replicate_zero.trans (Nat.mul_zero _)

theorem digitsValue_zeros_append (n : ℕ) (cs : List Char) :
    digitsValue (List.replicate n '0' ++ cs) = digitsValue cs := by
  rw [digitsValue_append, digitsValue_zeros, Nat.mul_zero, Nat.zero_add]

theorem digitsValue_append_zeros (cs : List Char) (n : ℕ) :
    digitsValue (cs ++ List.replicate n '0') = digitsValue cs * 10 ^ n := by
  rw [digitsValue_append, digitsValue_zeros, List.length_replicate, Nat.add_zero, Nat.mul_comm]

namespace Decimal

/-! ### Reading -/

section reading

variable {whole part rest : List Char}

/-- A run of digits ends where something else begins. -/
theorem span_isDigit (hwhole : ∀ c ∈ whole, c.isDigit = true)
    (hrest : ∀ c ∈ rest.head?, c.isDigit = false) :
    (whole ++ rest).span Char.isDigit = (whole, rest) := by
  rw [List.span_eq_takeWhile_dropWhile, List.takeWhile_append_of_pos hwhole,
    List.dropWhile_append_of_pos hwhole]
  cases rest with
  | nil => rw [List.takeWhile_nil, List.dropWhile_nil, List.append_nil]
  | cons c r =>
      have hc : c.isDigit = false := hrest c rfl
      rw [List.takeWhile_cons_of_neg (by simp [hc]), List.dropWhile_cons_of_neg (by simp [hc]),
        List.append_nil]

/-- A text of digits is a whole number. -/
theorem ofText?_whole (hwhole : ∀ c ∈ whole, c.isDigit = true) (hne : whole ≠ []) :
    ofText? whole = some ⟨digitsValue whole, 0⟩ := by
  have hspan : (whole ++ []).span Char.isDigit = (whole, []) := span_isDigit hwhole (by simp)
  rw [List.append_nil] at hspan
  rw [ofText?, hspan]
  simp only [fraction]
  rw [if_neg fun h => hne h.1, List.append_nil]
  rfl

/-- Digits after a point are tenths, hundredths and so on. -/
theorem ofText?_fraction (hwhole : ∀ c ∈ whole, c.isDigit = true)
    (hpart : ∀ c ∈ part, c.isDigit = true) (hne : whole ≠ []) :
    ofText? (whole ++ '.' :: part) = some ⟨digitsValue (whole ++ part), -part.length⟩ := by
  have hafter : (part ++ []).span Char.isDigit = (part, []) := span_isDigit hpart (by simp)
  rw [List.append_nil] at hafter
  rw [ofText?, span_isDigit hwhole (by simp)]
  simp only [fraction, hafter]
  rw [if_neg fun h => hne h.1]
  simp [exponent?]

end reading

/-! ### Writing -/

/-- Digits with a point after the first `point` of them. -/
def ofDigits (digits : List Char) (point : ℤ) : Decimal :=
  ⟨digitsValue digits, point - digits.length⟩

/-- Digits with a point read back as the fraction that they write. -/
theorem ofText?_positional {digits : List Char} (hdigits : ∀ c ∈ digits, c.isDigit = true)
    (hne : digits ≠ []) (point : ℤ) :
    ∃ d, ofText? (positional [] digits point) = some d ∧
      d.toRat = (ofDigits digits point).toRat := by
  have hzeros : ∀ n, ∀ c ∈ List.replicate n '0', c.isDigit = true := by
    intro n c hc
    rw [List.eq_of_mem_replicate hc]
    decide
  rw [positional]
  split
  · next hpoint =>
      -- Zeros before the digits: one before the point, the others after it.
      refine ⟨ofDigits digits point, ?_, rfl⟩
      have hread := ofText?_fraction (hzeros 1)
        (List.forall_mem_append.mpr ⟨hzeros (-point).toNat, hdigits⟩) (by simp)
      have hexponent : -(((-point).toNat + digits.length : ℕ) : ℤ) = point - digits.length := by
        omega
      rwa [digitsValue_zeros_append, digitsValue_zeros_append, List.length_append,
        List.length_replicate, hexponent] at hread
  · next hpoint =>
      dsimp only
      split
      · next hlength =>
          -- Zeros after the digits, and no point.
          rw [List.append_nil]
          refine ⟨_, ofText?_whole (List.forall_mem_append.mpr ⟨hdigits, hzeros _⟩) (by simp [hne]),
            ?_⟩
          have hexponent : point - digits.length = ((point.toNat - digits.length : ℕ) : ℤ) := by
            omega
          rw [digitsValue_append_zeros, ofDigits, toRat, toRat, hexponent, zpow_natCast, zpow_zero,
            mul_one]
          push_cast
          rfl
      · next hlength =>
          refine ⟨ofDigits digits point, ?_, rfl⟩
          have htake : digits.take point.toNat ≠ [] := by
            rw [Ne, List.take_eq_nil_iff]
            exact not_or.mpr ⟨by omega, hne⟩
          have hread := ofText?_fraction (fun c hc => hdigits c (List.mem_of_mem_take hc))
            (fun c hc => hdigits c (List.mem_of_mem_drop (i := point.toNat) hc)) htake
          have hexponent : -((digits.length - point.toNat : ℕ) : ℤ) = point - digits.length := by
            omega
          rwa [List.take_append_drop, List.length_drop, hexponent] at hread

variable {d : Decimal}

/-- All digits are the significant ones and zeros. -/
theorem exists_zeros (d : Decimal) :
    ∃ n, Nat.toDigits 10 d.coefficient = d.digits ++ List.replicate n '0' := by
  have hzeros : ∀ c ∈ (Nat.toDigits 10 d.coefficient).rtakeWhile (· = '0'), c = '0' := by
    intro c hc
    exact of_decide_eq_true (List.mem_rtakeWhile_imp (p := (· = '0')) hc)
  refine ⟨((Nat.toDigits 10 d.coefficient).rtakeWhile (· = '0')).length, ?_⟩
  rw [← List.eq_replicate_iff.mpr ⟨rfl, hzeros⟩]
  exact List.rdropWhile_append_rtakeWhile.symm

/-- The significant digits and the point write the fraction of a decimal. -/
theorem toRat_ofDigits (d : Decimal) : (ofDigits d.digits d.point).toRat = d.toRat := by
  obtain ⟨n, hn⟩ := d.exists_zeros
  have hcoefficient : d.coefficient = digitsValue d.digits * 10 ^ n := by
    rw [← digitsValue_append_zeros, ← hn, digitsValue_toDigits]
  have hpoint : d.point - d.digits.length = n + d.exponent := by
    rw [point, digitCount, hn, List.length_append, List.length_replicate]
    push_cast
    omega
  rw [ofDigits, toRat, toRat, hpoint, hcoefficient, zpow_add₀ (by norm_num), zpow_natCast]
  push_cast
  ring

/-- Only zero has no significant digit. -/
theorem digits_ne_nil (h : d.coefficient ≠ 0) : d.digits ≠ [] := by
  obtain ⟨n, hn⟩ := d.exists_zeros
  intro hnil
  refine h ?_
  rw [← digitsValue_toDigits d.coefficient, hn, hnil, List.nil_append, digitsValue_zeros]

/-- The plain text of a decimal reads back as one with the same closest double. -/
theorem ofText?_text_plain (h : d.coefficient ≠ 0) :
    ∃ e, ofText? (d.text Binary64.plain) = some e ∧ e.nearest = d.nearest := by
  obtain ⟨e, htext, hrat⟩ :=
    ofText?_positional (fun _ => isDigit_of_mem_digits) (digits_ne_nil h) d.point
  exact ⟨e, htext, nearest_congr (hrat.trans d.toRat_ofDigits)⟩

end Decimal

end LiveScene
