import LiveScene.Proofs.Binary64.Rounding

/-!
# LiveScene.Proofs.Binary64.Bounds

Operations on doubles whose sizes are known.

* `Below k x` says that a double is finite and smaller than a power of two, on either side of
  zero. Sums, differences and products of such doubles are below another power; a result loses one
  place to rounding. This is how an overflow is excluded.
* `Positive x` says that a double is finite and greater than zero. Sums of positive doubles are
  positive, and so are quotients that do not vanish.
-/

namespace LiveScene.Binary64

open Float.Model (Format UnpackedFloat totalExponent)
open Float.Model.UnpackedFloat (Sign)

/-! ### Places of leading digits -/

theorem totalExponent_le_of_lt {n k : Nat} (e : Int) (hn : 0 < n) (h : n < 2 ^ k) :
    totalExponent n e ≤ k + e := by
  have hlog := (Nat.log2_lt (Nat.ne_of_gt hn)).mpr h
  rw [totalExponent_eq]
  omega

theorem totalExponent_shiftLeft {m : Nat} (hm : 0 < m) (e : Int) (k : Nat) :
    totalExponent (m <<< k) (e - k) = totalExponent m e := by
  rw [Nat.shiftLeft_eq, totalExponent_mul_two_pow hm, Int.sub_add_cancel]

theorem shiftLeft_pos {m : Nat} (hm : 0 < m) (k : Nat) : 0 < m <<< k := by
  rw [Nat.shiftLeft_eq]
  exact Nat.mul_pos hm (Nat.two_pow_pos k)

/-- A significand shifted down to an exponent has the digits up to its place. -/
theorem shiftLeft_lt {m : Nat} (hm : 0 < m) {e low : Int} (h : low ≤ e) :
    m <<< (e - low).toNat < 2 ^ (totalExponent m e - low).toNat := by
  have hplace := totalExponent_shiftLeft hm e (e - low).toNat
  rw [show e - ((e - low).toNat : Int) = low by omega, totalExponent_eq _ low] at hplace
  refine Nat.lt_of_lt_of_le Nat.lt_log2_self (Nat.pow_le_pow_right (by decide) ?_)
  omega

theorem log2_mul_cases {a b : Nat} (ha : 0 < a) (hb : 0 < b) :
    (a * b).log2 = a.log2 + b.log2 ∨ (a * b).log2 = a.log2 + b.log2 + 1 := by
  have hale := Nat.log2_self_le (Nat.ne_of_gt ha)
  have hble := Nat.log2_self_le (Nat.ne_of_gt hb)
  have halt : a < 2 ^ (a.log2 + 1) := Nat.lt_log2_self
  have hblt : b < 2 ^ (b.log2 + 1) := Nat.lt_log2_self
  have hle : 2 ^ (a.log2 + b.log2) ≤ a * b := by
    rw [Nat.pow_add]
    exact Nat.mul_le_mul hale hble
  have hlt : a * b < 2 ^ (a.log2 + b.log2 + 2) := by
    rw [show a.log2 + b.log2 + 2 = (a.log2 + 1) + (b.log2 + 1) by omega, Nat.pow_add]
    exact Nat.mul_lt_mul'' halt hblt
  have hpos : a * b ≠ 0 := Nat.ne_of_gt (Nat.mul_pos ha hb)
  have hge := (Nat.le_log2 hpos).mpr hle
  have hup := (Nat.log2_lt hpos).mpr hlt
  omega

/-! ### Rounded results -/

theorem rounded_round (s : Sign) {m : Nat} (hm : 0 < m) (e : Int) :
    Rounded s (totalExponent m e) (UnpackedFloat.round Format.binary64 s m e) := by
  unfold UnpackedFloat.round UnpackedFloat.decreaseExponent
  generalize htarget : Format.binary64.targetExponent (totalExponent m e) = target
  have hplace := totalExponent_shiftLeft hm e (e - target).toNat
  rw [← hplace]
  refine rounded_roundWithAccuracy s (shiftLeft_pos hm _) ?_ .exact
  rw [hplace, htarget]
  omega

theorem rounded_normalize_natCast {n : Nat} (hn : 0 < n) (e : Int) (zeroSign : Sign) :
    Rounded .positive (totalExponent n e)
      (UnpackedFloat.normalize Format.binary64 n e zeroSign) := by
  unfold UnpackedFloat.normalize
  rw [show compare (n : Int) 0 = .gt from Int.compare_eq_gt.mpr (by omega)]
  exact rounded_round .positive hn e

/-- A sum of significands is zero, or is rounded as its distance from zero is. -/
theorem rounded_normalize {z : Int} (hz : z ≠ 0) (e : Int) (zeroSign : Sign) :
    ∃ s, s.apply z.natAbs = z ∧ Rounded s (totalExponent z.natAbs e)
      (UnpackedFloat.normalize Format.binary64 z e zeroSign) := by
  unfold UnpackedFloat.normalize
  rcases Int.lt_trichotomy z 0 with hneg | hzero | hpos
  · refine ⟨.negative, by show -(z.natAbs : Int) = z; omega, ?_⟩
    rw [show compare z 0 = .lt from Int.compare_eq_lt.mpr hneg]
    show Rounded _ _ (UnpackedFloat.round Format.binary64 .negative (-z).toNat e)
    rw [show (-z).toNat = z.natAbs by omega]
    exact rounded_round _ (by omega) e
  · exact absurd hzero hz
  · refine ⟨.positive, by show (z.natAbs : Int) = z; omega, ?_⟩
    rw [show compare z 0 = .gt from Int.compare_eq_gt.mpr hpos]
    show Rounded _ _ (UnpackedFloat.round Format.binary64 .positive z.toNat e)
    rw [show z.toNat = z.natAbs by omega]
    exact rounded_round _ (by omega) e

/-- A result that is not too great is read back as it was rounded. -/
theorem stored_rounded {s : Sign} {place : Int} {u : UnpackedFloat} (h : Rounded s place u)
    (hplace : place ≤ 1023) : stored u = u := by
  rcases h with ⟨rfl, -⟩ | ⟨m, e, hm, rfl, hcanonical, -, hup⟩
  · exact stored_zero s
  · refine stored_finite s hm hcanonical ?_
    rw [totalExponent_eq] at hup
    rcases hcanonical.full with hfull | hleast
    · have hlog := log2_eq_of_le_of_lt hfull hcanonical.lt
      omega
    · omega

/-- A product of canonical doubles reaches down far enough to be rounded. -/
theorem mul_exponent_le {m n : Nat} {e f : Int} (hm : 0 < m) (hn : 0 < n)
    (hme : Canonical m e) (hnf : Canonical n f) :
    e + f ≤ Format.binary64.targetExponent (totalExponent (m * n) (e + f)) := by
  have hlog := log2_mul_cases hm hn
  rw [targetExponent_eq, totalExponent_eq]
  rcases hme.full with hfull | hleast
  · have hmlog := log2_eq_of_le_of_lt hfull hme.lt
    omega
  · rcases hnf.full with hfull | hleast'
    · have hnlog := log2_eq_of_le_of_lt hfull hnf.lt
      omega
    · omega

theorem rounded_mul (s : Sign) {m n : Nat} {e f : Int} (hm : 0 < m) (hn : 0 < n)
    (hme : Canonical m e) (hnf : Canonical n f) :
    Rounded s (totalExponent (m * n) (e + f))
      (UnpackedFloat.roundWithAccuracy Format.binary64 s (m * n) (e + f) .exact) :=
  rounded_roundWithAccuracy s (Nat.mul_pos hm hn) (mul_exponent_le hm hn hme hnf) .exact

theorem log2_div_cases {a b : Nat} (hb : 0 < b) (h : b.log2 + 1 ≤ a.log2) :
    0 < a / b ∧
      ((a / b).log2 + b.log2 + 1 = a.log2 ∨ (a / b).log2 + b.log2 = a.log2) := by
  have ha : a ≠ 0 := by
    intro hzero
    rw [hzero, show Nat.log2 0 = 0 from by decide] at h
    omega
  have hblt : b < 2 ^ (b.log2 + 1) := Nat.lt_log2_self
  have halt : a < 2 ^ (a.log2 + 1) := Nat.lt_log2_self
  have hge : 2 ^ (a.log2 - (b.log2 + 1)) ≤ a / b := by
    rw [Nat.le_div_iff_mul_le hb]
    calc 2 ^ (a.log2 - (b.log2 + 1)) * b
        ≤ 2 ^ (a.log2 - (b.log2 + 1)) * 2 ^ (b.log2 + 1) :=
          Nat.mul_le_mul_left _ (Nat.le_of_lt hblt)
      _ = 2 ^ a.log2 := by rw [← Nat.pow_add, Nat.sub_add_cancel h]
      _ ≤ a := Nat.log2_self_le ha
  have hlt : a / b < 2 ^ (a.log2 + 1 - b.log2) := by
    rw [Nat.div_lt_iff_lt_mul hb]
    calc a < 2 ^ (a.log2 + 1) := halt
      _ = 2 ^ (a.log2 + 1 - b.log2) * 2 ^ b.log2 := by
          rw [← Nat.pow_add, Nat.sub_add_cancel (by omega)]
      _ ≤ 2 ^ (a.log2 + 1 - b.log2) * b :=
          Nat.mul_le_mul_left _ (Nat.log2_self_le (Nat.ne_of_gt hb))
  have hpos : 0 < a / b := Nat.lt_of_lt_of_le (Nat.two_pow_pos _) hge
  have hlow := (Nat.le_log2 (Nat.ne_of_gt hpos)).mpr hge
  have hup := (Nat.log2_lt (Nat.ne_of_gt hpos)).mpr hlt
  exact ⟨hpos, by omega⟩

/-- A quotient that does not vanish has its leading digit where the difference of the places
is, or one place further up. -/
theorem rounded_div (s t : Sign) {m n : Nat} {e f : Int} (hm : 0 < m) (hn : 0 < n)
    (hlow : -1073 ≤ totalExponent m e - totalExponent n f) :
    ∃ place, totalExponent m e - totalExponent n f ≤ place ∧
      place ≤ totalExponent m e - totalExponent n f + 1 ∧
      Rounded (s / t) place
        (UnpackedFloat.div Format.binary64 (.finite s m e hm) (.finite t n f hn)) := by
  -- The dividend is shifted up so far that the quotient has its digits; how far is `target`.
  obtain ⟨target, htarget⟩ : ∃ target, min (e - f)
      (Format.binary64.targetExponent (totalExponent m e - totalExponent n f)) = target := ⟨_, rfl⟩
  have hdiv : UnpackedFloat.div Format.binary64 (.finite s m e hm) (.finite t n f hn) =
      UnpackedFloat.roundWithAccuracy Format.binary64 (s / t)
        ((m <<< (e - f - target).toNat) / n) target
        (UnpackedFloat.accuracyOfFraction ((m <<< (e - f - target).toNat) % n) n) := by
    rw [← htarget]
    rfl
  rw [targetExponent_eq, totalExponent_eq, totalExponent_eq] at htarget
  rw [totalExponent_eq, totalExponent_eq] at hlow
  have hplace := totalExponent_shiftLeft hm (e - f) (e - f - target).toNat
  rw [totalExponent_eq, totalExponent_eq] at hplace
  obtain ⟨hpos, hlog⟩ := log2_div_cases (a := m <<< (e - f - target).toNat) hn (by omega)
  refine ⟨totalExponent ((m <<< (e - f - target).toNat) / n) target, ?_, ?_, ?_⟩
  · rw [totalExponent_eq, totalExponent_eq, totalExponent_eq]
    omega
  · rw [totalExponent_eq, totalExponent_eq, totalExponent_eq]
    omega
  · rw [hdiv]
    refine rounded_roundWithAccuracy (s / t) hpos ?_ _
    rw [targetExponent_eq, totalExponent_eq]
    omega

/-! ### Doubles of limited size -/

/-- Parts of a finite double that is smaller than a power of two. -/
def Within (k : Int) (u : UnpackedFloat) : Prop :=
  (∃ s, u = .zero s) ∨ ∃ s m e hm, u = .finite s m e hm ∧ totalExponent m e ≤ k

/-- A finite double that is smaller than a power of two, on either side of zero. -/
def Below (k : Int) (x : Float) : Prop := Within k (parts x)

theorem Within.stored {s : Sign} {place k : Int} {u : UnpackedFloat} (h : Rounded s place u)
    (hplace : place + 1 ≤ k) (hleast : -1073 ≤ k) (hgreatest : k ≤ 1024) :
    Within k (stored u) := by
  rw [stored_rounded h (by omega)]
  rcases h with ⟨rfl, -⟩ | ⟨m, e, hm, rfl, -, -, hup⟩
  · exact Or.inl ⟨s, rfl⟩
  · exact Or.inr ⟨s, m, e, hm, rfl, by omega⟩

namespace Below

variable {j k : Int} {x y : Float}

theorem isFinite (h : Below k x) : x.isFinite = true := by
  rw [isFinite_eq]
  rcases h with ⟨s, hs⟩ | ⟨s, m, e, hm, hx, -⟩
  · rw [hs]
    rfl
  · rw [hx]
    rfl

theorem totalExponent_le {s : Sign} {m : Nat} {e : Int} {hm : 0 < m} (h : Below k x)
    (hx : parts x = .finite s m e hm) : totalExponent m e ≤ k := by
  rcases h with ⟨t, ht⟩ | ⟨t, n, f, hn, ht, hplace⟩
  · rw [hx] at ht
    cases ht
  · rw [hx] at ht
    injection ht with _ hmn hef
    rw [hmn, hef]
    exact hplace

theorem mono (h : Below j x) (hjk : j ≤ k) : Below k x := by
  rcases h with hzero | ⟨s, m, e, hm, hx, hplace⟩
  · exact Or.inl hzero
  · exact Or.inr ⟨s, m, e, hm, hx, Int.le_trans hplace hjk⟩

theorem mul (hx : Below j x) (hy : Below k y) (hlow : -1074 ≤ j + k) (hhigh : j + k ≤ 1023) :
    Below (j + k + 1) (x * y) := by
  unfold Below
  rw [parts_mul]
  rcases hx with ⟨s, hx⟩ | ⟨s, m, e, hm, hx, hxplace⟩
  · rcases hy with ⟨t, hy⟩ | ⟨t, n, f, hn, hy, hyplace⟩
    · rw [hx, hy]
      exact Or.inl ⟨s * t, stored_zero _⟩
    · rw [hx, hy]
      exact Or.inl ⟨s * t, stored_zero _⟩
  · rcases hy with ⟨t, hy⟩ | ⟨t, n, f, hn, hy, hyplace⟩
    · rw [hx, hy]
      exact Or.inl ⟨s * t, stored_zero _⟩
    · have hrounded := rounded_mul (s * t) hm hn (canonical_parts hx).1 (canonical_parts hy).1
      have hlog := log2_mul_cases hm hn
      rw [hx, hy]
      refine Within.stored hrounded ?_ (by omega) (by omega)
      rw [totalExponent_eq] at hxplace hyplace ⊢
      omega

end Below

theorem natAbs_apply (s : Sign) (n : Nat) : (s.apply n).natAbs = n := by
  cases s
  · show (-(n : Int)).natAbs = n
    omega
  · rfl

/-- Significands shifted down to the smaller exponent. -/
theorem shifted_add_lt {m n : Nat} {e f k : Int} (hm : 0 < m) (hn : 0 < n)
    (hmk : totalExponent m e ≤ k) (hnk : totalExponent n f ≤ k) :
    m <<< (e - min e f).toNat + n <<< (f - min e f).toNat < 2 ^ (k + 1 - min e f).toNat := by
  have hmlt := shiftLeft_lt hm (Int.min_le_left e f)
  have hnlt := shiftLeft_lt hn (Int.min_le_right e f)
  have hpos : 1 ≤ totalExponent m e - min e f := by
    rw [totalExponent_eq]
    omega
  have hmle : 2 ^ (totalExponent m e - min e f).toNat ≤ 2 ^ (k - min e f).toNat :=
    Nat.pow_le_pow_right (by decide) (by omega)
  have hnle : 2 ^ (totalExponent n f - min e f).toNat ≤ 2 ^ (k - min e f).toNat :=
    Nat.pow_le_pow_right (by decide) (by omega)
  have hdouble : 2 ^ (k + 1 - min e f).toNat = 2 ^ (k - min e f).toNat * 2 := by
    rw [← Nat.pow_succ]
    congr 1
    omega
  omega

/-- What two significands make of each other, rounded and read back. -/
theorem within_combined {m n : Nat} {e f k z : Int} (hm : 0 < m) (hn : 0 < n)
    (hme : Canonical m e) (hnf : Canonical n f) (hmk : totalExponent m e ≤ k)
    (hnk : totalExponent n f ≤ k)
    (hz : z.natAbs ≤ m <<< (e - min e f).toNat + n <<< (f - min e f).toNat) (hk : k ≤ 1022) :
    Within (k + 2)
      (stored (UnpackedFloat.normalize Format.binary64 z (min e f) .positive)) := by
  by_cases hzero : z = 0
  · subst hzero
    exact Or.inl ⟨.positive, stored_zero _⟩
  · obtain ⟨s, -, hrounded⟩ := rounded_normalize hzero (min e f) .positive
    have hlt := Nat.lt_of_le_of_lt hz (shifted_add_lt hm hn hmk hnk)
    have hplace := totalExponent_le_of_lt (min e f) (by omega) hlt
    have hmle := hme.le
    have hnle := hnf.le
    rw [totalExponent_eq] at hmk
    exact Within.stored hrounded (by omega) (by omega) (by omega)

namespace Below

variable {k : Int} {x y : Float}

theorem add (hx : Below k x) (hy : Below k y) (hhigh : k ≤ 1022) : Below (k + 2) (x + y) := by
  unfold Below
  rw [parts_add]
  rcases hx with ⟨s, hx⟩ | ⟨s, m, e, hm, hx, hxplace⟩
  · rcases hy with ⟨t, hy⟩ | ⟨t, n, f, hn, hy, hyplace⟩
    · rw [hx, hy]
      cases s <;> cases t <;> exact Or.inl ⟨_, stored_zero _⟩
    · have hkept := stored_parts y
      rw [hx, hy]
      rw [hy] at hkept
      exact Or.inr ⟨t, n, f, hn, hkept, by omega⟩
  · rcases hy with ⟨t, hy⟩ | ⟨t, n, f, hn, hy, hyplace⟩
    · have hkept := stored_parts x
      rw [hx, hy]
      rw [hx] at hkept
      exact Or.inr ⟨s, m, e, hm, hkept, by omega⟩
    · have hz := Int.natAbs_add_le (s.apply (m <<< (e - min e f).toNat : Nat))
        (t.apply (n <<< (f - min e f).toNat : Nat))
      rw [natAbs_apply, natAbs_apply] at hz
      rw [hx, hy]
      exact within_combined hm hn (canonical_parts hx).1 (canonical_parts hy).1 hxplace hyplace hz
        hhigh

theorem sub (hx : Below k x) (hy : Below k y) (hhigh : k ≤ 1022) : Below (k + 2) (x - y) := by
  unfold Below
  rw [parts_sub]
  rcases hx with ⟨s, hx⟩ | ⟨s, m, e, hm, hx, hxplace⟩
  · rcases hy with ⟨t, hy⟩ | ⟨t, n, f, hn, hy, hyplace⟩
    · rw [hx, hy]
      cases s <;> cases t <;> exact Or.inl ⟨_, stored_zero _⟩
    · obtain ⟨hcanonical, he⟩ := canonical_parts hy
      rw [hx, hy]
      exact Or.inr ⟨-t, n, f, hn, stored_finite (-t) hn hcanonical he, by omega⟩
  · rcases hy with ⟨t, hy⟩ | ⟨t, n, f, hn, hy, hyplace⟩
    · have hkept := stored_parts x
      rw [hx, hy]
      rw [hx] at hkept
      exact Or.inr ⟨s, m, e, hm, hkept, by omega⟩
    · have hz := Int.natAbs_sub_le (s.apply (m <<< (e - min e f).toNat : Nat))
        (t.apply (n <<< (f - min e f).toNat : Nat))
      rw [natAbs_apply, natAbs_apply] at hz
      rw [hx, hy]
      exact within_combined hm hn (canonical_parts hx).1 (canonical_parts hy).1 hxplace hyplace hz
        hhigh

end Below

/-! ### Positive doubles -/

/-- A finite double greater than zero. -/
def Positive (x : Float) : Prop := ∃ m e hm, parts x = .finite .positive m e hm

/-- A rounded result that is not too great, and too great to vanish. -/
theorem finite_stored {s : Sign} {place : Int} {u : UnpackedFloat} (h : Rounded s place u)
    (hlow : -1073 ≤ place) (hhigh : place ≤ 1023) :
    ∃ m e hm, stored u = .finite s m e hm ∧ place ≤ totalExponent m e ∧
      totalExponent m e ≤ place + 1 := by
  rw [stored_rounded h hhigh]
  rcases h with ⟨-, hsmall⟩ | ⟨m, e, hm, rfl, -, hle, hup⟩
  · omega
  · exact ⟨m, e, hm, rfl, hle, by omega⟩

namespace Positive

variable {x y : Float}

theorem add_zero {t : Sign} (hx : Positive x) (hy : parts y = .zero t) : Positive (x + y) := by
  obtain ⟨m, e, hm, hx⟩ := hx
  have hkept := stored_parts x
  rw [hx] at hkept
  exact ⟨m, e, hm, by rw [parts_add, hx, hy]; exact hkept⟩

theorem zero_add {s : Sign} (hx : parts x = .zero s) (hy : Positive y) : Positive (x + y) := by
  obtain ⟨n, f, hn, hy⟩ := hy
  have hkept := stored_parts y
  rw [hy] at hkept
  exact ⟨n, f, hn, by rw [parts_add, hx, hy]; exact hkept⟩

theorem add {k : Int} (hx : Positive x) (hy : Positive y) (hxk : Below k x) (hyk : Below k y)
    (hk : k ≤ 1022) : Positive (x + y) := by
  obtain ⟨m, e, hm, hx⟩ := hx
  obtain ⟨n, f, hn, hy⟩ := hy
  have hmk := hxk.totalExponent_le hx
  have hnk := hyk.totalExponent_le hy
  have hme := (canonical_parts hx).1.le
  have hnf := (canonical_parts hy).1.le
  have hpos := shiftLeft_pos hm (e - min e f).toNat
  have hlt := shifted_add_lt hm hn hmk hnk
  have hadd : parts (x + y) = stored (UnpackedFloat.normalize Format.binary64
      ((m <<< (e - min e f).toNat + n <<< (f - min e f).toNat : Nat) : Int) (min e f)
        .positive) := by
    rw [parts_add, hx, hy, Int.natCast_add]
    rfl
  have hrounded := rounded_normalize_natCast (Nat.add_pos_left hpos (n <<< (f - min e f).toNat))
    (min e f) .positive
  have hplace := totalExponent_le_of_lt (min e f) (Nat.add_pos_left hpos _) hlt
  rw [totalExponent_eq] at hmk
  obtain ⟨r, g, hr, hstored, -, -⟩ := finite_stored hrounded
    (by rw [totalExponent_eq]; omega) (by omega)
  exact ⟨r, g, hr, hadd.trans hstored⟩

theorem div {m n : Nat} {e f : Int} {hm : 0 < m} {hn : 0 < n}
    (hx : parts x = .finite .positive m e hm) (hy : parts y = .finite .positive n f hn)
    (hlow : -1073 ≤ totalExponent m e - totalExponent n f)
    (hhigh : totalExponent m e - totalExponent n f ≤ 1022) :
    Positive (x / y) ∧ Below (totalExponent m e - totalExponent n f + 2) (x / y) := by
  obtain ⟨place, hle, hup, hrounded⟩ := rounded_div .positive .positive hm hn hlow
  obtain ⟨r, g, hr, hstored, -, hplace⟩ := finite_stored hrounded (by omega) (by omega)
  have hparts : parts (x / y) = .finite .positive r g hr := by
    rw [parts_div, hx, hy]
    exact hstored
  exact ⟨⟨r, g, hr, hparts⟩, Or.inr ⟨.positive, r, g, hr, hparts, by omega⟩⟩

end Positive

/-! ### Whole numbers -/

theorem parts_toFloat_of_pos {n : UInt64} (h : 0 < n.toNat) :
    ∃ m e hm, parts n.toFloat = .finite .positive m e hm ∧ 1 ≤ totalExponent m e ∧
      totalExponent m e ≤ 65 := by
  have hrounded := rounded_normalize_natCast h 0 .positive
  have hplace := totalExponent_le_of_lt 0 h n.toNat_lt
  have hlow : 1 ≤ totalExponent n.toNat 0 := by
    rw [totalExponent_eq]
    omega
  obtain ⟨m, e, hm, hstored, hle, hup⟩ := finite_stored hrounded (by omega) (by omega)
  exact ⟨m, e, hm, hstored, by omega, by omega⟩

end LiveScene.Binary64
