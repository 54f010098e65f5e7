import LiveScene.Binary64
import Mathlib

/-!
# LiveScene.Proofs.Binary64.Parts

Doubles taken apart, and which operations yield no number.

* `parts` reads a double as zero, infinity, no number, or a sign, a significand and an exponent.
  Every operation works on parts and writes the result down; `stored` is what can be read back
  then.
* The significands and exponents that occur are `Canonical`. A canonical pair is read back as it
  was written, unless it is too great.

That packing is undone by unpacking is a lemma of the library (`pack_unpack_of_valid` and those
around it). No single module of Mathlib imports it, so this one imports Mathlib as a whole.
-/

namespace LiveScene.Binary64

open Float.Model (Format UnpackedFloat totalExponent)
open Float.Model.UnpackedFloat (Sign)

/-- A double taken apart. -/
def parts (x : Float) : UnpackedFloat := x.toModel.unpack

/-- What is read back of a result that is written down. -/
def stored (u : UnpackedFloat) : UnpackedFloat :=
  UnpackedFloat.unpack Format.binary64 (UnpackedFloat.pack Format.binary64 u)

theorem parts_add (x y : Float) :
    parts (x + y) = stored (UnpackedFloat.add Format.binary64 (parts x) (parts y)) := rfl

theorem parts_sub (x y : Float) :
    parts (x - y) = stored (UnpackedFloat.sub Format.binary64 (parts x) (parts y)) := rfl

theorem parts_mul (x y : Float) :
    parts (x * y) = stored (UnpackedFloat.mul Format.binary64 (parts x) (parts y)) := rfl

theorem parts_div (x y : Float) :
    parts (x / y) = stored (UnpackedFloat.div Format.binary64 (parts x) (parts y)) := rfl

theorem isNaN_eq (x : Float) : x.isNaN = (parts x).isNaN := rfl

theorem isFinite_eq (x : Float) : x.isFinite = (parts x).isFinite := rfl

theorem beq_eq (x y : Float) : (x == y) = (parts x).beq (parts y) := rfl

theorem lt_iff (x y : Float) : x < y ↔ (parts x).lt (parts y) = true := by
  show decide (x.toModel < y.toModel) = true ↔ _
  exact decide_eq_true_iff

/-! ### Written down and read back -/

/-- The significands and exponents of doubles: fifty-three digits, or fewer at the least
exponent. -/
structure Canonical (m : Nat) (e : Int) : Prop where
  lt : m < 2 ^ 53
  le : -1074 ≤ e
  full : 2 ^ 52 ≤ m ∨ e = -1074

theorem stored_notANumber : stored .notANumber = .notANumber := by rfl

theorem stored_infinity (s : Sign) : stored (.infinity s) = .infinity s := by
  cases s <;> rfl

theorem stored_zero (s : Sign) : stored (.zero s) = .zero s := by
  cases s <;> rfl

theorem finite_congr (s : Sign) {m n : Nat} {e f : Int} {hm : 0 < m} {hn : 0 < n} (hmn : m = n)
    (hef : e = f) : UnpackedFloat.finite s m e hm = .finite s n f hn := by
  subst hmn
  subst hef
  rfl

/-- What the fields of sixty-four bits are read as. -/
def ofFields (s : Sign) (exponent : BitVec 11) (mantissa : BitVec 52) : UnpackedFloat :=
  if exponent = -1#11 then
    if mantissa = 0#52 then .infinity s else .notANumber
  else if exponent = 0#11 then
    if h : mantissa = 0#52 then .zero s
    else .finite s mantissa.toNat (-1074) (BitVec.toNat_pos_of_ne_zero h)
  else .finite s (2 ^ 52 + mantissa.toNat) (exponent.toNat - 1075) (by omega)

theorem unpack_eq (b : BitVec 64) :
    UnpackedFloat.unpack Format.binary64 b =
      ofFields (Sign.ofBitVec (@UnpackedFloat.unpackSign Format.binary64 b))
        (@UnpackedFloat.unpackExponent Format.binary64 b)
        (@UnpackedFloat.unpackMantissa Format.binary64 b) := by
  unfold UnpackedFloat.unpack ofFields
  by_cases hones : @UnpackedFloat.unpackExponent Format.binary64 b = -1#11
  · exact (if_pos hones).trans (if_pos hones).symm
  · refine (if_neg hones).trans (Eq.trans ?_ (if_neg hones).symm)
    by_cases hzero : @UnpackedFloat.unpackExponent Format.binary64 b = 0#11
    · refine (if_pos hzero).trans (Eq.trans ?_ (if_pos hzero).symm)
      by_cases hnone : @UnpackedFloat.unpackMantissa Format.binary64 b = 0#52
      · refine (dif_pos hnone).trans ?_
        rw [dif_pos hnone]
      · refine (dif_neg hnone).trans (Eq.trans ?_ (dif_neg hnone).symm)
        refine finite_congr _ rfl ?_
        rw [hzero]
        rfl
    · refine (if_neg hzero).trans (Eq.trans ?_ (if_neg hzero).symm)
      refine finite_congr _ ?_ rfl
      rw [BitVec.toNat_append, ← Nat.shiftLeft_add_eq_or_of_lt (BitVec.isLt _)]
      rfl

theorem unpack_packComponents (s : Sign) (exponent : BitVec 11) (mantissa : BitVec 52) :
    UnpackedFloat.unpack Format.binary64
      (UnpackedFloat.packComponents Format.binary64 s exponent mantissa) =
        ofFields s exponent mantissa := by
  rw [unpack_eq, UnpackedFloat.unpackSign_packComponents, Sign.ofBitVec_toBitVec,
    UnpackedFloat.unpackExponent_packComponents, UnpackedFloat.unpackMantissa_packComponents]

/-- With an exponent field between the extremes the leading digit is not written. -/
theorem ofFields_normal (s : Sign) {exponent : BitVec 11} (mantissa : BitVec 52)
    (hzero : exponent ≠ 0#11) (hones : exponent ≠ -1#11) (hm : 0 < 2 ^ 52 + mantissa.toNat) :
    ofFields s exponent mantissa =
      .finite s (2 ^ 52 + mantissa.toNat) (exponent.toNat - 1075) hm := by
  rw [ofFields, if_neg hones, if_neg hzero]

/-- With an exponent field of zero all digits are written. -/
theorem ofFields_subnormal (s : Sign) (mantissa : BitVec 52) (hm : 0 < mantissa.toNat) :
    ofFields s 0#11 mantissa = .finite s mantissa.toNat (-1074) hm := by
  have hmantissa : mantissa ≠ 0#52 := by
    intro h
    rw [h] at hm
    exact absurd hm (by decide)
  rw [ofFields, if_neg (by decide), if_pos rfl, dif_neg hmantissa]

theorem log2_eq_of_le_of_lt {n k : Nat} (hle : 2 ^ k ≤ n) (hlt : n < 2 ^ (k + 1)) :
    n.log2 = k := by
  have hn : n ≠ 0 := by
    have hpos := Nat.two_pow_pos k
    omega
  have hge := (Nat.le_log2 hn).mpr hle
  have hup := (Nat.log2_lt hn).mpr hlt
  omega

/-- The exponent field of a result. -/
theorem biased_eq (e : Int) :
    (e + Format.binary64.exponentBias + Format.binary64.mantissaBitsWithoutImplicit).toNat =
      (e + 1075).toNat := by
  show (e + (1023 : Nat) + (52 : Nat)).toNat = (e + 1075).toNat
  omega

/-- The fields that a significand and an exponent are written to. -/
theorem stored_finite_eq (s : Sign) {m : Nat} (e : Int) (hm : 0 < m) :
    stored (.finite s m e hm) =
      if 2 ^ 11 ≤ (e + 1075).toNat + 1 then .infinity s
      else if m.log2 + 1 = 53 then
        ofFields s (BitVec.ofNat 11 (e + 1075).toNat) (BitVec.ofNat 52 m)
      else ofFields s 0#11 (BitVec.ofNat 52 m) := by
  have hpack : UnpackedFloat.pack Format.binary64 (.finite s m e hm) =
      if 2 ^ 11 ≤ (e + Format.binary64.exponentBias +
          Format.binary64.mantissaBitsWithoutImplicit).toNat + 1 then
        UnpackedFloat.packedInfinity Format.binary64 s
      else if m.log2 + 1 = 53 then
        UnpackedFloat.packComponents Format.binary64 s
          (BitVec.ofNat 11 (e + Format.binary64.exponentBias +
            Format.binary64.mantissaBitsWithoutImplicit).toNat) (BitVec.ofNat 52 m)
      else UnpackedFloat.packComponents Format.binary64 s 0#11 (BitVec.ofNat 52 m) := by rfl
  rw [stored, hpack, biased_eq]
  split
  · exact stored_infinity s
  · split
    · exact unpack_packComponents s _ _
    · exact unpack_packComponents s _ _

/-- An exponent field that is not too great is written as it is. -/
theorem toNat_field {e : Int} (h : ¬ 2 ^ 11 ≤ (e + 1075).toNat + 1) :
    (BitVec.ofNat 11 (e + 1075).toNat).toNat = (e + 1075).toNat := by
  rw [BitVec.toNat_ofNat, Nat.mod_eq_of_lt (by omega)]

theorem field_ne_ones {e : Int} (h : ¬ 2 ^ 11 ≤ (e + 1075).toNat + 1) :
    BitVec.ofNat 11 (e + 1075).toNat ≠ -1#11 := by
  intro hones
  have hbits := toNat_field h
  rw [hones, show (-1#11).toNat = 2047 from rfl] at hbits
  omega

/-- What is canonical and not too great is read back. -/
theorem stored_finite (s : Sign) {m : Nat} {e : Int} (hm : 0 < m) (h : Canonical m e)
    (he : e ≤ 971) : stored (.finite s m e hm) = .finite s m e hm := by
  have hlt := h.lt
  have hle := h.le
  have hfield : ¬ 2 ^ 11 ≤ (e + 1075).toNat + 1 := by omega
  rw [stored_finite_eq, if_neg hfield]
  by_cases hfull : 2 ^ 52 ≤ m
  · have hlog : m.log2 = 52 := log2_eq_of_le_of_lt hfull hlt
    have hmantissa : (BitVec.ofNat 52 m).toNat = m - 2 ^ 52 := by
      rw [BitVec.toNat_ofNat, Nat.mod_eq_sub_mod hfull, Nat.mod_eq_of_lt (by omega)]
    have hexponent := toNat_field hfield
    -- A significand of fifty-three digits has a field between the extremes.
    have hzero : BitVec.ofNat 11 (e + 1075).toNat ≠ 0#11 := by
      intro h0
      rw [h0, show (0#11).toNat = 0 from rfl] at hexponent
      omega
    rw [if_pos (by omega), ofFields_normal s _ hzero (field_ne_ones hfield) (by omega)]
    exact finite_congr s (by omega) (by omega)
  · have he' : e = -1074 := h.full.resolve_left hfull
    have hmantissa : (BitVec.ofNat 52 m).toNat = m := by
      rw [BitVec.toNat_ofNat, Nat.mod_eq_of_lt (by omega)]
    have hlog : m.log2 < 52 := (Nat.log2_lt (by omega)).mpr (by omega)
    rw [if_neg (by omega), ofFields_subnormal s _ (by omega)]
    exact finite_congr s hmantissa he'.symm

theorem canonical_ofFields {s t : Sign} {exponent : BitVec 11} {mantissa : BitVec 52} {m : Nat}
    {e : Int} {hm : 0 < m} (h : ofFields s exponent mantissa = .finite t m e hm) :
    Canonical m e ∧ e ≤ 971 := by
  have hexponent := exponent.isLt
  have hmantissa := mantissa.isLt
  unfold ofFields at h
  split at h
  · split at h <;> cases h
  · next hones =>
      have hlt : exponent.toNat ≠ 2047 := fun h1 => hones (BitVec.eq_of_toNat_eq h1)
      split at h
      · split at h
        · cases h
        · injection h with _ hm' he'
          exact ⟨⟨by omega, by omega, Or.inr (by omega)⟩, by omega⟩
      · next hzero =>
          have hpos : exponent.toNat ≠ 0 := fun h0 => hzero (BitVec.eq_of_toNat_eq h0)
          injection h with _ hm' he'
          exact ⟨⟨by omega, by omega, Or.inl (by omega)⟩, by omega⟩

/-- What is read back is canonical. -/
theorem canonical_parts {x : Float} {s : Sign} {m : Nat} {e : Int} {hm : 0 < m}
    (h : parts x = .finite s m e hm) : Canonical m e ∧ e ≤ 971 :=
  canonical_ofFields ((unpack_eq _).symm.trans h)

/-- A double is read back as itself. -/
theorem stored_parts (x : Float) : stored (parts x) = parts x :=
  congrArg (UnpackedFloat.unpack Format.binary64)
    (UnpackedFloat.pack_unpack_of_valid x.toModel.valid)

theorem parts_inj {x y : Float} (h : parts x = parts y) : x = y := by
  have hbits : x.toModel.toBits.toBitVec = y.toModel.toBits.toBitVec :=
    (UnpackedFloat.unpack_inj_of_valid x.toModel.valid y.toModel.valid).mp h
  exact Float.toBits_inj.mp (UInt64.toBitVec_inj.mp hbits)

/-! ### No number -/

theorem isNaN_ofFields (s : Sign) {exponent : BitVec 11} (mantissa : BitVec 52)
    (hones : exponent ≠ -1#11) : (ofFields s exponent mantissa).isNaN = false := by
  rw [ofFields, if_neg hones]
  split
  · split <;> rfl
  · rfl

/-- Writing a result down makes no number of nothing else. -/
theorem isNaN_stored (u : UnpackedFloat) : (stored u).isNaN = u.isNaN := by
  cases u with
  | notANumber => rw [stored_notANumber]
  | infinity s => rw [stored_infinity]
  | zero s => rw [stored_zero]
  | finite s m e hm =>
      show (stored (.finite s m e hm)).isNaN = false
      rw [stored_finite_eq]
      split
      · rfl
      · next hfield =>
          split
          · exact isNaN_ofFields s _ (field_ne_ones hfield)
          · exact isNaN_ofFields s _ (by decide)

theorem isNaN_roundWithAccuracy (s : Sign) (m : Nat) (e : Int)
    (a : UnpackedFloat.Accuracy) :
    (UnpackedFloat.roundWithAccuracy Format.binary64 s m e a).isNaN = false := by
  unfold UnpackedFloat.roundWithAccuracy
  simp only
  split <;> rfl

theorem isNaN_normalize (z e : Int) (s : Sign) :
    (UnpackedFloat.normalize Format.binary64 z e s).isNaN = false := by
  unfold UnpackedFloat.normalize
  split
  · exact isNaN_roundWithAccuracy _ _ _ _
  · rfl
  · exact isNaN_roundWithAccuracy _ _ _ _

variable {x y : Float}

theorem isFinite_cases (h : x.isFinite = true) :
    (∃ s, parts x = .zero s) ∨ ∃ s m e hm, parts x = .finite s m e hm := by
  rw [isFinite_eq] at h
  cases hx : parts x with
  | notANumber =>
      rw [hx] at h
      exact absurd h (by decide)
  | infinity s =>
      rw [hx] at h
      exact absurd h (by cases s <;> decide)
  | zero s => exact Or.inl ⟨s, rfl⟩
  | finite s m e hm => exact Or.inr ⟨s, m, e, hm, rfl⟩

/-- A product of finite doubles is a number. -/
theorem isNaN_mul (hx : x.isFinite = true) (hy : y.isFinite = true) :
    (x * y).isNaN = false := by
  rw [isNaN_eq, parts_mul, isNaN_stored]
  rcases isFinite_cases hx with ⟨s, hx⟩ | ⟨s, m, e, hm, hx⟩
  · rcases isFinite_cases hy with ⟨t, hy⟩ | ⟨t, n, f, hn, hy⟩
    · rw [hx, hy]
      rfl
    · rw [hx, hy]
      rfl
  · rcases isFinite_cases hy with ⟨t, hy⟩ | ⟨t, n, f, hn, hy⟩
    · rw [hx, hy]
      rfl
    · rw [hx, hy]
      exact isNaN_roundWithAccuracy _ _ _ _

/-- A sum is a number if one of its terms is finite and the other is a number. -/
theorem isNaN_add (hx : x.isFinite = true) (hy : y.isNaN = false) : (x + y).isNaN = false := by
  rw [isNaN_eq] at hy
  rw [isNaN_eq, parts_add, isNaN_stored]
  rcases isFinite_cases hx with ⟨s, hx⟩ | ⟨s, m, e, hm, hx⟩
  · cases hpy : parts y with
    | notANumber =>
        rw [hpy] at hy
        exact absurd hy (by decide)
    | infinity t =>
        rw [hx]
        rfl
    | zero t =>
        rw [hx]
        cases s <;> cases t <;> rfl
    | finite t n f hn =>
        rw [hx]
        rfl
  · cases hpy : parts y with
    | notANumber =>
        rw [hpy] at hy
        exact absurd hy (by decide)
    | infinity t =>
        rw [hx]
        rfl
    | zero t =>
        rw [hx]
        rfl
    | finite t n f hn =>
        rw [hx]
        exact isNaN_normalize _ _ _

/-- A quotient of a finite double by one that is finite and not zero is a number. -/
theorem isNaN_div {s : Sign} {m : Nat} {e : Int} {hm : 0 < m} (hx : x.isFinite = true)
    (hy : parts y = .finite s m e hm) : (x / y).isNaN = false := by
  rw [isNaN_eq, parts_div, isNaN_stored, hy]
  rcases isFinite_cases hx with ⟨t, hx⟩ | ⟨t, n, f, hn, hx⟩
  · rw [hx]
    rfl
  · rw [hx]
    exact isNaN_roundWithAccuracy _ _ _ _

theorem isFinite_stored {u : UnpackedFloat} (h : u.isFinite = false) :
    (stored u).isFinite = false := by
  cases u with
  | notANumber => rw [stored_notANumber, h]
  | infinity s => rw [stored_infinity, h]
  | zero s => rw [stored_zero, h]
  | finite s m e hm => exact absurd h (by simp [UnpackedFloat.isFinite])

/-- What is infinite or no number makes every difference so. -/
theorem isFinite_sub {u v : UnpackedFloat} (h : u.isFinite = false ∨ v.isFinite = false) :
    (UnpackedFloat.sub Format.binary64 u v).isFinite = false := by
  cases u with
  | notANumber => rfl
  | infinity s =>
      cases v with
      | infinity t => cases s <;> cases t <;> rfl
      | _ => rfl
  | zero s =>
      cases v with
      | notANumber => rfl
      | infinity t => rfl
      | _ => exact absurd h (by simp [UnpackedFloat.isFinite])
  | finite s m e hm =>
      cases v with
      | notANumber => rfl
      | infinity t => rfl
      | _ => exact absurd h (by simp [UnpackedFloat.isFinite])

/-- A finite difference is one of finite doubles. -/
theorem isFinite_of_isFinite_sub (h : (x - y).isFinite = true) :
    x.isFinite = true ∧ y.isFinite = true := by
  rw [isFinite_eq, parts_sub] at h
  rw [isFinite_eq, isFinite_eq]
  have key : ¬ ((parts x).isFinite = false ∨ (parts y).isFinite = false) := by
    intro hno
    rw [isFinite_stored (isFinite_sub hno)] at h
    exact absurd h (by decide)
  simpa using key

/-- What is not finite, times zero, is no number, and no sum with it is one. -/
theorem isNaN_add_mul_zero {z : Float} {t : Sign} (x : Float) (hy : y.isFinite = false)
    (hz : parts z = .zero t) : (x + y * z).isNaN = true := by
  have hproduct : parts (y * z) = .notANumber := by
    rw [isFinite_eq] at hy
    rw [parts_mul, hz]
    cases hpy : parts y with
    | notANumber => cases t <;> rfl
    | infinity s => cases s <;> cases t <;> rfl
    | zero s =>
        rw [hpy] at hy
        exact absurd hy (by cases s <;> decide)
    | finite s m e hm =>
        rw [hpy] at hy
        exact absurd hy (by simp [UnpackedFloat.isFinite])
  rw [isNaN_eq, parts_add, isNaN_stored, hproduct]
  cases parts x <;> rfl

end LiveScene.Binary64
