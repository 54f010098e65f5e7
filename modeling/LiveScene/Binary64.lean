/-!
# LiveScene.Binary64

Doubles as exact fractions.

* The bits of a double below its sign are its *magnitude*, a natural number. Magnitudes of
  finite doubles are ordered as their values are, and the one after the greatest finite
  magnitude is that of infinity (`infinity`).
* A finite magnitude stands for `significand · 2 ^ exponent` (`Scaled.ofMagnitude`), and
  `nearest` is the way back from any fraction: the closest double, the even one of two.
* On these two rest the operations that need more than one rounding: decimal text
  (`LiveScene.Decimal`), the remainder, rounding to whole numbers, and lengths of time
  (`LiveScene.Duration`).
-/

namespace LiveScene.Binary64

/-- The magnitude of infinity. Greater ones are those of values that are no number. -/
def infinity : Nat := 2047 <<< 52

/-- The bits of a double without its sign. -/
def magnitude (x : Float) : Nat := x.toBits.toNat % (1 <<< 63)

/-- Whether the sign bit is set, as it is in minus zero. -/
def isNegative (x : Float) : Bool := decide (1 <<< 63 ≤ x.toBits.toNat)

/-- The double of a sign and a magnitude. -/
def signed (negative : Bool) (bits : Nat) : Float :=
  Float.ofBits (UInt64.ofNat (if negative then (1 <<< 63) + bits else bits))

/-- The value that is no number. -/
def nan : Float := 0.0 / 0.0

/-! ### Exact values -/

/-- The value `significand · 2 ^ exponent`. -/
structure Scaled where
  /-- The whole number that is scaled. -/
  significand : Nat
  /-- The power of two that it is scaled by. -/
  exponent : Int
deriving Repr, DecidableEq

/-- The value of a finite magnitude. The least exponent serves two rows of magnitudes: those
without a leading one, and the first row of those with it. -/
def Scaled.ofMagnitude (bits : Nat) : Scaled :=
  let row : Nat := bits >>> 52
  let fraction : Nat := bits % (1 <<< 52)
  if row = 0 then ⟨fraction, -1074⟩
  else ⟨(1 <<< 52) + fraction, (row : Int) - 1075⟩

/-- The whole number closest to a quotient, the even one of two. -/
def roundDiv (num den : Nat) : Nat :=
  let quotient := num / den
  let rest := num % den
  if 2 * rest < den then quotient
  else if den < 2 * rest then quotient + 1
  else quotient + quotient % 2

/-- The greatest `e` with `2 ^ e ≤ num / den`, for positive numbers. -/
def floorLog2 (num den : Nat) : Int :=
  let e : Int := (num.log2 : Int) - den.log2
  let reached :=
    if 0 ≤ e then den <<< e.toNat ≤ num else den ≤ num <<< (-e).toNat
  if reached then e else e - 1

/-- The magnitude closest to `num / den`, the even one of two; infinity from half a step above
the greatest finite one. The significand is rounded at the exponent that leaves it
fifty-three digits, or at the least one; a carry out of it counts the row up by one. -/
def nearest (num den : Nat) : Nat :=
  if num = 0 then 0
  else
    let exponent := max (-1074) (floorLog2 num den - 52)
    let significand :=
      if 0 ≤ exponent then roundDiv num (den <<< exponent.toNat)
      else roundDiv (num <<< (-exponent).toNat) den
    min infinity (((exponent + 1074).toNat <<< 52) + significand)

/-- The magnitude closest to a scaled value. -/
def Scaled.nearest (v : Scaled) : Nat :=
  if 0 ≤ v.exponent then Binary64.nearest (v.significand <<< v.exponent.toNat) 1
  else Binary64.nearest v.significand (1 <<< (-v.exponent).toNat)

/-- The double closest to a whole number. -/
def ofInt (i : Int) : Float := signed (decide (i < 0)) (nearest i.natAbs 1)

/-! ### Operations -/

/-- The greater of two doubles; a value that is no number gives way to the other. -/
def greater (x y : Float) : Float :=
  if x.isNaN then y else if x < y then y else x

/-- The smaller of two doubles; a value that is no number gives way to the other. -/
def smaller (x y : Float) : Float :=
  if x.isNaN then y else if y < x then y else x

/-- The value moved into a range. What is no number stays so. -/
def clamp (low high x : Float) : Float :=
  if x < low then low else if high < x then high else x

/-- The closest whole number, a half going away from zero. -/
def round (x : Float) : Float :=
  let v := Scaled.ofMagnitude (magnitude x)
  if 0 ≤ v.exponent then x
  else
    let places := (-v.exponent).toNat
    signed (isNegative x) (nearest ((v.significand + (1 <<< (places - 1))) >>> places) 1)

/-- What is left of `x` after taking away whole multiples of `y` toward zero: an exact value,
with the sign of `x`. -/
def remainder (x y : Float) : Float :=
  if !x.isFinite || y.isNaN || y == 0 then nan
  else if !y.isFinite then x
  else
    let v := Scaled.ofMagnitude (magnitude x)
    let w := Scaled.ofMagnitude (magnitude y)
    let exponent := min v.exponent w.exponent
    let whole (s : Scaled) : Nat := s.significand <<< (s.exponent - exponent).toNat
    signed (isNegative x) (Scaled.nearest ⟨whole v % whole w, exponent⟩)

/-- The number itself, and zero for what is no number. -/
def orZero (x : Float) : Float := if x.isNaN then 0 else x

/-! ### Functions of the library

What the library computes cannot be looked into. What it promises about zero and about the range
of its results is made part of the definitions; there is nothing else that they change. -/

/-- The exponential function: one at zero, and from zero to one below it. -/
def exp (x : Float) : Float :=
  if x == 0 then 1
  else if x < 0 then greater 0 (smaller 1 (Float.exp x))
  else Float.exp x

/-- The cosine: one at zero, and from minus one to one at every finite angle. -/
def cos (x : Float) : Float :=
  if x == 0 then 1
  else if x.isFinite then greater (-1) (smaller 1 (Float.cos x))
  else Float.cos x

end LiveScene.Binary64
