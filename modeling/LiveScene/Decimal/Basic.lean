import LiveScene.Binary64

/-!
# LiveScene.Decimal.Basic

Decimal numbers and the two ways between them and doubles: the closest double of a decimal
(`Decimal.nearest`), and the decimal with the fewest digits that has a given double as its
closest one (`Decimal.shortest`).

* The search for the shortest decimal starts from the exact decimal value of the double and
  drops as many digits as it can. A grid of decimals that holds any that reads back holds one
  of the value's two neighbours, so only these are tried, and each is tried by reading it.
* With no digit dropped the exact value itself is left, which reads back as well. So what is
  found reads back in every case.
-/

namespace LiveScene

/-- The number `coefficient · 10 ^ exponent`. -/
structure Decimal where
  /-- The digits, as a whole number. -/
  coefficient : Nat
  /-- The power of ten that they are scaled by. -/
  exponent : Int
deriving Repr, DecidableEq

/-- Which of two equally close neighbours is taken. -/
inductive Tie where
  /-- The greater one. -/
  | up
  /-- The one whose last digit is even. -/
  | even
deriving Repr, DecidableEq

namespace Decimal

/-- The magnitude of the double closest to a decimal. Exponents that lie far outside the range
of doubles are answered without their powers of ten. -/
def nearest (d : Decimal) : Nat :=
  if d.coefficient = 0 then 0
  else if 400 < d.exponent then Binary64.infinity
  else if d.exponent < -(400 + d.coefficient.log2 : Int) then 0
  else if 0 ≤ d.exponent then Binary64.nearest (d.coefficient * Nat.pow 10 d.exponent.toNat) 1
  else Binary64.nearest d.coefficient (Nat.pow 10 (-d.exponent).toNat)

/-- The decimal that is exactly a scaled value: a power of two below one is a power of five
over a power of ten. -/
def ofScaled (v : Binary64.Scaled) : Decimal :=
  if 0 ≤ v.exponent then ⟨v.significand <<< v.exponent.toNat, 0⟩
  else ⟨v.significand * Nat.pow 5 (-v.exponent).toNat, v.exponent⟩

/-- The number of digits of a whole number. -/
def digitCount (n : Nat) : Nat := (Nat.toDigits 10 n).length

/-- The neighbour of `exact` that has `bits` as its closest magnitude, on the grid of decimals
with `dropped` digits less; of two the closer one. -/
def neighbour? (tie : Tie) (bits : Nat) (exact : Decimal) (dropped : Nat) : Option Decimal :=
  let unit := Nat.pow 10 dropped
  let rest := exact.coefficient % unit
  let low : Decimal := ⟨exact.coefficient / unit, exact.exponent + dropped⟩
  let high : Decimal := ⟨exact.coefficient / unit + 1, exact.exponent + dropped⟩
  if low.nearest = bits then
    if high.nearest = bits then
      if 2 * rest < unit then some low
      else if unit < 2 * rest then some high
      else
        match tie with
        | .up => some high
        | .even => some (if low.coefficient % 2 = 0 then low else high)
    else some low
  else if high.nearest = bits then some high
  else none

/-- The first hit on the grids with `dropped` digits less, then one less, and so on; at the
end the exact value. -/
def search (tie : Tie) (bits : Nat) (exact : Decimal) : Nat → Decimal
  | 0 => exact
  | dropped + 1 =>
    match neighbour? tie bits exact (dropped + 1) with
    | some found => found
    | none => search tie bits exact dropped

/-- The decimal with the fewest digits that reads back as a finite magnitude. -/
def shortest (tie : Tie) (bits : Nat) : Decimal :=
  let exact := ofScaled (Binary64.Scaled.ofMagnitude bits)
  search tie bits exact (digitCount exact.coefficient - 1)

theorem nearest_neighbour? {tie : Tie} {bits : Nat} {exact found : Decimal} {dropped : Nat}
    (h : neighbour? tie bits exact dropped = some found) : found.nearest = bits := by
  simp only [neighbour?] at h
  split at h
  · next low =>
    split at h
    · next high =>
      split at h
      · rw [← Option.some.inj h]; exact low
      · split at h
        · rw [← Option.some.inj h]; exact high
        · cases tie <;> simp only [Option.some.injEq] at h <;> rw [← h]
          · exact high
          · split
            · exact low
            · exact high
    · rw [← Option.some.inj h]; exact low
  · split at h
    · next high => rw [← Option.some.inj h]; exact high
    · simp at h

/-- What the search finds reads back, if the exact value does. -/
theorem nearest_search {tie : Tie} {bits : Nat} {exact : Decimal} (h : exact.nearest = bits)
    (dropped : Nat) : (search tie bits exact dropped).nearest = bits := by
  induction dropped with
  | zero => exact h
  | succ dropped ih =>
    rw [search]
    split
    · next found => exact nearest_neighbour? found
    · exact ih

end Decimal

end LiveScene
