import LiveScene.Binary64

/-!
# LiveScene.Chance

Random numbers, drawn from an unending sequence of words. Whoever draws hands the rest of the
sequence on, so that a run depends on its sequence and on nothing else.
-/

namespace LiveScene

/-- Words of sixty-four bits, and the number of those that were drawn. -/
structure Chance where
  word : Nat → UInt64
  drawn : Nat := 0

namespace Chance

/-- Spreads the bits of a word over all of it. -/
def scramble (w : UInt64) : UInt64 :=
  let w := (w ^^^ (w >>> 30)) * 0xbf58476d1ce4e5b9
  let w := (w ^^^ (w >>> 27)) * 0x94d049bb133111eb
  w ^^^ (w >>> 31)

/-- The sequence of a seed: equal steps from it, scrambled. -/
def ofSeed (seed : UInt64) : Chance where
  word n := scramble (seed + UInt64.ofNat (n + 1) * 0x9e3779b97f4a7c15)

instance : Inhabited Chance := ⟨ofSeed 0⟩

/-- A number from zero up to, but not including, one: the leading digits of a word in base two,
as places behind the point. -/
def unit (c : Chance) (places : Nat) : Float × Chance :=
  (Binary64.ofInt ((c.word c.drawn).toNat >>> (64 - places) : Nat)
    / Binary64.ofInt (1 <<< places : Nat), { c with drawn := c.drawn + 1 })

/-- A number between two bounds, and nothing where a bound is not finite. The number is on its
way from `low` to `high`, and may be `high` only by rounding: between bounds that follow each
other there is nothing else. Where the bounds are in the wrong order it is `low`, and where their
distance is infinite, a mixture of both. -/
def draw (c : Chance) (low high : Float) : Option Float × Chance :=
  if !low.isFinite || !high.isFinite then (none, c)
  else if high ≤ low then (some low, c)
  else if (high - low).isFinite then
    let (t, c) := c.unit 52
    (some (t * (high - low) + low), c)
  else
    let (t, c) := c.unit 53
    (some (Binary64.clamp low high (low * (1 - t) + high * t)), c)

end Chance

end LiveScene
