import LiveScene.Binary64

/-!
# LiveScene.Duration

Lengths of time and points in time, as whole nanoseconds up to a longest one. Clocks start at
zero; sums stop at the longest duration and differences at zero, except for `add?`, which
tells when a sum does not fit.
-/

namespace LiveScene

/-- Nanoseconds in a second. -/
def nanosPerSecond : Nat := 1000000000

/-- The nanoseconds of the longest duration: seconds that fill a word of sixty-four bits, and
one nanosecond less than another. -/
def longestNanos : Nat := UInt64.size * nanosPerSecond - 1

/-- A length of time. -/
structure Duration where
  /-- The length in nanoseconds. -/
  nanos : Nat
  /-- No duration is longer than the longest. -/
  le_longest : nanos ≤ longestNanos
deriving DecidableEq

namespace Duration

/-- No time at all. -/
def zero : Duration := ⟨0, Nat.zero_le _⟩

instance : Inhabited Duration := ⟨zero⟩

/-- The longest duration. -/
def longest : Duration := ⟨longestNanos, Nat.le_refl _⟩

/-- The duration of a number of nanoseconds, or the longest. -/
def ofNanos (n : Nat) : Duration := ⟨min n longestNanos, Nat.min_le_right _ _⟩

/-- The duration of a number of milliseconds. -/
def ofMillis (ms : UInt64) : Duration where
  nanos := ms.toNat * 1000000
  le_longest := by
    have := ms.toNat_lt
    simp only [longestNanos, nanosPerSecond, UInt64.size]
    omega

instance : LE Duration := ⟨fun d e => d.nanos ≤ e.nanos⟩
instance : LT Duration := ⟨fun d e => d.nanos < e.nanos⟩

instance (d e : Duration) : Decidable (d ≤ e) := inferInstanceAs (Decidable (d.nanos ≤ e.nanos))
instance (d e : Duration) : Decidable (d < e) := inferInstanceAs (Decidable (d.nanos < e.nanos))

theorem le_def {d e : Duration} : d ≤ e ↔ d.nanos ≤ e.nanos := Iff.rfl

theorem lt_def {d e : Duration} : d < e ↔ d.nanos < e.nanos := Iff.rfl

@[ext] theorem ext_nanos {d e : Duration} (h : d.nanos = e.nanos) : d = e := by
  cases d; cases e; cases h; rfl

/-- The longer of two durations. -/
def longer (d e : Duration) : Duration := if d ≤ e then e else d

theorem le_longer_right (d e : Duration) : e ≤ d.longer e := by
  unfold longer
  split
  · exact Nat.le_refl _
  · next h => simp only [le_def] at h ⊢; omega

theorem nanos_longer (d e : Duration) : (d.longer e).nanos = max d.nanos e.nanos := by
  unfold longer
  split
  · next hle => exact (Nat.max_eq_right hle).symm
  · next hlt => exact (Nat.max_eq_left (Nat.le_of_not_le hlt)).symm

/-- The sum, or the longest duration. -/
def add (d e : Duration) : Duration := ofNanos (d.nanos + e.nanos)

instance : Add Duration := ⟨add⟩

@[simp] theorem nanos_add (d e : Duration) :
    (d + e).nanos = min (d.nanos + e.nanos) longestNanos := rfl

/-- The sum, if it is a duration. -/
def add? (d e : Duration) : Option Duration :=
  if h : d.nanos + e.nanos ≤ longestNanos then some ⟨d.nanos + e.nanos, h⟩ else none

/-- The difference, or no time at all. -/
def sub (d e : Duration) : Duration :=
  ⟨d.nanos - e.nanos, Nat.le_trans (Nat.sub_le _ _) d.le_longest⟩

instance : Sub Duration := ⟨sub⟩

@[simp] theorem nanos_sub (d e : Duration) : (d - e).nanos = d.nanos - e.nanos := rfl

/-- The length in seconds: the whole seconds and the rest of one are rounded each, and then
their sum. The whole seconds fit a word of sixty-four bits. -/
def toSeconds (d : Duration) : Float :=
  (UInt64.ofNat (d.nanos / nanosPerSecond)).toFloat
    + (UInt64.ofNat (d.nanos % nanosPerSecond)).toFloat / 1000000000.0

/-- The closest nanoseconds of a number of seconds. -/
def nanosOfSeconds (v : Binary64.Scaled) : Nat :=
  if 0 ≤ v.exponent then (v.significand <<< v.exponent.toNat) * nanosPerSecond
  else Binary64.roundDiv (v.significand * nanosPerSecond) (1 <<< (-v.exponent).toNat)

/-- The duration of a computed number of milliseconds. Negative numbers and what is no number
are no time, and what is too long is the longest duration. -/
def ofMilliseconds (ms : Float) : Duration :=
  let seconds := Binary64.greater ms 0 / 1000
  if seconds.isFinite then
    ofNanos (nanosOfSeconds (Binary64.Scaled.ofMagnitude (Binary64.magnitude seconds)))
  else longest

end Duration

end LiveScene
