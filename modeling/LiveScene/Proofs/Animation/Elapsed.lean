import LiveScene.Proofs.Animation.Progress
import LiveScene.Proofs.Binary64.Operations

/-!
# LiveScene.Proofs.Animation.Elapsed

When the time of a tween is over.

* A longer time is not shorter in seconds (`value_toSeconds_le`), although the whole seconds and the
  rest of one are rounded apart: from `2 ^ 53` seconds on the rest is lost.
* So the part of its length that a tween has behind it is one at least as soon as the length has
  passed (`Tween.one_le_progress_of_le`).
-/

namespace LiveScene

open Binary64

namespace Duration

variable {d e : Duration}

/-- The whole seconds of a length. -/
def wholeSeconds (d : Duration) : ℕ := d.nanos / nanosPerSecond

/-- The part of a second that is left of a length. -/
def restOfSecond (d : Duration) : ℚ := closest ((d.nanos % nanosPerSecond : ℕ) / 10 ^ 9)

theorem restOfSecond_nonneg (d : Duration) : 0 ≤ d.restOfSecond :=
  closest_nonneg (by positivity)

/-- The part of a second is less than one, and so is the closest double. -/
theorem restOfSecond_le (d : Duration) : d.restOfSecond ≤ 1 - 2 ^ (-53 : ℤ) := by
  have hlast : d.nanos % nanosPerSecond ≤ 999999999 :=
    Nat.le_of_lt_succ (Nat.mod_lt _ (by decide))
  have hcast : ((d.nanos % nanosPerSecond : ℕ) : ℚ) ≤ 999999999 := by exact_mod_cast hlast
  have hle : ((d.nanos % nanosPerSecond : ℕ) : ℚ) / 10 ^ 9 ≤
      ((2 ^ 53 - 1 : ℤ) : ℚ) * 2 ^ (-53 : ℤ) := by
    rw [div_le_iff₀ (by norm_num)]
    refine hcast.trans ?_
    norm_num
  have hmono := closest_mono hle
  rw [closest_of_digits (by norm_num) (by norm_num)] at hmono
  refine hmono.trans (le_of_eq ?_)
  norm_num

theorem value_billion : value 1000000000.0 = 10 ^ 9 := by
  rw [value_of_parts parts_billion, exact_positive]
  norm_num

/-- The whole seconds and the rest are rounded each, and then their sum. -/
theorem value_toSeconds (d : Duration) :
    value d.toSeconds = closest (closest d.wholeSeconds + d.restOfSecond) := by
  have hwhole := (below_toFloat (UInt64.ofNat (d.nanos / nanosPerSecond))).isFinite
  have hrest := (below_rest (UInt64.ofNat (d.nanos % nanosPerSecond))).isFinite
  have hrest' := (below_toFloat (UInt64.ofNat (d.nanos % nanosPerSecond))).isFinite
  have hbillion : (1000000000.0 : Float).isFinite = true := by rfl
  rw [toSeconds, (rounds_add hwhole hrest).value_eq d.isFinite_toSeconds,
    (rounds_toFloat _).value_eq hwhole, toNat_wholeSeconds,
    (rounds_div hrest' hbillion (by rw [value_billion]; norm_num)).value_eq hrest,
    (rounds_toFloat _).value_eq hrest', toNat_rest, value_billion, restOfSecond, wholeSeconds]
  have hlt : d.nanos % nanosPerSecond < 10 ^ 9 := Nat.mod_lt _ (by decide)
  have hexact : closest ((d.nanos % nanosPerSecond : ℕ) : ℚ) = (d.nanos % nanosPerSecond : ℕ) :=
    closest_natCast (by omega)
  rw [hexact]

/-- More whole seconds outweigh the rest of one. -/
theorem value_toSeconds_le_of_lt (h : d.wholeSeconds < e.wholeSeconds) :
    value d.toSeconds ≤ value e.toSeconds := by
  have hd := d.restOfSecond_nonneg
  have hd' : d.restOfSecond < 1 := lt_of_le_of_lt d.restOfSecond_le (by norm_num)
  have he := e.restOfSecond_nonneg
  have hmono : closest d.wholeSeconds ≤ closest e.wholeSeconds :=
    closest_mono (by exact_mod_cast h.le)
  obtain ⟨m, hm⟩ := exists_closest_intCast d.wholeSeconds
  obtain ⟨n, hn⟩ := exists_closest_intCast e.wholeSeconds
  rw [Int.cast_natCast] at hm hn
  rw [value_toSeconds, value_toSeconds]
  rcases lt_or_eq_of_le hmono with hlt | heq
  · refine closest_mono ?_
    rw [hm, hn] at hlt ⊢
    have hstep : (m : ℚ) + 1 ≤ n := by exact_mod_cast (by exact_mod_cast hlt : m < n)
    linarith
  · -- Whole seconds that are rounded to one number are so many that the rest is lost.
    have hunit : (2 : ℚ) ^ (1 : ℤ) ≤ 2 ^ spacing (closest d.wholeSeconds) :=
      two_zpow_le (one_le_spacing (le_closest_of_eq h heq))
    rw [zpow_one] at hunit
    have hlost := closest_add_of_lt (closest_closest d.wholeSeconds)
      (closest_nonneg (Nat.cast_nonneg _)) hd (by linarith)
    calc closest (closest d.wholeSeconds + d.restOfSecond) = closest (closest e.wholeSeconds) := by
          rw [hlost, heq, closest_closest]
      _ ≤ closest (closest e.wholeSeconds + e.restOfSecond) := closest_mono (by linarith)

/-- A longer time is not shorter in seconds. -/
theorem value_toSeconds_le (h : d ≤ e) : value d.toSeconds ≤ value e.toSeconds := by
  rw [le_def] at h
  have hle : d.wholeSeconds ≤ e.wholeSeconds := Nat.div_le_div_right h
  rcases lt_or_eq_of_le hle with hlt | heq
  · exact value_toSeconds_le_of_lt hlt
  · have hrest : d.nanos % nanosPerSecond ≤ e.nanos % nanosPerSecond := by
      have hd := Nat.div_add_mod d.nanos nanosPerSecond
      have he := Nat.div_add_mod e.nanos nanosPerSecond
      have hsame : d.nanos / nanosPerSecond = e.nanos / nanosPerSecond := heq
      rw [hsame] at hd
      omega
    have hmono : d.restOfSecond ≤ e.restOfSecond :=
      closest_mono (div_le_div_of_nonneg_right (by exact_mod_cast hrest) (by norm_num))
    rw [value_toSeconds, value_toSeconds, heq]
    exact closest_mono (by linarith)

theorem value_toSeconds_pos (h : d.nanos ≠ 0) : 0 < value d.toSeconds := by
  obtain ⟨m, e, hm, hparts⟩ := positive_toSeconds h
  rw [value_of_parts hparts, exact_positive]
  exact natCast_mul_pos hm e

end Duration

namespace Tween

/-- A tween whose length has passed has all of its time behind it. -/
theorem one_le_progress_of_le {length elapsed : Duration} (h : length ≤ elapsed) :
    1 ≤ progress length elapsed := by
  rw [progress]
  split
  · decide
  · next hne =>
      have hpos := Duration.value_toSeconds_pos hne
      refine (rounds_div elapsed.isFinite_toSeconds length.isFinite_toSeconds hpos.ne').le_of_le
        isFinite_one ?_
      rw [value_one, one_le_div hpos]
      exact Duration.value_toSeconds_le h

end Tween

end LiveScene
