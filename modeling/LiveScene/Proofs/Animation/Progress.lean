import LiveScene.Proofs.Binary64.Bounds
import LiveScene.Animation.Animator

/-!
# LiveScene.Proofs.Animation.Progress

The part of its time that a tween has behind it is a number, and zero at its first frame.

It is a quotient of two lengths in seconds. Each is a finite double, and that of a length which is
not zero is positive: neither the whole seconds nor the rest of one vanish in rounding.
-/

namespace LiveScene

open Binary64

/-! ### Lengths in seconds -/

namespace Duration

theorem parts_toFloat_of_eq_zero {n : UInt64} (h : n.toNat = 0) :
    parts n.toFloat = .zero .positive := by
  have hn : n = 0 := UInt64.toNat_inj.mp h
  subst hn
  rfl

theorem below_toFloat (n : UInt64) : Below 65 n.toFloat := by
  by_cases h : n.toNat = 0
  · exact Or.inl ⟨.positive, parts_toFloat_of_eq_zero h⟩
  · obtain ⟨m, e, hm, hparts, -, hplace⟩ := parts_toFloat_of_pos (Nat.pos_of_ne_zero h)
    exact Or.inr ⟨.positive, m, e, hm, hparts, hplace⟩

theorem parts_billion :
    parts 1000000000.0 = .finite .positive (1000000000 * 2 ^ 23) (-23) (by decide) := by
  rfl

theorem rest_of_pos {n : UInt64} (h : 0 < n.toNat) :
    Positive (n.toFloat / 1000000000.0) ∧ Below 65 (n.toFloat / 1000000000.0) := by
  obtain ⟨m, e, hm, hparts, hlow, hup⟩ := parts_toFloat_of_pos h
  have hbillion : Float.Model.totalExponent (1000000000 * 2 ^ 23) (-23) = 30 := by decide
  obtain ⟨hpositive, hbelow⟩ := Positive.div hparts parts_billion (by omega) (by omega)
  exact ⟨hpositive, hbelow.mono (by omega)⟩

theorem rest_of_eq_zero {n : UInt64} (h : n.toNat = 0) :
    ∃ s, parts (n.toFloat / 1000000000.0) = .zero s := by
  refine ⟨.positive, ?_⟩
  rw [parts_div, parts_toFloat_of_eq_zero h, parts_billion]
  exact stored_zero .positive

theorem below_rest (n : UInt64) : Below 65 (n.toFloat / 1000000000.0) := by
  by_cases h : n.toNat = 0
  · exact Or.inl (rest_of_eq_zero h)
  · exact (rest_of_pos (Nat.pos_of_ne_zero h)).2

theorem isFinite_toSeconds (d : Duration) : d.toSeconds.isFinite = true :=
  ((below_toFloat _).add (below_rest _) (by decide)).isFinite

/-- The whole seconds of a length fit a word. -/
theorem toNat_wholeSeconds (d : Duration) :
    (UInt64.ofNat (d.nanos / nanosPerSecond)).toNat = d.nanos / nanosPerSecond := by
  have hle := d.le_longest
  rw [UInt64.toNat_ofNat', Nat.mod_eq_of_lt]
  simp only [longestNanos, nanosPerSecond, UInt64.size] at hle ⊢
  omega

theorem toNat_rest (d : Duration) :
    (UInt64.ofNat (d.nanos % nanosPerSecond)).toNat = d.nanos % nanosPerSecond := by
  rw [UInt64.toNat_ofNat', Nat.mod_eq_of_lt]
  simp only [nanosPerSecond]
  omega

/-- A length that is not zero is not zero in seconds. -/
theorem positive_toSeconds {d : Duration} (h : d.nanos ≠ 0) : Positive d.toSeconds := by
  have hwhole := d.toNat_wholeSeconds
  have hrest := d.toNat_rest
  unfold toSeconds
  -- A length that is not zero has whole seconds or a rest.
  by_cases hw : (UInt64.ofNat (d.nanos / nanosPerSecond)).toNat = 0
  · have hr : 0 < (UInt64.ofNat (d.nanos % nanosPerSecond)).toNat := by
      rw [hrest]
      rw [hwhole] at hw
      simp only [nanosPerSecond] at hw ⊢
      omega
    exact Positive.zero_add (parts_toFloat_of_eq_zero hw) (rest_of_pos hr).1
  · obtain ⟨m, e, hm, hparts, -, -⟩ := parts_toFloat_of_pos (Nat.pos_of_ne_zero hw)
    have hpositive : Positive (UInt64.ofNat (d.nanos / nanosPerSecond)).toFloat :=
      ⟨m, e, hm, hparts⟩
    by_cases hr : (UInt64.ofNat (d.nanos % nanosPerSecond)).toNat = 0
    · obtain ⟨s, hs⟩ := rest_of_eq_zero hr
      exact hpositive.add_zero hs
    · exact hpositive.add (rest_of_pos (Nat.pos_of_ne_zero hr)).1 (below_toFloat _) (below_rest _)
        (by decide)

end Duration

namespace Tween

theorem isNaN_progress (length elapsed : Duration) : (progress length elapsed).isNaN = false := by
  unfold progress
  split
  · rfl
  · next h =>
      obtain ⟨m, e, hm, hparts⟩ := Duration.positive_toSeconds h
      exact isNaN_div (Duration.isFinite_toSeconds elapsed) hparts

/-- At its first frame a tween has nothing of its time behind it. -/
theorem progress_first {length : Duration} (h : length.nanos ≠ 0) (now : Duration) :
    progress length (now - now) = 0 := by
  obtain ⟨m, e, hm, hparts⟩ := Duration.positive_toSeconds h
  have hnone : now - now = Duration.zero := Duration.ext_nanos (Nat.sub_self now.nanos)
  have hzero : parts Duration.zero.toSeconds = .zero .positive := by rfl
  refine parts_inj ?_
  rw [progress, if_neg h, hnone, parts_div, hzero, hparts]
  exact stored_zero .positive

end Tween

end LiveScene
