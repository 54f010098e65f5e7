import LiveScene.Proofs.Timer.Frames
import LiveScene.Settings

/-!
# LiveScene.Proofs.Timer.Overflow

When a registry comes upon a time that is longer than any duration.

Sums of times stop at the longest duration, and frames are never shorter than a millisecond. What is
left is the length of an interval in frames. `TimerRequest.Overruns` says which requests come upon
one that is no duration, `overflowed_serve_iff` that no others do, and `overflowed_serveAll_iff`
says so for all requests in order. Settings with frames of up to `longestSafeFrameMs` rule it out
for all intervals.
-/

namespace LiveScene

/-- Whether a request comes upon an interval in frames that is no duration. -/
def TimerRequest.Overruns (s : Scheduler) : TimerRequest → Prop
  | .start _ _ spec _ cells =>
    spec.family = .frame ∧ (spec.interval.resolve cells).1.Overruns s.frame
  | .due owner family _ cells =>
    family = .frame ∧ ∃ id t, s.timer? owner id = some t ∧ t.spec.family = .frame ∧
      (t.reading cells).Overruns s.frame
  | _ => False

/-! ### One request -/

theorem Timer.overflowed_ask_iff {family : TimerFamily} {frame now : Duration}
    {cells : CellStore} {t : Timer} (hframe : 0 < frame.nanos) :
    (Timer.ask family frame now cells t).overflowed = true ↔
      family = .frame ∧ t.spec.family = .frame ∧ (t.reading cells).Overruns frame := by
  by_cases hfamily : t.spec.family = family
  · cases family with
    | frame =>
        rw [Timer.ask_of_frame hfamily, ← Duration.quantize?_eq_none_iff hframe]
        cases (t.reading cells).quantize? frame with
        | none => simp [hfamily]
        | some d => by_cases hdue : t.lastFired + d ≤ now <;> simp [hdue]
    | wallClock =>
        rw [Timer.ask_of_wallClock hfamily]
        split <;> simp
  · rw [Timer.ask_of_ne hfamily]
    constructor
    · intro h
      cases h
    · rintro ⟨rfl, hframe', -⟩
      exact absurd hframe' hfamily

namespace Scheduler

variable {s : Scheduler}

theorem started?_eq_none_iff {spec : TimerSpec} {now : Duration} {cells : CellStore} :
    s.started? spec now cells = none ↔
      spec.family = .frame ∧ (spec.interval.resolve cells).1.Overruns s.frame := by
  rw [started?, Option.map_eq_none_iff, ← Duration.quantize?_eq_none_iff s.frame_pos]
  unfold effective?
  cases spec.family <;> simp

theorem overflowed_stop (s : Scheduler) (owner id : String) :
    (s.stop owner id).1.overflowed = s.overflowed := by
  unfold stop
  split <;> rfl

theorem overflowed_start_iff {owner id : String} {spec : TimerSpec} {now : Duration}
    {cells : CellStore} :
    (s.start owner id spec now cells).overflowed = true ↔
      s.overflowed = true ∨ s.started? spec now cells = none := by
  have hstop := s.overflowed_stop owner id
  rw [start_eq]
  cases s.started? spec now cells with
  | none => simp
  | some t =>
      show (s.stop owner id).1.overflowed = true ↔ _
      simp [hstop]

theorem overflowed_due_iff {owner : String} {family : TimerFamily} {now : Duration}
    {cells : CellStore} :
    (s.due owner family now cells).1.overflowed = true ↔
      s.overflowed = true ∨ ∃ id t, s.timer? owner id = some t ∧
        (Timer.ask family s.frame now cells t).overflowed = true := by
  rw [due]
  cases htimers : s.timers.get? owner with
  | none => simp [timer?, timersOf, htimers]
  | some timers =>
      simp only [timer?, timersOf, htimers, Option.getD_some, Bool.or_eq_true,
        List.any_eq_true, Prod.exists, Dict.mem_entries_iff]

/-- A request comes upon a time that is no duration only if it overruns. -/
theorem overflowed_serve_iff {r : TimerRequest} :
    (s.serve r).overflowed = true ↔ s.overflowed = true ∨ r.Overruns s := by
  cases r with
  | start owner id spec now cells =>
      rw [serve, overflowed_start_iff, started?_eq_none_iff]
      rfl
  | stop owner id => simp [serve, overflowed_stop, TimerRequest.Overruns]
  | stopAll owner => simp [serve, stopAll, TimerRequest.Overruns]
  | due owner family now cells =>
      rw [serve, overflowed_due_iff, TimerRequest.Overruns]
      simp only [Timer.overflowed_ask_iff s.frame_pos]
      refine or_congr_right ⟨?_, ?_⟩
      · rintro ⟨id, t, ht, hfamily, hrest⟩
        exact ⟨hfamily, id, t, ht, hrest⟩
      · rintro ⟨hfamily, id, t, ht, hrest⟩
        exact ⟨id, t, ht, hfamily, hrest⟩

/-! ### Requests in order -/

theorem overflowed_serveAll_iff {rs : List TimerRequest} :
    (s.serveAll rs).overflowed = true ↔
      s.overflowed = true ∨
        ∃ before r after, rs = before ++ r :: after ∧ r.Overruns (s.serveAll before) := by
  induction rs generalizing s with
  | nil => simp
  | cons r rest ih =>
      rw [serveAll_cons, ih, overflowed_serve_iff, or_assoc]
      refine or_congr_right ⟨?_, ?_⟩
      · rintro (hfirst | ⟨before, q, after, rfl, hq⟩)
        · exact ⟨[], r, rest, rfl, hfirst⟩
        · exact ⟨r :: before, q, after, rfl, hq⟩
      · rintro ⟨before, q, after, hsplit, hq⟩
        cases before with
        | nil =>
            cases hsplit
            exact Or.inl hq
        | cons first before =>
            cases hsplit
            exact Or.inr ⟨before, q, after, rfl, hq⟩

theorem wholeFrames_lt_of_overruns {r : TimerRequest} (h : r.Overruns s) :
    s.frame.wholeFrames < Duration.greatestFrames := by
  cases r with
  | start => exact h.2.1
  | due =>
      obtain ⟨-, id, t, -, -, hoverruns⟩ := h
      exact hoverruns.1
  | stop | stopAll => cases h

/-! ### Settings -/

/-- The milliseconds of the longest frame of which as many as can be counted are a duration: about a
hundred and thirty-six years. -/
def longestSafeFrameMs : UInt64 := 4294967297000

theorem nanos_frame_new (settings : FrameSettings) :
    (new settings.interval).frame.nanos = max settings.intervalMs.toNat 1 * 1000000 := by
  have hmax : (max settings.intervalMs 1).toNat = max settings.intervalMs.toNat 1 :=
    UInt64.toNat_max _ _
  have hnew : (new settings.interval).frame.nanos =
      max ((max settings.intervalMs 1).toNat * 1000000) (1 * 1000000) :=
    Duration.nanos_longer _ _
  rw [hnew, hmax]
  omega

/-- The frames of settings are safe up to a length. -/
theorem wholeFrames_new_lt_iff (settings : FrameSettings) :
    (new settings.interval).frame.wholeFrames < Duration.greatestFrames ↔
      longestSafeFrameMs < settings.intervalMs := by
  have hlongest : longestNanos = 18446744073709551615999999999 := rfl
  have hgreatest : Duration.greatestFrames = 4294967295 := rfl
  have hsafe : longestSafeFrameMs.toNat = 4294967297000 := rfl
  rw [Duration.wholeFrames, Nat.div_lt_iff_lt_mul (frame_pos _), nanos_frame_new,
    UInt64.lt_iff_toNat_lt, hlongest, hgreatest, hsafe]
  omega

/-- The longest duration is no whole number of milliseconds, so no frames end with it. -/
theorem longest_overruns {settings : FrameSettings}
    (h : longestSafeFrameMs < settings.intervalMs) :
    Duration.longest.Overruns (new settings.interval).frame := by
  refine ⟨(wholeFrames_new_lt_iff settings).mpr h, ?_⟩
  have hle : (new settings.interval).frame.nanos * (new settings.interval).frame.wholeFrames ≤
      longestNanos := Nat.mul_div_le _ _
  have hrest : longestNanos % 1000000 = 999999 := by decide
  show _ < longestNanos
  rw [nanos_frame_new, Nat.mul_right_comm] at hle ⊢
  omega

/-- A timer by frames that never comes: its milliseconds are more than a duration can hold. -/
def rare : TimerSpec := ⟨.ofSpec (.millis 1e25), .actions [], .frame, true, ∅⟩

theorem reading_rare (cells : CellStore) : (rare.interval.resolve cells).1 = .longest := by
  have hhuge : Duration.ofMilliseconds 1e25 = .longest := by decide +kernel
  simp only [rare, Interval.ofSpec, Interval.resolve, hhuge]

/-- Whatever is asked of the registry of a scene, it comes upon a time that is longer than any
duration just when a timer by frames is started or asked whose interval is longer than the whole
frames that a duration can hold, where so many can be counted. Just the settings with frames of up
to `longestSafeFrameMs` rule this out. -/
theorem overflows_iff (settings : FrameSettings) :
    (∀ rs, ((new settings.interval).serveAll rs).overflowed = true ↔
      ∃ before r after, rs = before ++ r :: after ∧
        r.Overruns ((new settings.interval).serveAll before)) ∧
      ((∀ rs, ((new settings.interval).serveAll rs).overflowed = false) ↔
        settings.intervalMs ≤ longestSafeFrameMs) := by
  have hruns : ∀ rs, ((new settings.interval).serveAll rs).overflowed = true ↔
      ∃ before r after, rs = before ++ r :: after ∧
        r.Overruns ((new settings.interval).serveAll before) := by
    intro rs
    rw [overflowed_serveAll_iff]
    exact or_iff_right Bool.false_ne_true
  refine ⟨hruns, ?_, ?_⟩
  · intro hnever
    by_contra hlong
    have hstart : TimerRequest.Overruns (new settings.interval)
        (.start "scene" "rare" rare .zero (.new "scene")) := by
      refine ⟨rfl, ?_⟩
      rw [reading_rare]
      exact longest_overruns (UInt64.not_le.mp hlong)
    have hoverflowed := (hruns [.start "scene" "rare" rare .zero (.new "scene")]).mpr
      ⟨[], _, [], rfl, hstart⟩
    rw [hnever] at hoverflowed
    cases hoverflowed
  · intro hsafe rs
    rw [← Bool.not_eq_true, hruns]
    rintro ⟨before, r, after, -, hr⟩
    have hfew := wholeFrames_lt_of_overruns hr
    rw [frame_serveAll, wholeFrames_new_lt_iff] at hfew
    exact UInt64.not_lt.mpr hsafe hfew

/-- With frames of ten billion seconds the rare timer cannot be started. -/
theorem overflowed_rare :
    ((new (FrameSettings.interval ⟨10000000000000⟩)).start "scene" "rare" rare .zero
      (.new "scene")).overflowed = true := by
  decide +kernel

end Scheduler

end LiveScene
