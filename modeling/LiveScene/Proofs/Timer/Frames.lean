import LiveScene.Proofs.Timer.Cadence
import Mathlib.Algebra.Order.Floor.Div

/-!
# LiveScene.Proofs.Timer.Frames

A timer that is asked with each frame.

* A length is rounded up to frames, of which no more than `greatestFrames` are counted. So the
  frames cover the length only up to that number (`le_quantize?_iff`), and they are no duration
  only if the longest duration ends before them (`quantize?_eq_none_iff`).
* A timer counts from its start or from the last time it was handed over, whichever is later
  (`getLast?_begins`). What it counts to is read anew at each question.
-/

namespace LiveScene

/-! ### Rounding -/

namespace Duration

variable {length frame d : Duration}

/-- The number of whole frames in the longest duration. -/
def wholeFrames (frame : Duration) : Nat := longestNanos / frame.nanos

/-- Whether a length, rounded up to frames, is longer than any duration: the whole frames in the
longest duration do not cover it, and more of them can be counted. -/
def Overruns (length frame : Duration) : Prop :=
  frame.wholeFrames < greatestFrames ∧ frame.nanos * frame.wholeFrames < length.nanos

theorem one_le_frameCount (length frame : Duration) : 1 ≤ frameCount length frame :=
  le_min (le_max_right _ _) (by decide)

theorem frameCount_le_greatest (length frame : Duration) :
    frameCount length frame ≤ greatestFrames := min_le_right _ _

/-- As many frames are counted as cover the length. -/
theorem frameCount_le_iff (hframe : 0 < frame.nanos) {k : Nat} (hpos : 1 ≤ k)
    (hk : k < greatestFrames) :
    frameCount length frame ≤ k ↔ length.nanos ≤ frame.nanos * k := by
  rw [← ceilDiv_le_iff_le_mul hframe, Nat.ceilDiv_eq_add_pred_div, frameCount]
  omega

theorem quantize?_eq_some (h : length.quantize? frame = some d) :
    d.nanos = frame.nanos * frameCount length frame := by
  unfold quantize? at h
  dsimp only at h
  split at h
  · cases h
    rfl
  · cases h

/-- The frames cover the length if those that can be counted do. -/
theorem le_quantize?_iff (hframe : 0 < frame.nanos) (h : length.quantize? frame = some d) :
    length ≤ d ↔ length.nanos ≤ frame.nanos * greatestFrames := by
  rw [le_def, quantize?_eq_some h]
  rcases Nat.lt_or_ge (frameCount length frame) greatestFrames with hlt | hge
  · have hcovered := (frameCount_le_iff hframe (one_le_frameCount length frame) hlt).mp le_rfl
    have hmore : frame.nanos * frameCount length frame ≤ frame.nanos * greatestFrames :=
      Nat.mul_le_mul_left _ hlt.le
    omega
  · rw [le_antisymm (frameCount_le_greatest length frame) hge]

theorem one_le_wholeFrames (hframe : 0 < frame.nanos) : 1 ≤ frame.wholeFrames :=
  Nat.div_pos frame.le_longest hframe

/-- The frames are no duration if the length overruns. -/
theorem quantize?_eq_none_iff (hframe : 0 < frame.nanos) :
    length.quantize? frame = none ↔ length.Overruns frame := by
  have hfits : frame.nanos * frameCount length frame ≤ longestNanos ↔
      frameCount length frame ≤ frame.wholeFrames := by
    rw [wholeFrames, Nat.le_div_iff_mul_le hframe, Nat.mul_comm]
  have hnone : length.quantize? frame = none ↔
      ¬ frameCount length frame ≤ frame.wholeFrames := by
    rw [← hfits, quantize?]
    simp
  rw [hnone, Overruns]
  rcases Nat.lt_or_ge frame.wholeFrames greatestFrames with hlt | hge
  · rw [frameCount_le_iff hframe (one_le_wholeFrames hframe) hlt]
    omega
  · have := frameCount_le_greatest length frame
    omega

end Duration

/-! ### One timer -/

namespace Timer

variable {t : Timer} {family : TimerFamily} {frame now : Duration} {cells : CellStore}

/-- The interval of a timer as it is read now. -/
def reading (t : Timer) (cells : CellStore) : Duration := (t.spec.interval.resolve cells).1

/-- The timer after its interval was read. -/
def reread (t : Timer) (cells : CellStore) : Timer :=
  { t with spec := { t.spec with interval := (t.spec.interval.resolve cells).2 } }

/-- A timer that is not of the family is left alone. -/
theorem ask_of_ne (h : t.spec.family ≠ family) :
    ask family frame now cells t = ⟨some t, false, false⟩ := if_neg h

/-- A timer by frames is due when as many frames have passed as its interval is rounded to. -/
theorem ask_of_frame (h : t.spec.family = .frame) :
    ask .frame frame now cells t =
      match (t.reading cells).quantize? frame with
      | none => ⟨some (t.reread cells), false, true⟩
      | some d =>
        if t.lastFired + d ≤ now then
          ⟨if t.spec.repeats then some ((t.reread cells).advance now) else none, true, false⟩
        else ⟨some (t.reread cells), false, false⟩ := by
  have hdue : t.dueAt? frame cells =
      (((t.reading cells).quantize? frame).map (t.lastFired + ·), t.reread cells) := by
    rw [dueAt?, h]
    rfl
  have hrepeats : (t.reread cells).spec.repeats = t.spec.repeats := rfl
  rw [ask, if_pos h, hdue]
  cases (t.reading cells).quantize? frame with
  | none => rfl
  | some d =>
      have hle : t.lastFired + d ≤ now ↔ ¬ now < t.lastFired + d := by
        rw [Duration.le_def, Duration.lt_def, Nat.not_lt]
      by_cases hlt : now < t.lastFired + d
      · simp [hlt, hle]
      · cases hkind : t.spec.repeats <;> simp [hlt, hle, hrepeats, hkind]

/-- The timer after a question to a family. By frames its interval was read. -/
def asked (t : Timer) (family : TimerFamily) (cells : CellStore) : Timer :=
  if t.spec.family = family ∧ family = .frame then t.reread cells else t

@[simp] theorem resolved_asked : (t.asked family cells).resolved = t.resolved := by
  unfold asked; split <;> rfl

@[simp] theorem lastFired_asked : (t.asked family cells).lastFired = t.lastFired := by
  unfold asked; split <;> rfl

@[simp] theorem nextDue_asked : (t.asked family cells).nextDue = t.nextDue := by
  unfold asked; split <;> rfl

/-- What a question leaves of a timer. -/
theorem kept_ask (family : TimerFamily) (frame now : Duration) (cells : CellStore) (t : Timer) :
    (ask family frame now cells t).kept =
      if (ask family frame now cells t).fired = true then
        if t.spec.repeats then some ((t.asked family cells).advance now) else none
      else some (t.asked family cells) := by
  by_cases hfamily : t.spec.family = family
  · cases family with
    | frame =>
        rw [ask_of_frame hfamily]
        cases hrounded : (t.reading cells).quantize? frame with
        | none => simp [asked, hfamily]
        | some d => by_cases hdue : t.lastFired + d ≤ now <;> simp [asked, hfamily, hdue]
    | wallClock =>
        rw [ask_of_wallClock hfamily]
        by_cases hdue : t.nextDue ≤ now <;> simp [asked, hdue]
  · simp [ask_of_ne hfamily, asked, hfamily]

/-- Its time has come, and it counts from now, or it goes on to count from when it did. -/
theorem lastFired_ask {u : Timer} (h : (ask family frame now cells t).kept = some u) :
    (ask family frame now cells t).fired = true ∧ u.lastFired = now ∨
      (ask family frame now cells t).fired = false ∧ u.lastFired = t.lastFired := by
  rw [kept_ask] at h
  split at h
  · next hfired =>
      rw [Option.ite_none_right_eq_some, Option.some.injEq] at h
      obtain ⟨-, rfl⟩ := h
      exact Or.inl ⟨hfired, rfl⟩
  · next hrests =>
      cases Option.some.inj h
      exact Or.inr ⟨Bool.eq_false_iff.mpr hrests, lastFired_asked⟩

theorem fired_ask_of_frame (h : t.spec.family = .frame) :
    (ask .frame frame now cells t).fired = true ↔
      ∃ d, (t.reading cells).quantize? frame = some d ∧ t.lastFired + d ≤ now := by
  rw [ask_of_frame h]
  cases (t.reading cells).quantize? frame with
  | none => simp
  | some d => by_cases hdue : t.lastFired + d ≤ now <;> simp [hdue]

/-- No question finds a timer due before its interval has passed, unless the interval is longer than
the frames that can be counted, or ends after the longest duration. -/
theorem not_early_iff (h : t.spec.family = .frame) (hframe : 0 < frame.nanos)
    (cells : CellStore) :
    (∀ now, (ask .frame frame now cells t).fired = true →
        t.lastFired.nanos + (t.reading cells).nanos ≤ now.nanos) ↔
      (t.reading cells).Overruns frame ∨
        ((t.reading cells).nanos ≤ frame.nanos * Duration.greatestFrames ∧
          t.lastFired.nanos + (t.reading cells).nanos ≤ longestNanos) := by
  cases hrounded : (t.reading cells).quantize? frame with
  | none =>
      have hnever : ∀ now, ¬ (ask .frame frame now cells t).fired = true := by
        intro now
        simp [fired_ask_of_frame h, hrounded]
      have hoverruns := (Duration.quantize?_eq_none_iff hframe).mp hrounded
      exact ⟨fun _ => Or.inl hoverruns, fun _ now hfired => absurd hfired (hnever now)⟩
  | some d =>
      have hfired : ∀ now, (ask .frame frame now cells t).fired = true ↔
          t.lastFired + d ≤ now := by
        intro now
        simp [fired_ask_of_frame h, hrounded]
      have hno : ¬ (t.reading cells).Overruns frame := by
        rw [← Duration.quantize?_eq_none_iff hframe, hrounded]
        simp
      rw [or_iff_right hno, ← Duration.le_quantize?_iff hframe hrounded, Duration.le_def]
      -- The first time at which it is due decides.
      constructor
      · intro hlate
        have hfirst := hlate (t.lastFired + d) ((hfired _).mpr (Nat.le_refl _))
        rw [Duration.nanos_add] at hfirst
        omega
      · rintro ⟨hcovered, hends⟩ now hnow
        have hdue := (hfired now).mp hnow
        rw [Duration.le_def, Duration.nanos_add] at hdue
        omega

end Timer

/-! ### The registry -/

/-- The time at which a request starts the timer of a name. -/
def TimerRequest.startedAt (owner id : String) : TimerRequest → List Duration
  | .start o i _ now _ => if owner = o ∧ id = i then [now] else []
  | _ => []

namespace Scheduler

variable {s : Scheduler} {owner id : String}

theorem frame_pos (s : Scheduler) : 0 < s.frame.nanos :=
  Nat.lt_of_lt_of_le (by decide) s.millisecond_le_frame

/-- The times from which the timer of a name counts, for all requests in order: those of its starts,
and those at which it is handed over. -/
def begins (s : Scheduler) (owner id : String) : List TimerRequest → List Duration
  | [] => []
  | r :: rest =>
    r.startedAt owner id ++ s.handedOver owner id r ++ (s.serve r).begins owner id rest

/-- A request that concerns a timer makes it count from then on. -/
theorem getLast?_begins_serve {r : TimerRequest} {u : Timer}
    (h : (s.serve r).timer? owner id = some u) :
    (r.startedAt owner id ++ s.handedOver owner id r).getLast?.or
        ((s.timer? owner id).map Timer.lastFired) = some u.lastFired := by
  cases hends : r.ends owner id with
  | true =>
      obtain ⟨spec, now, cells, rfl, hstarted⟩ := timer?_serve_of_ends hends h
      obtain ⟨resolved, -, rfl⟩ := Option.map_eq_some_iff.mp hstarted
      simp [TimerRequest.startedAt, handedOver]
  | false =>
      cases r with
      | start o i spec now cells =>
          have hkey : ¬ (owner = o ∧ id = i) := of_decide_eq_false hends
          rw [serve, timer?_start, if_neg hkey] at h
          simp [TimerRequest.startedAt, handedOver, hkey, h]
      | stop o i =>
          rw [serve, timer?_stop, if_neg (of_decide_eq_false hends)] at h
          simp [TimerRequest.startedAt, handedOver, h]
      | stopAll o =>
          rw [serve, timer?_stopAll, if_neg (of_decide_eq_false hends)] at h
          simp [TimerRequest.startedAt, handedOver, h]
      | due o family now cells =>
          rw [serve, timer?_due] at h
          by_cases ho : owner = o
          · subst ho
            rw [if_pos rfl] at h
            obtain ⟨t, ht, hkept⟩ := Option.bind_eq_some_iff.mp h
            rcases Timer.lastFired_ask hkept with ⟨hfired, hnow⟩ | ⟨hfired, hsame⟩
            · simp [TimerRequest.startedAt, handedOver_due ht, hfired, hnow]
            · simp [TimerRequest.startedAt, handedOver_due ht, hfired, ht, hsame]
          · rw [if_neg ho] at h
            simp [TimerRequest.startedAt, handedOver_due_of_ne (Ne.symm ho), h]

/-- What requests leave counts from the last of the times at which it began to. -/
theorem getLast?_begins {rs : List TimerRequest} {u : Timer}
    (h : (s.serveAll rs).timer? owner id = some u) :
    (s.begins owner id rs).getLast?.or ((s.timer? owner id).map Timer.lastFired) =
      some u.lastFired := by
  induction rs generalizing s with
  | nil =>
      rw [serveAll_nil] at h
      rw [begins, h]
      rfl
  | cons r rest ih =>
      have hrest := ih h
      rw [begins, List.getLast?_append, Option.or_assoc]
      cases hlast : ((s.serve r).begins owner id rest).getLast? with
      | some time =>
          rw [hlast, Option.some_or] at hrest
          rw [Option.some_or, hrest]
      | none =>
          rw [hlast, Option.none_or] at hrest
          obtain ⟨v, hv, hsame⟩ := Option.map_eq_some_iff.mp hrest
          rw [Option.none_or, getLast?_begins_serve hv, hsame]

/-- A timer by frames is in a registry. At no time is it handed over before the interval that is
read then has passed since its start, or since it was last handed over. The exceptions are an
interval that is longer than the frames that can be counted, and one that ends after the longest
duration; if its frames are no duration it is not handed over at all. What is rounded up covers an
interval just if the frames that can be counted do. -/
theorem not_early_serveAll_iff {frame : Duration} {rs : List TimerRequest} {s : Scheduler}
    (hs : (new frame).serveAll rs = s) {owner id : String} {t : Timer}
    (ht : s.timer? owner id = some t) (hfamily : t.spec.family = .frame) (cells : CellStore) :
    (∃ since, ((new frame).begins owner id rs).getLast? = some since ∧
      ((∀ now, t.toFired owner id ∈ (s.due owner .frame now cells).2 →
          since.nanos + (t.reading cells).nanos ≤ now.nanos) ↔
        (t.reading cells).Overruns s.frame ∨
          ((t.reading cells).nanos ≤ s.frame.nanos * Duration.greatestFrames ∧
            since.nanos + (t.reading cells).nanos ≤ longestNanos))) ∧
      ∀ length rounded : Duration, length.quantize? s.frame = some rounded →
        (length ≤ rounded ↔ length.nanos ≤ s.frame.nanos * Duration.greatestFrames) := by
  refine ⟨⟨t.lastFired, ?_, ?_⟩, ?_⟩
  · have hlast := getLast?_begins (hs ▸ ht)
    have hnone : (new frame).timer? owner id = none := rfl
    rw [hnone] at hlast
    simpa using hlast
  · rw [← Timer.not_early_iff hfamily s.frame_pos cells]
    simp only [toFired_mem_due ht]
  · intro length rounded hrounded
    exact Duration.le_quantize?_iff s.frame_pos hrounded

/-- A timer by frames whose interval is the value of a cell, in milliseconds. -/
def pulse : TimerSpec := ⟨.expr (.cell "period"), .actions [], .frame, true, ∅⟩

/-- Cells with a period. -/
def period (ms : Float) : CellStore := ((CellStore.new "scene").create "period" (.number ms)).1

/-- The timer is started and asked too early, asked again when the period is shorter, and handed
over. -/
def pulses : List TimerRequest :=
  [.start "scene" "pulse" pulse (.ofMillis 5) (period 32),
   .due "scene" .frame (.ofMillis 21) (period 32),
   .due "scene" .frame (.ofMillis 21) (period 16)]

theorem not_early_pulses :
    ∃ t, ((new (.ofMillis 16)).serveAll pulses).timer? "scene" "pulse" = some t ∧
      t.spec.family = .frame ∧
      ∀ now, t.toFired "scene" "pulse" ∈
          (((new (.ofMillis 16)).serveAll pulses).due "scene" .frame now (period 32)).2 →
        (Duration.ofMillis 21).nanos + (Duration.ofMillis 32).nanos ≤ now.nanos := by
  have hfound : (((new (.ofMillis 16)).serveAll pulses).timer? "scene" "pulse").map
      (fun t => (t.spec.family, t.reading (period 32))) = some (.frame, .ofMillis 32) := by
    decide +kernel
  obtain ⟨t, ht, hseen⟩ := Option.map_eq_some_iff.mp hfound
  obtain ⟨hfamily, hreading⟩ := Prod.mk.inj hseen
  obtain ⟨⟨since, hsince, hearly⟩, -⟩ := not_early_serveAll_iff rfl ht hfamily (period 32)
  have hlast : ((new (.ofMillis 16)).begins "scene" "pulse" pulses).getLast? =
      some (.ofMillis 21) := by decide +kernel
  have hframe : ((new (.ofMillis 16)).serveAll pulses).frame = .ofMillis 16 := frame_serveAll _ _
  rw [hlast, Option.some.injEq] at hsince
  rw [hreading, hframe, ← hsince] at hearly
  exact ⟨t, ht, hfamily, hearly.mpr (Or.inr ⟨by decide, by decide⟩)⟩

/-- A timer by frames that is asked for every sixty days. -/
def bimonthly : TimerSpec := ⟨.fixed (.ofMillis 5184000000), .actions [], .frame, true, ∅⟩

/-- With frames a millisecond apart it is handed over before fifty days have passed. -/
theorem early_bimonthly :
    (bimonthly.interval.resolve (.new "scene")).1 = .ofMillis 5184000000 ∧
      (((new (.ofMillis 1)).start "scene" "bimonthly" bimonthly .zero (.new "scene")).due "scene"
        .frame (.ofMillis 4294967295) (.new "scene")).2.map FiredTimer.id = ["bimonthly"] ∧
      Duration.ofMillis 4294967295 < .ofMillis 5184000000 :=
  ⟨rfl, by decide, by decide⟩

end Scheduler

end LiveScene
