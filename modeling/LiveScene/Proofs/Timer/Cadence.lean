import LiveScene.Proofs.Timer.Requests
import Mathlib.Data.List.Chain

/-!
# LiveScene.Proofs.Timer.Cadence

A timer that repeats, by the clock.

* `Timer.ticks` follows one timer through the times at which it is asked. Whatever else is asked of
  the registry, the times at which it hands over the timer are these
  (`Scheduler.firings_eq_ticks`).
* It is never early: the next due time never lies before the next point of the grid that begins with
  the start (`le_of_getElem?_ticks`). All sums stop at the longest duration, so this is said of
  times below it.
* If no question comes more than an interval after the one before, the due time stays on the grid,
  and a tick falls on each of its points (`length_ticks`).
-/

namespace LiveScene

/-- The interval that a timer by the clock has from its start on. -/
def TimerSpec.clockInterval (spec : TimerSpec) (cells : CellStore) : Duration :=
  (spec.interval.resolve cells).1.longer (.ofMillis 1)

theorem TimerSpec.clockInterval_pos (spec : TimerSpec) (cells : CellStore) :
    0 < (spec.clockInterval cells).nanos :=
  Nat.lt_of_lt_of_le (by decide) (Duration.le_longer_right _ (.ofMillis 1))

/-! ### One timer -/

namespace Timer

/-- The times at which the time of a timer by the clock has come, of those at which it is asked. -/
def ticks (t : Timer) : List Duration → List Duration
  | [] => []
  | now :: r => if t.nextDue ≤ now then now :: (t.advance now).ticks r else t.ticks r

/-- Questions that begin at a time and do not lie more than an interval apart. -/
def Steady (start interval : Duration) (times : List Duration) : Prop :=
  (start :: times).IsChain fun earlier later =>
    earlier ≤ later ∧ later.nanos ≤ earlier.nanos + interval.nanos

variable {t : Timer} {now : Duration} {times : List Duration}

@[simp] theorem resolved_advance (t : Timer) (now : Duration) :
    (t.advance now).resolved = t.resolved := rfl

theorem nextDue_advance (t : Timer) (now : Duration) :
    (t.advance now).nextDue =
      if t.nextDue + t.resolved ≤ now then now + t.resolved else t.nextDue + t.resolved := rfl

/-- If a timer is not due before a point of time, then after firing it is not due before an
interval later. -/
theorem le_nextDue_advance {point : Nat} (h : min point longestNanos ≤ t.nextDue.nanos) :
    min (point + t.resolved.nanos) longestNanos ≤ (t.advance now).nextDue.nanos := by
  rw [nextDue_advance]
  split
  · next hlate =>
      rw [Duration.le_def, Duration.nanos_add] at hlate
      rw [Duration.nanos_add]
      omega
  · rw [Duration.nanos_add]
    omega

/-- No tick is early. -/
theorem le_of_getElem?_ticks {point : Nat} (h : min point longestNanos ≤ t.nextDue.nanos)
    (hbefore : ∀ now ∈ times, now < .longest) {k : Nat}
    (hk : (t.ticks times)[k]? = some now) : point + k * t.resolved.nanos ≤ now.nanos := by
  induction times generalizing t point k with
  | nil => simp [ticks] at hk
  | cons time r ih =>
      have hrest : ∀ now ∈ r, now < .longest := by
        intro now hnow
        exact hbefore now (List.mem_cons_of_mem time hnow)
      rw [ticks] at hk
      split at hk
      · next hdue =>
          cases k with
          | zero =>
              have hlt : time.nanos < longestNanos := hbefore time List.mem_cons_self
              rw [List.getElem?_cons_zero, Option.some.injEq] at hk
              rw [Duration.le_def] at hdue
              subst hk
              omega
          | succ k =>
              rw [List.getElem?_cons_succ] at hk
              have hlater := ih (le_nextDue_advance h) hrest hk
              rw [resolved_advance] at hlater
              rw [Nat.succ_mul]
              omega
      · exact ih h hrest hk

/-- A timer that was started at a time was last asked between the point of the grid at which it
ticked for the `n`th time and the next point, and at that one it is due. -/
structure OnGrid (t : Timer) (start last : Duration) (n : Nat) : Prop where
  nextDue : t.nextDue.nanos = min (start.nanos + (n + 1) * t.resolved.nanos) longestNanos
  le_last : start.nanos + n * t.resolved.nanos ≤ last.nanos
  last_lt : last.nanos < start.nanos + (n + 1) * t.resolved.nanos

namespace OnGrid

variable {start last : Duration} {n : Nat}

/-- The ticks are as many as the intervals that have passed. -/
theorem div_eq (h : t.OnGrid start last n) :
    (last.nanos - start.nanos) / t.resolved.nanos = n := by
  have hle := h.le_last
  have hlt := h.last_lt
  refine Nat.div_eq_of_lt_le ?_ ?_
  · omega
  · omega

/-- A question before the due time leaves the timer between the same points. -/
theorem wait (h : t.OnGrid start last n) (hle : last ≤ now) (hearly : ¬ t.nextDue ≤ now) :
    t.OnGrid start now n where
  nextDue := h.nextDue
  le_last := Nat.le_trans h.le_last hle
  last_lt := by
    rw [Duration.le_def, h.nextDue] at hearly
    omega

/-- A tick takes the timer to the next point, since the one after that has not been reached. -/
theorem advance (h : t.OnGrid start last n) (hnear : now.nanos ≤ last.nanos + t.resolved.nanos)
    (hlt : now < .longest) (hdue : t.nextDue ≤ now) :
    (t.advance now).OnGrid start now (n + 1) := by
  have hlt' : now.nanos < longestNanos := hlt
  have hlast := h.last_lt
  rw [Duration.le_def, h.nextDue] at hdue
  have hgrid : (n + 1 + 1) * t.resolved.nanos = (n + 1) * t.resolved.nanos + t.resolved.nanos :=
    Nat.succ_mul (n + 1) t.resolved.nanos
  have hnext : ¬ t.nextDue + t.resolved ≤ now := by
    rw [Duration.le_def, Duration.nanos_add, h.nextDue]
    omega
  constructor
  · rw [nextDue_advance, if_neg hnext, Duration.nanos_add, h.nextDue, resolved_advance]
    omega
  · rw [resolved_advance]
    omega
  · rw [resolved_advance]
    omega

/-- A tick falls on each point of the grid up to the last question. -/
theorem length_ticks (h : t.OnGrid start last n) (hsteady : Steady last t.resolved times)
    (hbefore : ∀ now ∈ times, now < .longest) :
    n + (t.ticks times).length =
      ((times.getLastD last).nanos - start.nanos) / t.resolved.nanos := by
  induction times generalizing t last n with
  | nil => exact h.div_eq.symm
  | cons now r ih =>
      obtain ⟨⟨hle, hnear⟩, hsteady'⟩ := List.isChain_cons_cons.mp hsteady
      have hlt := hbefore now List.mem_cons_self
      have hbefore' : ∀ later ∈ r, later < .longest := by
        intro later hlater
        exact hbefore later (List.mem_cons_of_mem now hlater)
      rw [ticks, List.getLastD_cons]
      split
      · next hdue =>
          have hrest := ih (h.advance hnear hlt hdue) hsteady' hbefore'
          rw [resolved_advance] at hrest
          rw [List.length_cons, ← hrest]
          omega
      · next hearly => exact ih (h.wait hle hearly) hsteady' hbefore'

end OnGrid

end Timer

/-! ### The registry -/

/-- The time of a question to the timers of an instance that go by the clock. -/
def TimerRequest.askedAt? (owner : String) : TimerRequest → Option Duration
  | .due o .wallClock now _ => if owner = o then some now else none
  | _ => none

theorem TimerRequest.exists_due_of_askedAt? {r : TimerRequest} {owner : String} {now : Duration}
    (h : r.askedAt? owner = some now) : ∃ cells, r = .due owner .wallClock now cells := by
  cases r with
  | due o family time cells =>
      cases family with
      | frame => cases h
      | wallClock =>
          rw [askedAt?] at h
          split at h
          · next ho =>
              cases h
              exact ⟨cells, by rw [ho]⟩
          · cases h
  | _ => cases h

namespace Scheduler

variable {s : Scheduler} {owner id : String} {t : Timer}

/-- The times at which a request hands over the timer of a name: none, or its own. -/
def handedOver (s : Scheduler) (owner id : String) : TimerRequest → List Duration
  | .due o family now cells =>
    ((s.due o family now cells).2.filter fun f => f.owner = owner ∧ f.id = id).map fun _ => now
  | _ => []

/-- The times at which the timer of a name is handed over, for all requests in order. -/
def firings (s : Scheduler) (owner id : String) : List TimerRequest → List Duration
  | [] => []
  | r :: rest => s.handedOver owner id r ++ (s.serve r).firings owner id rest

/-- A request hands over the timer of a name once, if its time has come. -/
theorem filter_due (ht : s.timer? owner id = some t) (family : TimerFamily) (now : Duration)
    (cells : CellStore) :
    (s.due owner family now cells).2.filter (fun f => f.owner = owner ∧ f.id = id) =
      if (Timer.ask family s.frame now cells t).fired then [t.toFired owner id] else [] := by
  have hnamed : ∀ f ∈ (s.due owner family now cells).2, f.owner = owner ∧ f.id = id →
      f = t.toFired owner id := by
    rintro f hf ⟨-, hid⟩
    obtain ⟨u, hu, -, huf⟩ := mem_due.mp hf
    rw [hid, ht, Option.some.injEq] at hu
    rw [← huf, hid, hu]
  exact filter_due_eq_ite (toFired_mem_due ht) ⟨rfl, rfl⟩ hnamed

/-- What is handed over belongs to the instance that is asked. -/
theorem filter_due_of_ne {o : String} (h : o ≠ owner) (family : TimerFamily) (now : Duration)
    (cells : CellStore) :
    (s.due o family now cells).2.filter (fun f => f.owner = owner ∧ f.id = id) = [] := by
  refine List.filter_eq_nil_iff.mpr fun f hf hnamed => h ?_
  obtain ⟨u, -, -, huf⟩ := mem_due.mp hf
  rw [← (of_decide_eq_true hnamed).1, ← huf]
  rfl

/-- A request hands over the timer of a name if it asks for it and its time has come. -/
theorem handedOver_due (ht : s.timer? owner id = some t) (family : TimerFamily)
    (now : Duration) (cells : CellStore) :
    s.handedOver owner id (.due owner family now cells) =
      if (Timer.ask family s.frame now cells t).fired then [now] else [] := by
  rw [handedOver, filter_due ht]
  split <;> rfl

theorem handedOver_due_of_ne {o : String} (h : o ≠ owner) (family : TimerFamily)
    (now : Duration) (cells : CellStore) :
    s.handedOver owner id (.due o family now cells) = [] := by
  rw [handedOver, filter_due_of_ne h, List.map_nil]

/-- A timer that repeats, by the clock, is in the registry. -/
structure Beats (s : Scheduler) (owner id : String) (t : Timer) : Prop where
  found : s.timer? owner id = some t
  family : t.spec.family = .wallClock
  repeats : t.spec.repeats = true

/-- It is handed over when its time has come, and goes on to its next due time. -/
theorem Beats.serve_due (h : s.Beats owner id t) {now : Duration} (hdue : t.nextDue ≤ now)
    (cells : CellStore) :
    (s.serve (.due owner .wallClock now cells)).Beats owner id (t.advance now) ∧
      s.handedOver owner id (.due owner .wallClock now cells) = [now] := by
  have hask : Timer.ask .wallClock s.frame now cells t = ⟨some (t.advance now), true, false⟩ := by
    rw [Timer.ask_of_wallClock h.family, if_pos ⟨rfl, hdue⟩, h.repeats]
    rfl
  refine ⟨⟨?_, h.family, h.repeats⟩, ?_⟩
  · rw [Scheduler.serve, timer?_due, if_pos rfl, h.found, Option.bind_some, hask]
  · rw [handedOver_due h.found, hask]
    rfl

/-- Any other request that does not end it leaves it as it is. -/
theorem Beats.serve_of_early (h : s.Beats owner id t) {r : TimerRequest}
    (hends : r.ends owner id = false)
    (hearly : ∀ now, r.askedAt? owner = some now → ¬ t.nextDue ≤ now) :
    (s.serve r).Beats owner id t ∧ s.handedOver owner id r = [] := by
  have hnot : ∀ now cells, r = .due owner .wallClock now cells → ¬ t.nextDue ≤ now := by
    rintro now cells rfl
    exact hearly now (if_pos rfl)
  refine ⟨⟨timer?_serve_of_wallClock h.found h.family hends hnot, h.family, h.repeats⟩, ?_⟩
  cases r with
  | due o family now cells =>
      by_cases ho : o = owner
      · subst ho
        have hno : ¬ (family = .wallClock ∧ t.nextDue ≤ now) := by
          rintro ⟨rfl, hdue⟩
          exact hnot now cells rfl hdue
        rw [handedOver_due h.found, Timer.ask_of_wallClock h.family, if_neg hno]
        rfl
      · exact handedOver_due_of_ne ho family now cells
  | _ => rfl

/-- Whatever else is asked of the registry, a timer by the clock ticks at the times at which it is
asked. -/
theorem Beats.firings_eq_ticks (h : s.Beats owner id t) {rs : List TimerRequest}
    (hkept : ∀ r ∈ rs, r.ends owner id = false) :
    s.firings owner id rs = t.ticks (rs.filterMap (TimerRequest.askedAt? owner)) := by
  induction rs generalizing s t with
  | nil => rfl
  | cons r rest ih =>
      have hends := hkept r List.mem_cons_self
      have hkept' : ∀ q ∈ rest, q.ends owner id = false := by
        intro q hq
        exact hkept q (List.mem_cons_of_mem r hq)
      rw [firings]
      cases hasked : r.askedAt? owner with
      | none =>
          obtain ⟨hnext, hnone⟩ := h.serve_of_early hends (by simp [hasked])
          rw [hnone, List.filterMap_cons_none hasked, List.nil_append, ih hnext hkept']
      | some now =>
          rw [List.filterMap_cons_some hasked, Timer.ticks]
          split
          · next hdue =>
              obtain ⟨cells, rfl⟩ := TimerRequest.exists_due_of_askedAt? hasked
              obtain ⟨hnext, hfired⟩ := h.serve_due hdue cells
              rw [hfired, List.singleton_append, ih hnext hkept']
          · next hearly =>
              obtain ⟨hnext, hnone⟩ := h.serve_of_early hends (by simp [hasked, hearly])
              rw [hnone, List.nil_append, ih hnext hkept']

/-- A request hands over the timer of a name once at most. -/
theorem length_handedOver_le_one (s : Scheduler) (owner id : String) (r : TimerRequest) :
    (s.handedOver owner id r).length ≤ 1 := by
  cases r with
  | due o family now cells =>
      by_cases ho : o = owner
      · subst ho
        cases ht : s.timer? o id with
        | none =>
            rw [handedOver, List.length_map, List.filter_eq_nil_iff.mpr]
            · exact Nat.zero_le 1
            · intro f hf hnamed
              obtain ⟨u, hu, -⟩ := mem_due.mp hf
              rw [(of_decide_eq_true hnamed).2, ht] at hu
              cases hu
        | some t =>
            rw [handedOver_due ht]
            split <;> simp
      · rw [handedOver_due_of_ne ho]
        exact Nat.zero_le 1
  | _ => exact Nat.zero_le 1

/-! ### From its start -/

/-- The timer that a start puts into the registry. -/
theorem beats_start (s : Scheduler) (owner id : String) (spec : TimerSpec)
    (hfamily : spec.family = .wallClock) (hrepeats : spec.repeats = true) (start : Duration)
    (cells : CellStore) :
    ∃ t, (s.start owner id spec start cells).Beats owner id t ∧
      t.resolved = spec.clockInterval cells ∧ t.nextDue = start + spec.clockInterval cells := by
  let t : Timer :=
    { spec := { spec with interval := (spec.interval.resolve cells).2 },
      resolved := spec.clockInterval cells, lastFired := start,
      nextDue := start + spec.clockInterval cells, serial := s.nextSerial }
  have heffective : s.effective? spec.family (spec.interval.resolve cells).1 =
      some (spec.clockInterval cells) := by
    rw [hfamily]
    rfl
  have hstarted : s.started? spec start cells = some t := by
    rw [started?, heffective]
    rfl
  refine ⟨t, ⟨?_, hfamily, hrepeats⟩, rfl, rfl⟩
  rw [timer?_start, if_pos ⟨rfl, rfl⟩, hstarted]

/-- A timer that repeats by the clock is started, and no request ends it. Then no request hands it
over twice, and it is never early: it is not handed over for the `k`th time before `k` intervals
have passed. If the questions lie no more than an interval apart, it is handed over once for each
interval that has passed at the last of them. -/
theorem keeps_cadence (s : Scheduler) (owner id : String) (spec : TimerSpec)
    (hfamily : spec.family = .wallClock) (hrepeats : spec.repeats = true) (start : Duration)
    (cells : CellStore) {rs : List TimerRequest} (hkept : ∀ r ∈ rs, r.ends owner id = false)
    (hbefore : ∀ now ∈ rs.filterMap (TimerRequest.askedAt? owner), now < .longest) :
    (∀ before r rest, rs = before ++ r :: rest →
      (((s.start owner id spec start cells).serveAll before).handedOver owner id r).length ≤ 1) ∧
    (∀ k now, ((s.start owner id spec start cells).firings owner id rs)[k]? = some now →
      start.nanos + (k + 1) * (spec.clockInterval cells).nanos ≤ now.nanos) ∧
    (Timer.Steady start (spec.clockInterval cells)
        (rs.filterMap (TimerRequest.askedAt? owner)) →
      ((s.start owner id spec start cells).firings owner id rs).length =
        (((rs.filterMap (TimerRequest.askedAt? owner)).getLastD start).nanos - start.nanos) /
          (spec.clockInterval cells).nanos) := by
  obtain ⟨t, hbeats, hresolved, hnext⟩ := s.beats_start owner id spec hfamily hrepeats start cells
  have hpos := spec.clockInterval_pos cells
  rw [hbeats.firings_eq_ticks hkept, ← hresolved]
  rw [← hresolved] at hnext hpos
  have hdue : t.nextDue.nanos = min (start.nanos + t.resolved.nanos) longestNanos := by
    rw [hnext, Duration.nanos_add]
  refine ⟨fun before r rest _ => length_handedOver_le_one _ owner id r, ?_, ?_⟩
  · intro k now hk
    have hlate := Timer.le_of_getElem?_ticks (Nat.le_of_eq hdue.symm) hbefore hk
    rw [Nat.succ_mul]
    omega
  · intro hsteady
    have hgrid : t.OnGrid start start 0 := by
      constructor
      · rw [hdue, Nat.zero_add, Nat.one_mul]
      · omega
      · omega
    rw [← hgrid.length_ticks hsteady hbefore, Nat.zero_add]

/-- A timer that repeats every ten milliseconds. -/
def metronome : TimerSpec := ⟨.fixed (.ofMillis 10), .actions [], .wallClock, true, ∅⟩

/-- It is asked at fourteen milliseconds, and then as late as at thirty-five. -/
def questions : List TimerRequest :=
  [14, 16, 25, 35].map fun ms => .due "scene" .wallClock (.ofMillis ms) (.new "scene")

theorem keeps_cadence_metronome :
    (∀ r ∈ questions, r.ends "scene" "beat" = false) ∧
      (∀ now ∈ questions.filterMap (TimerRequest.askedAt? "scene"), now < .longest) ∧
      Timer.Steady (.ofMillis 5) (metronome.clockInterval (.new "scene"))
        (questions.filterMap (TimerRequest.askedAt? "scene")) ∧
      ((default.start "scene" "beat" metronome (.ofMillis 5) (.new "scene")).firings
        "scene" "beat" questions).length = 3 := by
  have hkept : ∀ r ∈ questions, r.ends "scene" "beat" = false := by decide
  have hbefore : ∀ now ∈ questions.filterMap (TimerRequest.askedAt? "scene"), now < .longest := by
    decide
  have hsteady : Timer.Steady (.ofMillis 5) (metronome.clockInterval (.new "scene"))
      (questions.filterMap (TimerRequest.askedAt? "scene")) := by
    unfold Timer.Steady
    decide
  have hcadence := keeps_cadence default "scene" "beat" metronome rfl rfl
    (.ofMillis 5) (.new "scene") hkept hbefore
  refine ⟨hkept, hbefore, hsteady, ?_⟩
  rw [hcadence.2.2 hsteady]
  decide

end Scheduler

end LiveScene
