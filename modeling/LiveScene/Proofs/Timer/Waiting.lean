import LiveScene.Proofs.Timer.Liveness

/-!
# LiveScene.Proofs.Timer.Waiting

A timer that fires once, by the clock.

While it waits (`Waits`) it stays in the registry as it was started. There are two ways out: a
request ends it, or it is collected at the first question to the timers by the clock after its time
has come. Either way its number is used up, so that it is collected once at most.
-/

namespace LiveScene

/-- Whether a request leaves a timer by the clock where it is: it does not end it, and if it asks
for it, its time has not come. -/
def TimerRequest.Spares (r : TimerRequest) (owner id : String) (t : Timer) : Prop :=
  r.ends owner id = false ∧ ∀ now cells, r = .due owner .wallClock now cells → ¬ t.nextDue ≤ now

namespace Scheduler

/-- A timer that fires once, by the clock, is in the registry. -/
structure Waits (s : Scheduler) (owner id : String) (t : Timer) : Prop where
  found : s.timer? owner id = some t
  family : t.spec.family = .wallClock
  once : t.spec.repeats = false

variable {s : Scheduler} {owner id : String} {t : Timer}

theorem Waits.serve (h : s.Waits owner id t) {r : TimerRequest} (hr : r.Spares owner id t) :
    (s.serve r).Waits owner id t :=
  ⟨timer?_serve_of_wallClock h.found h.family hr.1 hr.2, h.family, h.once⟩

theorem Waits.serveAll (h : s.Waits owner id t) {rs : List TimerRequest}
    (hrs : ∀ r ∈ rs, r.Spares owner id t) : (s.serveAll rs).Waits owner id t := by
  induction rs generalizing s with
  | nil => exact h
  | cons r rest ih =>
    have hr := hrs r List.mem_cons_self
    exact ih (h.serve hr) fun q hq => hrs q (List.mem_cons_of_mem r hq)

variable {now : Duration}

/-- A timer that fires once leaves the registry when its time has come. -/
theorem Waits.ended_due (h : s.Waits owner id t) (hs : s.Numbered) (hdue : t.nextDue ≤ now)
    (cells : CellStore) :
    (s.due owner .wallClock now cells).1.Ended t.serial := by
  have hfired : t.toFired owner id ∈ (s.due owner .wallClock now cells).2 := by
    rw [toFired_mem_due h.found, Timer.ask_of_wallClock h.family, if_pos ⟨rfl, hdue⟩]
  exact Scheduler.ended_due hs hfired h.once

/-- What is collected under the number of a timer that waits: that timer, once, if it is asked for
and its time has come. -/
theorem Waits.filter_due (h : s.Waits owner id t) (hs : s.Numbered) (family : TimerFamily)
    (now : Duration) (cells : CellStore) :
    (s.due owner family now cells).2.filter (fun f => f.serial = t.serial) =
      if family = .wallClock ∧ t.nextDue ≤ now then [t.toFired owner id] else [] := by
  -- Who has the number has the name, and whether he is collected is what `ask` says of him.
  have hnamed : ∀ f ∈ (s.due owner family now cells).2, f.serial = t.serial →
      f = t.toFired owner id := by
    intro f hf hserial
    obtain ⟨u, hu, hfired, huf⟩ := mem_due.mp hf
    have hsame : u.serial = t.serial := by rw [← hserial, ← huf]; rfl
    obtain ⟨-, hid⟩ := hs.inj hu h.found hsame
    rw [hid, h.found, Option.some.injEq] at hu
    subst hu
    rw [← huf, hid]
  have hcome : t.toFired owner id ∈ (s.due owner family now cells).2 ↔
      family = .wallClock ∧ t.nextDue ≤ now := by
    rw [toFired_mem_due h.found, Timer.ask_of_wallClock h.family]
    split
    · next hdue => simp [hdue]
    · next hearly => simp [hearly]
  exact filter_due_eq_ite hcome rfl hnamed

/-- Nothing is collected under a number that is used up. -/
theorem Ended.filter_due {serial : Nat} (h : s.Ended serial) (owner : String)
    (family : TimerFamily) (now : Duration) (cells : CellStore) :
    (s.due owner family now cells).2.filter (fun f => f.serial = serial) = [] := by
  refine List.filter_eq_nil_iff.mpr fun f hf hserial => ?_
  obtain ⟨u, hu, -, huf⟩ := mem_due.mp hf
  refine h.missed hu ?_
  rw [← of_decide_eq_true hserial, ← huf]
  rfl

/-- What is collected has a number that was given. -/
theorem Numbered.serial_lt_of_mem_due (hs : s.Numbered) {family : TimerFamily} {f : FiredTimer}
    (hf : f ∈ (s.due owner family now cells).2) : f.serial < s.nextSerial := by
  obtain ⟨u, hu, -, huf⟩ := mem_due.mp hf
  rw [← huf]
  exact hs.below hu

end Scheduler

end LiveScene
