import LiveScene.Proofs.Timer.Requests

/-!
# LiveScene.Proofs.Timer.Liveness

When a timer that was collected may still run.

A timer that repeats is in the registry when it is collected, under the number of its start. It
stays there until a request ends it (`Kept`), and the number never comes back (`Ended`). So
whoever asks `isLive` before running it learns of every stop that came between. A timer that
fires once has left the registry, and no request reaches it: `isLive_serveAll` has both.
-/

namespace LiveScene

namespace Scheduler

variable {s : Scheduler} {r : TimerRequest}

/-! ### Numbers that are used up -/

/-- The timer that a number was given to is in the registry no more. -/
structure Ended (s : Scheduler) (serial : Nat) : Prop where
  below : serial < s.nextSerial
  missed : ∀ {owner id t}, s.timer? owner id = some t → t.serial ≠ serial

variable {serial : Nat}

/-- A number does not come back. -/
theorem Ended.serve (h : s.Ended serial) (r : TimerRequest) : (s.serve r).Ended serial where
  below := Nat.lt_of_lt_of_le h.below (s.nextSerial_le_serve r)
  missed hu := by
    rcases timer?_serve_cases hu with ⟨_, _, _, _, hserial, _⟩ | ⟨_, t, ht, hsame⟩
    · have := h.below
      omega
    · rw [hsame.serial]
      exact h.missed ht

theorem Ended.serveAll (h : s.Ended serial) (rs : List TimerRequest) :
    (s.serveAll rs).Ended serial := by
  induction rs generalizing s with
  | nil => exact h
  | cons r rest ih => exact ih (h.serve r)

/-- A timer has ended when it is found under its name no more, since no other has its number. -/
theorem ended_serve (hs : s.Numbered) {owner id : String} {t : Timer}
    (ht : s.timer? owner id = some t)
    (hgone : ∀ u, (s.serve r).timer? owner id = some u → u.serial ≠ t.serial) :
    (s.serve r).Ended t.serial where
  below := Nat.lt_of_lt_of_le (hs.below ht) (s.nextSerial_le_serve r)
  missed hu heq := by
    rcases timer?_serve_cases hu with ⟨_, _, _, _, hserial, _⟩ | ⟨_, v, hv, hsame⟩
    · have := hs.below ht
      omega
    · obtain ⟨rfl, rfl⟩ := hs.inj hv ht (hsame.serial.symm.trans heq)
      exact hgone _ hu heq

/-- A request that ends a timer leaves nothing under its name, or a timer with a new number. -/
theorem ended_serve_of_ends (hs : s.Numbered) {owner id : String} {t : Timer}
    (ht : s.timer? owner id = some t) (hends : r.ends owner id = true) :
    (s.serve r).Ended t.serial := by
  refine ended_serve hs ht fun u hu => ?_
  rcases timer?_serve_cases hu with ⟨_, _, _, _, hserial, _⟩ | ⟨hno, _⟩
  · have := hs.below ht
    omega
  · rw [hends] at hno
    cases hno

/-! ### Timers that were collected -/

/-- Whether one of several requests ends a timer that was collected. -/
def isEndedBy (f : FiredTimer) (rs : List TimerRequest) : Bool :=
  rs.any fun r => r.ends f.owner f.id

variable {f : FiredTimer}

theorem Ended.isLive (h : s.Ended f.serial) (hrepeats : f.repeats = true) :
    s.isLive f = false := by
  rw [Scheduler.isLive, hrepeats, Bool.not_true, Bool.false_or, Option.any_eq_false]
  intro t ht
  simpa using h.missed ht

/-- The timer that was collected is still in the registry, to fire again. -/
def Kept (s : Scheduler) (f : FiredTimer) : Prop :=
  ∃ t, s.timer? f.owner f.id = some t ∧ t.serial = f.serial ∧ t.spec.repeats = true

theorem Kept.isLive (h : s.Kept f) : s.isLive f = true := by
  obtain ⟨t, ht, hserial, -⟩ := h
  simp [Scheduler.isLive, ht, hserial]

theorem Kept.serve (h : s.Kept f) (hends : r.ends f.owner f.id = false) : (s.serve r).Kept f := by
  obtain ⟨t, ht, hserial, hrepeats⟩ := h
  obtain ⟨u, hu, hsame⟩ := timer?_serve_of_repeats ht hrepeats hends
  exact ⟨u, hu, hsame.serial.trans hserial, hsame.repeats.trans hrepeats⟩

theorem Kept.ended_serve (h : s.Kept f) (hs : s.Numbered) (hends : r.ends f.owner f.id = true) :
    (s.serve r).Ended f.serial := by
  obtain ⟨t, ht, hserial, -⟩ := h
  exact hserial ▸ ended_serve_of_ends hs ht hends

theorem Kept.isLive_serveAll (h : s.Kept f) (hs : s.Numbered) (hrepeats : f.repeats = true)
    (rs : List TimerRequest) : (s.serveAll rs).isLive f = !isEndedBy f rs := by
  induction rs generalizing s with
  | nil => exact h.isLive
  | cons r rest ih =>
    cases hends : r.ends f.owner f.id with
    | true =>
      rw [serveAll_cons, isEndedBy, List.any_cons, hends, Bool.true_or, Bool.not_true]
      exact ((h.ended_serve hs hends).serveAll rest).isLive hrepeats
    | false =>
      rw [serveAll_cons, isEndedBy, List.any_cons, hends, Bool.false_or]
      exact ih (h.serve hends) (hs.serve r)

variable {owner : String} {family : TimerFamily} {now : Duration} {cells : CellStore}

/-- A timer that repeats is kept when it is collected. -/
theorem kept_due (hf : f ∈ (s.due owner family now cells).2) (hrepeats : f.repeats = true) :
    (s.due owner family now cells).1.Kept f := by
  obtain ⟨t, ht, -, htf⟩ := mem_due.mp hf
  have howner : f.owner = owner := by rw [← htf]; rfl
  have hserial : t.serial = f.serial := by rw [← htf]; rfl
  have htr : t.spec.repeats = true := by rw [← hrepeats, ← htf]; rfl
  obtain ⟨u, hu, hsame⟩ := timer?_serve_of_repeats (r := .due owner family now cells) ht htr rfl
  exact ⟨u, howner ▸ hu, hsame.serial.trans hserial, hsame.repeats.trans htr⟩

/-- Whatever is asked of the registry after a timer was collected: if it repeats, it is live until a
request ends it, and never again. If it fires once, it is live for good. -/
theorem isLive_serveAll (hs : s.Numbered) (hf : f ∈ (s.due owner family now cells).2)
    (rs : List TimerRequest) :
    ((s.due owner family now cells).1.serveAll rs).isLive f =
      (!f.repeats || !isEndedBy f rs) := by
  cases hrepeats : f.repeats with
  | false => simp [isLive, hrepeats]
  | true =>
    exact (kept_due hf hrepeats).isLive_serveAll (hs.serve (.due owner family now cells)) hrepeats
      rs

/-- A timer that fires once has left the registry when it is collected. -/
theorem ended_due (hs : s.Numbered) (hf : f ∈ (s.due owner family now cells).2)
    (honce : f.repeats = false) : (s.due owner family now cells).1.Ended f.serial := by
  obtain ⟨t, ht, hfired, htf⟩ := mem_due.mp hf
  have hserial : t.serial = f.serial := by rw [← htf]; rfl
  have hto : t.spec.repeats = false := by rw [← honce, ← htf]; rfl
  rw [← hserial]
  refine ended_serve (r := .due owner family now cells) hs ht fun u hu => ?_
  rw [Scheduler.serve, timer?_due, if_pos rfl, ht, Option.bind_some,
    Timer.kept_ask_of_fired hfired hto] at hu
  cases hu

end Scheduler

end LiveScene
