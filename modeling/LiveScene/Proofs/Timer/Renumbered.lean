import LiveScene.Proofs.Dict
import LiveScene.Proofs.Timer.Requests
import Mathlib.Order.Monotone.Basic

/-!
# LiveScene.Proofs.Timer.Renumbered

A registry that instances share, as one of them finds it.

All starts take their numbers from one count. What other instances do shows in the numbers that the
timers of an instance get, and in nothing else. `Renumbered owner f s t` says that of two
registries: `f` carries the numbers that the instance gave and will give in `s` to those in `t`.

* What the instance itself asks keeps the relation, with the same `f`: `Renumbered.serve`. So the
  numbers that it has noted before stay right. The timers that are due are the same but for their
  numbers (`Renumbered.due`), and so is the answer whether one of them is live
  (`Renumbered.isLive`).
* What others ask keeps the relation as well, but then later numbers are carried elsewhere:
  `Renumbered.serve_others`.
-/

namespace LiveScene

namespace Timer

/-- The timer with another number. -/
def renumber (f : Nat → Nat) (t : Timer) : Timer := { t with serial := f t.serial }

@[simp] theorem spec_renumber (f : Nat → Nat) (t : Timer) : (t.renumber f).spec = t.spec := rfl

@[simp] theorem advance_renumber (f : Nat → Nat) (t : Timer) (now : Duration) :
    (t.renumber f).advance now = (t.advance now).renumber f := rfl

/-- A timer answers whether its time has come without regard to its number. -/
theorem ask_renumber (f : Nat → Nat) (family : TimerFamily) (frame now : Duration)
    (cells : CellStore) (t : Timer) :
    ask family frame now cells (t.renumber f) =
      { ask family frame now cells t with
        kept := (ask family frame now cells t).kept.map (renumber f) } := by
  have hdue : (t.renumber f).dueAt? frame cells =
      ((t.dueAt? frame cells).1, (t.dueAt? frame cells).2.renumber f) := by
    simp only [dueAt?, renumber]
    split <;> rfl
  unfold ask
  rw [hdue, spec_renumber]
  generalize t.dueAt? frame cells = answer
  obtain ⟨time, read⟩ := answer
  by_cases hasked : t.spec.family = family
  · cases time with
    | none => simp [hasked]
    | some time =>
        by_cases hearly : now < time
        · simp [hasked, hearly]
        · cases hrepeats : read.spec.repeats <;> simp [hasked, hearly, hrepeats]
  · simp [hasked]

end Timer

/-- The timer that was collected with another number. -/
def FiredTimer.renumber (f : Nat → Nat) (t : FiredTimer) : FiredTimer :=
  { t with serial := f t.serial }

namespace Scheduler

/-- The registry as an instance finds it: its timers, without their numbers. -/
def seenBy (s : Scheduler) (owner : String) : Scheduler :=
  { s with
    timers := (∅ : Dict (Dict Timer)).insert owner
      ((s.timersOf owner).mapValues fun _ => Timer.renumber fun _ => 0)
    nextSerial := 0
    overflowed := false }

/-- Two registries in which the timers of an instance are the same but for their numbers. A function
carries those in the first to those in the second, and so it does with the numbers that are
still to be given. -/
structure Renumbered (owner : String) (f : Nat → Nat) (s t : Scheduler) : Prop where
  frame : t.frame = s.frame
  timers : ∀ id, t.timer? owner id = (s.timer? owner id).map (Timer.renumber f)
  mono : StrictMono f
  next : ∀ k, f (s.nextSerial + k) = t.nextSerial + k
  numbered : s.Numbered

theorem Renumbered.refl {s : Scheduler} (h : s.Numbered) (owner : String) :
    s.Renumbered owner id s where
  frame := rfl
  timers name := by cases s.timer? owner name <;> rfl
  mono := strictMono_id
  next k := rfl
  numbered := h

namespace Renumbered

variable {owner : String} {f : Nat → Nat} {s t : Scheduler}

/-! ### What the instance asks -/

theorem started? (h : s.Renumbered owner f t) (spec : TimerSpec) (now : Duration)
    (cells : CellStore) :
    t.started? spec now cells = (s.started? spec now cells).map (Timer.renumber f) := by
  have hnext : f s.nextSerial = t.nextSerial := h.next 0
  unfold Scheduler.started?
  rw [effective?_congr h.frame, Option.map_map, ← hnext]
  rfl

theorem timer?_serve (h : s.Renumbered owner f t) {r : TimerRequest} (hr : r.owner = owner)
    (id : String) :
    (t.serve r).timer? owner id = ((s.serve r).timer? owner id).map (Timer.renumber f) := by
  subst hr
  cases r with
  | start o i spec now cells =>
      simp only [Scheduler.serve, timer?_start, h.started?, h.timers]
      split <;> rfl
  | stop o i =>
      simp only [Scheduler.serve, timer?_stop, h.timers]
      split <;> rfl
  | stopAll o =>
      simp only [Scheduler.serve, timer?_stopAll, h.timers]
      split <;> rfl
  | due o family now cells =>
      have htimer : t.timer? o id = (s.timer? o id).map (Timer.renumber f) := h.timers id
      simp only [Scheduler.serve, timer?_due, TimerRequest.owner, if_pos, htimer, h.frame]
      cases s.timer? o id with
      | none => rfl
      | some u => simp [Timer.ask_renumber]

/-- A start takes a number in both registries, or in none. -/
theorem nextSerial_serve (h : s.Renumbered owner f t) (r : TimerRequest) :
    ∃ k, (s.serve r).nextSerial = s.nextSerial + k ∧ (t.serve r).nextSerial = t.nextSerial + k := by
  cases r with
  | start o i spec now cells =>
      simp only [Scheduler.serve, nextSerial_start, h.started?, Option.isSome_map]
      split
      · exact ⟨1, rfl, rfl⟩
      · exact ⟨0, rfl, rfl⟩
  | stop o i => exact ⟨0, s.nextSerial_stop o i, t.nextSerial_stop o i⟩
  | stopAll o => exact ⟨0, rfl, rfl⟩
  | due o family now cells =>
      exact ⟨0, s.nextSerial_due o family now cells, t.nextSerial_due o family now cells⟩

/-- What the instance asks of both registries leaves them the same but for the numbers. -/
theorem serve (h : s.Renumbered owner f t) {r : TimerRequest} (hr : r.owner = owner) :
    (s.serve r).Renumbered owner f (t.serve r) where
  frame := by simp [h.frame]
  timers := h.timer?_serve hr
  mono := h.mono
  next k := by
    obtain ⟨given, hs, ht⟩ := h.nextSerial_serve r
    rw [hs, ht, Nat.add_assoc, h.next, Nat.add_assoc]
  numbered := h.numbered.serve r

theorem serveAll (h : s.Renumbered owner f t) {rs : List TimerRequest}
    (hrs : ∀ r ∈ rs, r.owner = owner) : (s.serveAll rs).Renumbered owner f (t.serveAll rs) := by
  induction rs generalizing s t with
  | nil => exact h
  | cons r rest ih =>
      have hhead := h.serve (hrs r List.mem_cons_self)
      exact ih hhead fun q hq => hrs q (List.mem_cons_of_mem r hq)

/-! ### What it is answered -/

theorem timersOf (h : s.Renumbered owner f t) :
    t.timersOf owner = (s.timersOf owner).mapValues fun _ => Timer.renumber f := by
  refine Dict.ext_get? fun id => ?_
  rw [Dict.get?_mapValues]
  exact h.timers id

theorem seenBy_eq (h : s.Renumbered owner f t) : t.seenBy owner = s.seenBy owner := by
  have htimers : (t.timersOf owner).mapValues (fun _ => Timer.renumber fun _ => 0) =
      (s.timersOf owner).mapValues fun _ => Timer.renumber fun _ => 0 := by
    refine Dict.ext_get? fun id => ?_
    rw [h.timersOf]
    simp only [Dict.get?_mapValues, Option.map_map]
    rfl
  simp [seenBy, htimers, h.frame]

/-- The timers that are due, from those of the instance. -/
theorem snd_due (s : Scheduler) (owner : String) (family : TimerFamily) (now : Duration)
    (cells : CellStore) :
    (s.due owner family now cells).2 = (s.timersOf owner).entries.filterMap fun e =>
      if (Timer.ask family s.frame now cells e.2).fired then some (e.2.toFired owner e.1)
      else none := by
  unfold Scheduler.due Scheduler.timersOf
  cases s.timers.get? owner <;> rfl

theorem due (h : s.Renumbered owner f t) (family : TimerFamily) (now : Duration)
    (cells : CellStore) :
    (t.due owner family now cells).2 =
      (s.due owner family now cells).2.map (FiredTimer.renumber f) := by
  rw [snd_due, snd_due, h.timersOf, h.frame, List.map_filterMap]
  simp only [Dict.mapValues, List.filterMap_map]
  congr 1
  funext e
  simp only [Function.comp, Timer.ask_renumber]
  split <;> rfl

theorem isLive (h : s.Renumbered owner f t) {fired : FiredTimer} (hfired : fired.owner = owner) :
    t.isLive (fired.renumber f) = s.isLive fired := by
  subst hfired
  have hserial : ∀ u : Timer, (f u.serial == f fired.serial) = (u.serial == fired.serial) := by
    intro u
    rw [Bool.eq_iff_iff, beq_iff_eq, beq_iff_eq]
    exact h.mono.injective.eq_iff
  have htimer := h.timers fired.id
  simp only [Scheduler.isLive, FiredTimer.renumber, htimer, Option.any_map]
  congr 2
  funext u
  exact hserial u

/-! ### What others ask -/

/-- Numbers below a bound go where they went, and those from it on to the ones from another bound
on. -/
def carried (f : Nat → Nat) (bound next : Nat) (n : Nat) : Nat :=
  if n < bound then f n else next + (n - bound)

theorem timer?_serve_others {r : TimerRequest} (hr : r.owner ≠ owner) (id : String) :
    (t.serve r).timer? owner id = t.timer? owner id := by
  have hne : owner ≠ r.owner := Ne.symm hr
  cases r with
  | start o i spec now cells =>
      exact (t.timer?_start o i spec now cells owner id).trans (if_neg fun hkey => hne hkey.1)
  | stop o i => exact (t.timer?_stop o i owner id).trans (if_neg fun hkey => hne hkey.1)
  | stopAll o => exact (t.timer?_stopAll o owner id).trans (if_neg hne)
  | due o family now cells => exact (t.timer?_due o family now cells owner id).trans (if_neg hne)

/-- What others ask of the second registry carries the numbers of later starts elsewhere. -/
theorem serve_others (h : s.Renumbered owner f t) {r : TimerRequest} (hr : r.owner ≠ owner) :
    s.Renumbered owner (carried f s.nextSerial (t.serve r).nextSerial) (t.serve r) where
  frame := by simp [h.frame]
  timers id := by
    rw [timer?_serve_others hr, h.timers]
    cases hget : s.timer? owner id with
    | none => rfl
    | some u =>
        have hbelow : u.serial < s.nextSerial := h.numbered.below hget
        simp [Timer.renumber, carried, hbelow]
  mono := by
    -- The numbers that were given are below all that are still to be given, in both registries.
    have hgiven : ∀ n, n < s.nextSerial → f n < (t.serve r).nextSerial := by
      intro n hn
      have hlt : f n < f (s.nextSerial + 0) := h.mono hn
      rw [h.next] at hlt
      exact Nat.lt_of_lt_of_le hlt (t.nextSerial_le_serve r)
    intro m n hlt
    unfold carried
    by_cases hn : n < s.nextSerial
    · have hm : m < s.nextSerial := Nat.lt_trans hlt hn
      simpa [hn, hm] using h.mono hlt
    · by_cases hm : m < s.nextSerial
      · simpa [hn, hm] using Nat.lt_add_right _ (hgiven m hm)
      · simp only [hn, hm, if_false]
        omega
  next k := by simp [carried]
  numbered := h.numbered

theorem serveAll_others (h : s.Renumbered owner f t) {rs : List TimerRequest}
    (hrs : ∀ r ∈ rs, r.owner ≠ owner) : ∃ g, s.Renumbered owner g (t.serveAll rs) := by
  induction rs generalizing f t with
  | nil => exact ⟨f, h⟩
  | cons r rest ih =>
      have hhead := h.serve_others (hrs r List.mem_cons_self)
      exact ih hhead fun q hq => hrs q (List.mem_cons_of_mem r hq)

end Renumbered

end Scheduler

end LiveScene
