import LiveScene.Proofs.Dict
import LiveScene.Proofs.Timer.Liveness

/-!
# LiveScene.Proofs.Timer.Flags

Flags that say whether a timer may still run.

A timer can be given a flag that it shares with whoever has collected it. The flag is set when the
timer is started, and cleared when the timer is taken out of the registry by a stop, a stop of all
timers of its instance, or a start in its place. `Flags` keeps such flags beside a registry, by the
numbers of the starts.

The registry itself has no flags. `isLive` looks for the timer instead, and answers what its flag
would say (`flag_eq_isLive_of_new`): as long as a timer is in the registry, its flag is cleared just
when the timer is taken out (`Flags.serveAll_of_kept`), and when it has left, nothing touches the
flag any more (`Flags.serveAll_of_ended`). So a timer that fires once keeps the flag that it had
when it was collected.
-/

namespace LiveScene

/-- The timers that a request takes out of a registry, but for those that are due. -/
def TimerRequest.stopped (s : Scheduler) : TimerRequest → List Timer
  | start owner id .. => (s.timer? owner id).toList
  | stop owner id => (s.timer? owner id).toList
  | stopAll owner => (s.timersOf owner).values
  | due .. => []

theorem TimerRequest.mem_stopped_iff {s : Scheduler} {r : TimerRequest} {t : Timer} :
    t ∈ r.stopped s ↔ ∃ owner id, s.timer? owner id = some t ∧ r.ends owner id = true := by
  cases r with
  | start o i spec now cells => simp [stopped, ends, and_comm]
  | stop o i => simp [stopped, ends, and_comm]
  | stopAll o => simp [stopped, ends, Dict.mem_values_iff, Scheduler.timer?]
  | due o family now cells => simp [stopped, ends]

/-- Flags by the numbers of the starts. A timer shares its flag with whoever has collected it, so
that it can be read when the timer is not in the registry any more. -/
def Flags := Nat → Bool

namespace Flags

/-- Clears the flags of timers. -/
def clear (flags : Flags) (timers : List Timer) : Flags := fun serial =>
  flags serial && timers.all fun t => t.serial != serial

/-- The flags after a request to a registry: those of the timers that it stops are cleared, and a
timer that it starts has a new one, which is set. Those that are due keep theirs. -/
def serve (flags : Flags) (s : Scheduler) (r : TimerRequest) : Flags :=
  let cleared := flags.clear (r.stopped s)
  match r with
  | .start _ _ spec now cells =>
    match s.started? spec now cells with
    | none => cleared
    | some t => fun serial => serial == t.serial || cleared serial
  | _ => cleared

/-- The flags after requests in order. -/
def serveAll (flags : Flags) (s : Scheduler) : List TimerRequest → Flags
  | [] => flags
  | r :: rest => (flags.serve s r).serveAll (s.serve r) rest

/-- The flags of all timers in a registry are set. -/
def Raised (flags : Flags) (s : Scheduler) : Prop :=
  ∀ {owner id t}, s.timer? owner id = some t → flags t.serial = true

variable {flags : Flags} {s : Scheduler} {r : TimerRequest} {serial : Nat}

theorem clear_eq_false {timers : List Timer} {t : Timer} (ht : t ∈ timers) :
    flags.clear timers t.serial = false := by
  have hall : timers.all (fun u => u.serial != t.serial) = false :=
    List.all_eq_false.mpr ⟨t, ht, by simp⟩
  rw [clear, hall, Bool.and_false]

theorem clear_eq_self {timers : List Timer} (h : ∀ t ∈ timers, t.serial ≠ serial) :
    flags.clear timers serial = flags serial := by
  have hall : timers.all (fun t => t.serial != serial) = true :=
    List.all_eq_true.mpr fun t ht => bne_iff_ne.mpr (h t ht)
  rw [clear, hall, Bool.and_true]

/-- A question clears no flag, also of a timer that leaves the registry. -/
theorem serve_due (owner : String) (family : TimerFamily) (now : Duration) (cells : CellStore) :
    flags.serve s (.due owner family now cells) = flags :=
  funext fun _ => Bool.and_true _

/-- A request gives a flag to no number but the next one. -/
theorem serve_of_lt (h : serial < s.nextSerial) :
    flags.serve s r serial = flags.clear (r.stopped s) serial := by
  cases r with
  | start owner id spec now cells =>
      simp only [serve]
      cases hstarted : s.started? spec now cells with
      | none => rfl
      | some t =>
          obtain ⟨resolved, -, rfl⟩ := Option.map_eq_some_iff.mp hstarted
          have hne : (serial == s.nextSerial) = false := beq_false_of_ne (Nat.ne_of_lt h)
          dsimp only
          rw [hne, Bool.false_or]
  | _ => rfl

/-- Only a request that ends a timer clears its flag. -/
theorem serve_of_not_ends (hs : s.Numbered) {owner id : String} {t : Timer}
    (ht : s.timer? owner id = some t) (hends : r.ends owner id = false) :
    flags.serve s r t.serial = flags t.serial := by
  rw [serve_of_lt (hs.below ht)]
  refine clear_eq_self fun u hu heq => ?_
  obtain ⟨o, i, hfound, hended⟩ := TimerRequest.mem_stopped_iff.mp hu
  obtain ⟨rfl, rfl⟩ := hs.inj hfound ht heq
  rw [hends] at hended
  cases hended

theorem serve_of_ends (hs : s.Numbered) {owner id : String} {t : Timer}
    (ht : s.timer? owner id = some t) (hends : r.ends owner id = true) :
    flags.serve s r t.serial = false := by
  rw [serve_of_lt (hs.below ht)]
  exact clear_eq_false (TimerRequest.mem_stopped_iff.mpr ⟨owner, id, ht, hends⟩)

/-- The flag of a timer that has left the registry stays as it is. -/
theorem serveAll_of_ended (h : s.Ended serial) (rs : List TimerRequest) :
    flags.serveAll s rs serial = flags serial := by
  induction rs generalizing flags s with
  | nil => rfl
  | cons r rest ih =>
      rw [serveAll, ih (h.serve r), serve_of_lt h.below]
      refine clear_eq_self fun t ht => ?_
      obtain ⟨owner, id, hfound, -⟩ := TimerRequest.mem_stopped_iff.mp ht
      exact h.missed hfound

/-- The flag of a timer that stays in the registry is cleared when a request ends the timer. -/
theorem serveAll_of_kept {f : FiredTimer} (h : s.Kept f) (hs : s.Numbered)
    (hflag : flags f.serial = true) (rs : List TimerRequest) :
    flags.serveAll s rs f.serial = !Scheduler.isEndedBy f rs := by
  induction rs generalizing flags s with
  | nil => exact hflag
  | cons r rest ih =>
      have ⟨t, ht, hserial, _⟩ := h
      rw [serveAll, Scheduler.isEndedBy, List.any_cons]
      cases hends : r.ends f.owner f.id with
      | true =>
          rw [serveAll_of_ended (h.ended_serve hs hends), ← hserial, serve_of_ends hs ht hends,
            Bool.true_or, Bool.not_true]
      | false =>
          have hkept : flags.serve s r f.serial = true := by
            rw [← hserial, serve_of_not_ends hs ht hends, hserial, hflag]
          rw [ih (h.serve hends) (hs.serve r) hkept, Bool.false_or, Scheduler.isEndedBy]

/-- A timer that is started has its flag set, and a timer that stays keeps it. -/
theorem Raised.serve (h : flags.Raised s) (hs : s.Numbered) (r : TimerRequest) :
    (flags.serve s r).Raised (s.serve r) := by
  intro owner id u hu
  cases hends : r.ends owner id with
  | true =>
      obtain ⟨spec, now, cells, rfl, hstarted⟩ := Scheduler.timer?_serve_of_ends hends hu
      simp only [Flags.serve, hstarted, beq_self_eq_true, Bool.true_or]
  | false =>
      rcases Scheduler.timer?_serve_cases hu with ⟨spec, now, cells, rfl, -⟩ | ⟨-, t, ht, hsame⟩
      · simp [TimerRequest.ends] at hends
      · rw [hsame.serial, serve_of_not_ends hs ht hends]
        exact h ht

theorem Raised.serveAll (h : flags.Raised s) (hs : s.Numbered) (rs : List TimerRequest) :
    (flags.serveAll s rs).Raised (s.serveAll rs) := by
  induction rs generalizing flags s with
  | nil => exact h
  | cons r rest ih => exact ih (h.serve hs r) (hs.serve r)

theorem serveAll_append (flags : Flags) (s : Scheduler) (xs ys : List TimerRequest) :
    flags.serveAll s (xs ++ ys) = (flags.serveAll s xs).serveAll (s.serveAll xs) ys := by
  induction xs generalizing flags s with
  | nil => rfl
  | cons r rest ih => exact ih (flags.serve s r) (s.serve r)

end Flags

namespace Scheduler

variable {s : Scheduler} {flags : Flags} {owner : String} {family : TimerFamily} {now : Duration}
  {cells : CellStore} {f : FiredTimer}

/-- A timer that was collected has its flag set as long as it is live. -/
theorem flag_eq_isLive (hs : s.Numbered) (hraised : flags.Raised s)
    (hf : f ∈ (s.due owner family now cells).2) (rs : List TimerRequest) :
    flags.serveAll (s.due owner family now cells).1 rs f.serial =
      ((s.due owner family now cells).1.serveAll rs).isLive f := by
  have hflag : flags f.serial = true := by
    obtain ⟨t, ht, -, htf⟩ := mem_due.mp hf
    rw [← htf]
    exact hraised ht
  rw [isLive_serveAll hs hf]
  cases hrepeats : f.repeats with
  | false =>
      rw [Flags.serveAll_of_ended (ended_due hs hf hrepeats), hflag]
      rfl
  | true =>
      have hserved := hs.serve (.due owner family now cells)
      exact Flags.serveAll_of_kept (kept_due hf hrepeats) hserved hflag rs

/-- Whatever requests lead to a registry that hands a timer over, and whatever requests follow: the
timer is live just as long as its flag is set. -/
theorem flag_eq_isLive_of_new (flags : Flags) (frame : Duration) (before after : List TimerRequest)
    (hf : f ∈ (((new frame).serveAll before).due owner family now cells).2) :
    flags.serveAll (new frame) (before ++ .due owner family now cells :: after) f.serial =
      ((new frame).serveAll (before ++ .due owner family now cells :: after)).isLive f := by
  have hnew : flags.Raised (new frame) := fun ht => by cases ht
  rw [Flags.serveAll_append, serveAll_append, Flags.serveAll, Flags.serve_due]
  exact flag_eq_isLive ((numbered_new frame).serveAll before)
    (hnew.serveAll (numbered_new frame) before) hf after

end Scheduler

end LiveScene
