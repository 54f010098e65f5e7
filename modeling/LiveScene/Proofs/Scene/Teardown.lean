import LiveScene.Proofs.Scene.Deeds

/-!
# LiveScene.Proofs.Scene.Teardown

The timers of a scene that was torn down.

The teardown stops them all, and after it frames, polls and the host start none. But handlers still
run, and so do actions that were handed over or that the host has executed, and the timers that
these start stay. `activeTimers_after_teardown`: the scene has no timers in any state as long as
no such operation leaves one.
-/

namespace LiveScene

open Performer
open Deed (requests)

/-- Whether an operation runs actions, whether the scene was torn down or not. -/
def Operation.runsActions : Operation → Bool
  | handle .. | handleItem .. | handleIn .. | execute .. | runForwarded _ => true
  | _ => false

namespace Scene

/-- An operation leaves a timer that it has started. -/
def LeavesTimer (s : Scene) (op : Operation) : Prop :=
  ∃ id, Scheduler.leaves s.performer.scheduler.frame s.owner id
    (requests (s.deeds op) s.performer) = true

variable {s : Scene} {op : Operation}

theorem tornDown_answered (s : Scene) (id : String) (kind : HandlerKind) (i : Invocation) :
    (answered (s.handleIn id kind i)).1.tornDown = s.tornDown := by
  rw [handleIn]
  cases s.graph.find? id <;> rfl

/-- The teardown is not undone. -/
theorem tornDown_step (h : s.tornDown = true) (op : Operation) :
    (s.step op).1.tornDown = true := by
  cases op with
  | handle id kind params now => exact (s.tornDown_answered id kind _).trans h
  | handleItem id kind params item now => exact (s.tornDown_answered id kind _).trans h
  | handleIn id kind i => exact (s.tornDown_answered id kind i).trans h
  | startTimer id spec now =>
      rw [step, startTimer, if_pos h]
      exact h
  | frame now =>
      rw [step, frame_eq_of_tornDown h]
      exact h
  | poll now =>
      rw [step, poll_eq_of_tornDown h]
      exact h
  | teardown => exact s.tornDown_teardown
  | _ => exact h

/-- A scene that was torn down asks for no timers that are due. -/
theorem not_due_of_tornDown (h : s.tornDown = true) {r : TimerRequest}
    (hr : r ∈ requests (s.deeds op) s.performer) (owner : String) (family : TimerFamily)
    (now : Duration) (cells : CellStore) : r ≠ .due owner family now cells := by
  rintro rfl
  obtain ⟨d, hd, q, hrequest⟩ := Deed.exists_of_mem_requests hr
  rw [Deed.eq_collect_of_request? hrequest] at hd
  rw [(mem_deeds_collect.mp hd).1] at h
  cases h

/-- The operations that run no actions leave no timer. -/
theorem not_leavesTimer (h : s.tornDown = true) (hop : op.runsActions = false) :
    ¬ s.LeavesTimer op := by
  rintro ⟨id, hid⟩
  cases op with
  | handle | handleItem | handleIn | execute | runForwarded => cases hop
  | startTimer name spec now =>
      rw [deeds, if_pos h] at hid
      cases hid
  | stopTimer name =>
      have hstop : Scheduler.leaves s.performer.scheduler.frame s.owner id
          [.stop s.owner name] = true := hid
      rw [Scheduler.leaves, List.foldl_cons, Scheduler.presentAfter] at hstop
      split at hstop <;> cases hstop
  | frame now =>
      rw [deeds, tickDeeds, if_pos h] at hid
      cases hid
  | poll now =>
      rw [deeds, tickDeeds, if_pos h] at hid
      cases hid
  | teardown =>
      rw [deeds, if_pos h] at hid
      cases hid
  | _ => cases hid

/-- After an operation of a scene that was torn down and has no timers, it has none exactly if the
operation leaves none. -/
theorem activeTimers_step (htorn : s.tornDown = true) (hnone : s.activeTimers = 0)
    (hapart : s.Apart op) : (s.step op).1.activeTimers = 0 ↔ ¬ s.LeavesTimer op := by
  have halong := along_apart_deeds hapart
  obtain ⟨rs, hscheduler, hasked⟩ := Deed.scheduler_replay halong
  have howner : (s.step op).1.owner = s.owner := by
    rw [owner, performer_step, Deed.owner_replay halong]
    rfl
  have hnotdue : ∀ r ∈ rs, ∀ family now cells, r ≠ .due s.owner family now cells := by
    rintro r hr family now cells rfl
    have hmem : TimerRequest.due s.owner family now cells ∈
        rs.filter fun r => r.owner = s.performer.owner :=
      List.mem_filter.mpr ⟨hr, decide_eq_true rfl⟩
    rw [hasked] at hmem
    exact not_due_of_tornDown htorn hmem s.owner family now cells rfl
  have hpresent : ∀ id, ((s.step op).1.performer.scheduler.timer? s.owner id).isSome =
      Scheduler.leaves s.performer.scheduler.frame s.owner id
        (requests (s.deeds op) s.performer) := by
    intro id
    have hbefore : s.performer.scheduler.timer? s.owner id = none :=
      Scheduler.activeCount_eq_zero_iff.mp hnone id
    rw [performer_step, hscheduler, Scheduler.isSome_timer?_serveAll hnotdue, hbefore, ← hasked]
    exact (Scheduler.leaves_filter _ _ id rs).symm
  rw [activeTimers, howner, Scheduler.activeCount_eq_zero_iff, LeavesTimer, not_exists]
  refine forall_congr' fun id => ?_
  rw [← hpresent, Bool.not_eq_true, Option.isSome_eq_false_iff, Option.isNone_iff_eq_none]

theorem always_activeTimers_iff (htorn : s.tornDown = true) (hnone : s.activeTimers = 0)
    {ops : List Operation} (hapart : Always Apart s ops) :
    Always (fun t op => (t.step op).1.activeTimers = 0) s ops ↔
      Always (fun t op => op.runsActions = true → ¬ t.LeavesTimer op) s ops := by
  induction ops generalizing s with
  | nil => exact Iff.rfl
  | cons op r ih =>
      have hstep := activeTimers_step htorn hnone hapart.1
      have hrest := fun hzero => ih (tornDown_step htorn op) hzero hapart.2
      constructor
      · rintro ⟨hzero, hr⟩
        exact ⟨fun _ => hstep.mp hzero, (hrest hzero).mp hr⟩
      · rintro ⟨hno, hr⟩
        have hzero : (s.step op).1.activeTimers = 0 := by
          refine hstep.mpr ?_
          cases hop : op.runsActions with
          | true => exact hno hop
          | false => exact not_leavesTimer htorn hop
        exact ⟨hzero, (hrest hzero).mpr hr⟩

/-- The teardown leaves a scene without timers, and in the states after it the scene has none
exactly as long as no operation that runs actions leaves one. -/
theorem activeTimers_after_teardown (hlive : s.tornDown = false) {ops : List Operation}
    (hapart : Always Apart s.teardown ops) :
    s.teardown.activeTimers = 0 ∧
      (Always (fun t op => (t.step op).1.activeTimers = 0) s.teardown ops ↔
        Always (fun t op => op.runsActions = true → ¬ t.LeavesTimer op) s.teardown ops) := by
  have hnone : s.teardown.activeTimers = 0 := by
    rw [teardown, hlive]
    refine Scheduler.activeCount_eq_zero_iff.mpr fun id => ?_
    exact (Scheduler.timer?_stopAll _ _ _ _).trans (if_pos rfl)
  exact ⟨hnone, always_activeTimers_iff s.tornDown_teardown hnone hapart⟩

/-- A scene with a timer. -/
def ringing : Scene :=
  blank.startTimer "bell" (delayedSpec (atStart none) 10 [chime]) .zero

/-- An action is put off and stopped before its time. -/
def revoked : List Action :=
  [.mk (.delay 10 [chime]) none, .mk (.stopTimer "delay#0") none]

/-- After the teardown there is a poll, the host tries to start the timer again, and an action is
put off and stopped. -/
def idleAfterwards : List Operation :=
  [.poll (.ofMillis 10), .startTimer "bell" (delayedSpec (atStart none) 10 [chime]) .zero,
    .execute revoked (atStart none)]

theorem not_leavesTimer_revoked :
    ¬ ringing.teardown.LeavesTimer (.execute revoked (atStart none)) := by
  rintro ⟨id, hid⟩
  have hrequests : requests (ringing.teardown.deeds (.execute revoked (atStart none)))
      ringing.teardown.performer =
        [.start "scene" "delay#0" (delayedSpec (atStart none) 10 [chime]) .zero
          ringing.teardown.performer.stage.cells, .stop "scene" "delay#0"] := rfl
  rw [hrequests, Scheduler.leaves, List.foldl_cons, List.foldl_cons, List.foldl_nil,
    Scheduler.presentAfter] at hid
  -- The stop ends what the start leaves, if it is about that name at all.
  cases hends : (TimerRequest.stop "scene" "delay#0").ends ringing.teardown.owner id with
  | true =>
      rw [hends] at hid
      cases hid
  | false =>
      have hstart : (TimerRequest.start "scene" "delay#0" (delayedSpec (atStart none) 10 [chime])
          .zero ringing.teardown.performer.stage.cells).ends ringing.teardown.owner id = false :=
        hends
      rw [hends, Scheduler.presentAfter, hstart] at hid
      cases hid

theorem activeTimers_after_teardown_idle :
    ringing.activeTimers = 1 ∧ ringing.tornDown = false ∧
      Always Apart ringing.teardown idleAfterwards ∧ ringing.teardown.activeTimers = 0 ∧
      Always (fun t op => (t.step op).1.activeTimers = 0) ringing.teardown idleAfterwards := by
  have hapart : Always Apart ringing.teardown idleAfterwards := ⟨trivial, trivial, trivial, trivial⟩
  obtain ⟨hnone, hiff⟩ := activeTimers_after_teardown (s := ringing) rfl hapart
  refine ⟨rfl, rfl, hapart, hnone, hiff.mpr ⟨nofun, nofun, fun _ => ?_, trivial⟩⟩
  exact not_leavesTimer_revoked

/-- An action that is put off after the teardown has a timer. -/
theorem activeTimers_execute_blank :
    (blank.teardown.execute [.mk (.delay 10 [chime]) none] (atStart none)).1.activeTimers = 1 :=
  rfl

end Scene

end LiveScene
