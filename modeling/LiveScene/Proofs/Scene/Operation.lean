import LiveScene.Proofs.Performer.Edited
import LiveScene.Scene

/-!
# LiveScene.Proofs.Scene.Operation

Runs of a scene.

* An `Operation` is what a host asks of a scene. What other scenes do to the timers and records
  that are shared with it is one more, since it may come between any two others.
* `Scene.run` carries out operations in order. What holds of all runs is shown for one `step`.
* `edited_step` takes a step apart: first the animations move, if it is a frame, and all that it
  does to the stage after that are edits.
-/

namespace LiveScene

/-- What is asked of a scene. -/
inductive Operation where
  | apply (event : Event)
  | sync (log : List Event)
  | handle (id : String) (kind : HandlerKind) (params : Params) (now : Duration)
  | handleItem (id : String) (kind : HandlerKind) (params : Params) (item : Json)
      (now : Duration)
  | handleIn (id : String) (kind : HandlerKind) (i : Invocation)
  | execute (actions : List Action) (i : Invocation)
  | runForwarded (now : Duration)
  | startTimer (id : String) (spec : TimerSpec) (now : Duration)
  | stopTimer (id : String)
  | frame (now : Duration)
  | poll (now : Duration)
  | teardown
  /-- Others change what is shared. -/
  | share (scheduler : Scheduler) (records : RecordStore)

/-- The events of an operation. -/
def Operation.events : Operation → List Event
  | apply event => [event]
  | sync log => log
  | _ => []

namespace Scene

/-- An answer to an interaction as a report. -/
def answered (answer : Scene × Except Fault Report) : Scene × Report :=
  match answer with
  | (s, .ok report) => (s, report)
  | (s, .error fault) => (s, { errors := [fault] })

/-- Carries out an operation. -/
def step (s : Scene) : Operation → Scene × Report
  | .apply event => (s.apply event, ∅)
  | .sync log => ((s.sync log).1, ∅)
  | .handle id kind params now => answered (s.handle id kind params now)
  | .handleItem id kind params item now => answered (s.handleItem id kind params item now)
  | .handleIn id kind i => answered (s.handleIn id kind i)
  | .execute actions i => s.execute actions i
  | .runForwarded now => s.runForwarded now
  | .startTimer id spec now => (s.startTimer id spec now, ∅)
  | .stopTimer id => ((s.stopTimer id).1, ∅)
  | .frame now => s.frame now
  | .poll now => s.poll now
  | .teardown => (s.teardown, ∅)
  | .share scheduler records =>
    ({ s with performer.scheduler := scheduler, performer.records := records }, ∅)

/-- Carries out operations in order. -/
def run (s : Scene) : List Operation → Scene × Report
  | [] => (s, ∅)
  | op :: r => (((s.step op).1.run r).1, (s.step op).2 ++ ((s.step op).1.run r).2)

theorem run_append (s : Scene) (xs ys : List Operation) :
    (s.run (xs ++ ys)).1 = ((s.run xs).1.run ys).1 := by
  induction xs generalizing s with
  | nil => rfl
  | cons op r ih => exact ih (s.step op).1

/-- What holds whenever a run comes to its next operation. -/
def Always (P : Scene → Operation → Prop) : Scene → List Operation → Prop
  | _, [] => True
  | s, op :: r => P s op ∧ Always P (s.step op).1 r

/-- The stage of a scene. -/
def stage (s : Scene) : Stage := s.performer.stage

/-- The stage when an operation has moved the animations, which only frames do. -/
def moved (s : Scene) : Operation → Stage
  | .frame now => if s.tornDown then s.stage else s.stage.frame now
  | _ => s.stage

/-! ### A step as edits -/

section Edited

open Stage (Edited)

variable {ok : Float → Prop} (hok : ∀ v : Value, ok v.toNumber)
include hok

theorem edited_handleIn (s : Scene) (id : String) (kind : HandlerKind) (i : Invocation) :
    Edited ok s.stage (answered (s.handleIn id kind i)).1.stage := by
  unfold handleIn
  cases s.graph.find? id with
  | none => exact Edited.refl
  | some node =>
      exact Performer.edited_performAll hok i (node.attributes.handlers.get kind) s.performer

theorem edited_poll (s : Scene) (now : Duration) :
    Edited ok s.stage (s.poll now).1.stage := by
  unfold poll
  split
  · exact Edited.refl
  · have hforwarded := Performer.edited_runForwarded hok s.performer.playEffects.1 now
    exact hforwarded.trans
      (Performer.edited_runDue hok (s.performer.playEffects.1.runForwarded now).1 .wallClock
        .fullCapability now)

/-- Once the animations have moved, all that an operation does to the stage are edits. -/
theorem edited_step (s : Scene) (op : Operation)
    (h : ∀ x ∈ Event.animatedAll op.events, ok x) :
    Edited ok (s.moved op) (s.step op).1.stage := by
  cases op with
  | apply event =>
      exact Event.edited_apply event s.assembly fun x hx =>
        h x (Event.mem_animatedAll.mpr ⟨event, List.mem_singleton_self event, hx⟩)
  | sync log =>
      show Edited ok s.stage (s.assembly.sync log).1.stage
      unfold Assembly.sync
      split
      -- Only the part of the log that was not applied yet is applied.
      · refine Event.edited_applyAll (log.drop s.assembly.applied) s.assembly fun x hx => ?_
        obtain ⟨e, he, hxe⟩ := Event.mem_animatedAll.mp hx
        exact h x (Event.mem_animatedAll.mpr ⟨e, List.mem_of_mem_drop he, hxe⟩)
      · exact Edited.refl
  | handle id kind params now => exact edited_handleIn hok s id kind _
  | handleItem id kind params item now => exact edited_handleIn hok s id kind _
  | handleIn id kind i => exact edited_handleIn hok s id kind i
  | execute actions i => exact Performer.edited_performAll hok i actions s.performer
  | runForwarded now => exact Performer.edited_runForwarded hok s.performer now
  | startTimer id spec now =>
      show Edited ok s.stage (s.startTimer id spec now).stage
      unfold startTimer
      split
      · exact Edited.refl
      · exact Edited.refl
  | stopTimer id => exact Edited.refl
  | frame now =>
      show Edited ok (s.moved (.frame now)) (s.frame now).1.stage
      by_cases htorn : s.tornDown = true
      · rw [moved, Scene.frame, if_pos htorn, if_pos htorn]
        exact Edited.refl
      · rw [moved, Scene.frame, if_neg htorn, if_neg htorn]
        exact Performer.edited_runDue hok { s.performer with stage := s.performer.stage.frame now }
          .frame .lowLatency now
  | poll now => exact edited_poll hok s now
  | teardown =>
      show Edited ok s.stage s.teardown.stage
      unfold teardown
      split
      · exact Edited.refl
      · exact Edited.refl
  | share scheduler records => exact Edited.refl

end Edited

end Scene

end LiveScene
