import LiveScene.Proofs.Performer.Reached
import LiveScene.Assembly

/-!
# LiveScene.Proofs.Performer.Edited

What events and actions do to a stage, as a chain of edits.

There are three edits: a cell is created, a cell is assigned, and an animation is asked for.
`Stage.Edited` is their closure, with a condition on the targets of the animations. A property of
stages that the three preserve is thereby preserved by every event and by every run of actions,
whatever they are. The step of the animations is no edit.
-/

namespace LiveScene

namespace Stage

/-- A stage that edits make of another, where all targets of animations meet a condition. -/
inductive Edited (ok : Float → Prop) (s : Stage) : Stage → Prop where
  | refl : Edited ok s s
  | create {t : Stage} (h : Edited ok s t) (id : String) (type : ValueType) (initial : Value) :
      Edited ok s { t with cells := (t.cells.create id (initial.coerce type)).1 }
  | assign {t : Stage} (h : Edited ok s t) (cell : String) (op : AssignOp) (operand : Value) :
      Edited ok s (t.assign cell op operand)
  | animate {t : Stage} (h : Edited ok s t) (cell : String) {target : Float} (hok : ok target)
      (durationMs : Option UInt64) (curve : Option Curve) :
      Edited ok s (t.animate cell target durationMs curve)

theorem Edited.trans {ok : Float → Prop} {s t u : Stage} (h₁ : Edited ok s t)
    (h₂ : Edited ok t u) : Edited ok s u := by
  induction h₂ with
  | refl => exact h₁
  | create h id type initial ih => exact ih.create id type initial
  | assign h cell op operand ih => exact ih.assign cell op operand
  | animate h cell hok durationMs curve ih => exact ih.animate cell hok durationMs curve

/-- Edits leave the instance its name. -/
theorem Edited.owner_eq {ok : Float → Prop} {s t : Stage} (h : Edited ok s t) :
    t.cells.owner = s.cells.owner := by
  induction h with
  | refl => rfl
  | @create t h id type initial ih => exact (t.cells.owner_create id _).trans ih
  | @assign t h cell op operand ih =>
      rw [Stage.assign]
      split
      · exact ih
      · exact (t.cells.owner_update cell _).trans ih
  | animate h cell hok durationMs curve ih => exact ih

end Stage

open Stage (Edited)

variable {ok : Float → Prop}

/-! ### Runs of actions -/

namespace Performer

theorem stage_bar (p : Performer) (i : Invocation) (a : Action) :
    (p.bar i a).1.stage = p.stage := by
  rw [bar]
  split <;> rfl

/-- The tasks of the full-capability context do not touch the stage. -/
theorem stage_performFull (p : Performer) (i : Invocation) (task : Task) :
    (p.performFull i task).1.stage = p.stage := by
  cases task <;> rfl

theorem edited_assignDrawn (p : Performer) (target : String) (low high : Float) :
    Edited ok p.stage (p.assignDrawn target low high).stage := by
  unfold assignDrawn
  split
  next drawn chance _ =>
    cases drawn with
    | none => exact Edited.refl
    | some x => exact Edited.refl.assign target .set (.number x)

theorem edited_runEach {α : Type} {run : α → Performer → Performer × Report}
    (step : ∀ a p, Edited ok p.stage (run a p).1.stage) (items : List α) (p : Performer) :
    Edited ok p.stage (runEach run items p).1.stage :=
  runEach_of_forall (P := fun q => Edited ok p.stage q.stage)
    (fun a _ q hq => hq.trans (step a q)) Edited.refl

section

variable (hok : ∀ v : Value, ok v.toNumber)
include hok

/-- An action that is reached makes one edit at most. -/
theorem edited_act (i : Invocation) (a : Action) (p : Performer) :
    Edited ok p.stage (act i a p).1.stage := by
  cases hbar : isBarred i.context a with
  | true =>
      rw [act_of_isBarred hbar, stage_bar]
      exact Edited.refl
  | false =>
      cases hcontext : a.task.context with
      | fullCapability =>
          rw [act_of_context hbar hcontext, stage_performFull]
          exact Edited.refl
      | lowLatency =>
          obtain ⟨task, declared⟩ := a
          rw [act, hbar]
          cases task with
          | assignCell target op value => exact Edited.refl.assign target op (p.eval i value)
          | branch condition yes no => exact Edited.refl
          | animate target goal durationMs curve =>
              exact Edited.refl.animate target (hok (p.eval i goal)) durationMs curve
          | playEffect name volume pitch => exact Edited.refl
          | randomAssign target low high => exact edited_assignDrawn p target low high
          | _ => exact absurd hcontext (by simp [Action.task, Task.context])

theorem edited_perform (i : Invocation) (a : Action) (p : Performer) :
    Edited ok p.stage (perform i a p).1.stage := by
  rw [perform_eq_runEach_act]
  exact edited_runEach (edited_act hok i) _ p

theorem edited_performAll (i : Invocation) (actions : List Action) (p : Performer) :
    Edited ok p.stage (performAll i actions p).1.stage := by
  rw [performAll_eq_runEach_act]
  exact edited_runEach (edited_act hok i) _ p

theorem edited_runForwarded (p : Performer) (now : Duration) :
    Edited ok p.stage (p.runForwarded now).1.stage := by
  have step : ∀ (f : ForwardedAction) (q : Performer),
      Edited ok q.stage (perform (f.invocation now) f.action q).1.stage :=
    fun f q => edited_perform hok (f.invocation now) f.action q
  exact edited_runEach step p.forwarded.drain.1 { p with forwarded := p.forwarded.drain.2 }

theorem edited_runFired (context : Context) (now : Duration) (f : FiredTimer)
    (p : Performer) : Edited ok p.stage (runFired context now f p).1.stage := by
  unfold runFired
  split
  · cases f.body with
    | actions list => exact edited_performAll hok ⟨context, f.params, none, now⟩ list p
    | callback name => exact Edited.refl
  · exact Edited.refl

theorem edited_runDue (p : Performer) (family : TimerFamily) (context : Context)
    (now : Duration) : Edited ok p.stage (p.runDue family context now).1.stage :=
  edited_runEach (edited_runFired hok context now)
    (p.scheduler.due p.owner family now p.stage.cells).2
    { p with scheduler := (p.scheduler.due p.owner family now p.stage.cells).1 }

end

end Performer

/-! ### Events -/

namespace Event

mutual

/-- The numbers that an event asks animations to. -/
def animated : Event → List Float
  | updateCell _ (.number target) true _ => [target]
  | batch events => animatedAll events
  | _ => []

/-- The numbers that the events of a list ask animations to. -/
def animatedAll : List Event → List Float
  | [] => []
  | e :: r => animated e ++ animatedAll r

end

theorem edited_updateCell (a : Assembly) (id : String) (value : Value) (animate : Bool)
    (durationMs : Option UInt64)
    (h : ∀ x ∈ (updateCell id value animate durationMs).animated, ok x) :
    Edited ok a.stage (a.updateCell id value animate durationMs).stage := by
  unfold Assembly.updateCell
  cases value with
  | number target =>
      cases animate with
      | false => exact Edited.refl.assign id .set (.number target)
      | true =>
          have htarget : ok target := h target (by simp [animated])
          simp only [Bool.true_and]
          split
          · exact Edited.refl.animate id htarget durationMs none
          · exact Edited.refl.assign id .set (.number target)
  | bool b => exact Edited.refl.assign id .set (.bool b)
  | text s => exact Edited.refl.assign id .set (.text s)

mutual

theorem edited_apply (e : Event) (a : Assembly) (h : ∀ x ∈ e.animated, ok x) :
    Edited ok a.stage (e.apply a).stage := by
  cases e with
  | createCell id type initial =>
      rw [apply]
      exact Edited.refl.create id type initial
  | updateCell id value animate durationMs =>
      rw [apply]
      exact edited_updateCell a id value animate durationMs h
  | batch events =>
      rw [apply]
      rw [animated] at h
      exact edited_applyAll events a h
  | _ =>
      rw [apply]
      exact Edited.refl

/-- A list of events makes edits, with the targets that it names. -/
theorem edited_applyAll (events : List Event) (a : Assembly)
    (h : ∀ x ∈ animatedAll events, ok x) : Edited ok a.stage (applyAll events a).stage := by
  cases events with
  | nil =>
      rw [applyAll]
      exact Edited.refl
  | cons e r =>
      rw [applyAll]
      rw [animatedAll] at h
      have hhead := edited_apply e a fun x hx => h x (List.mem_append_left _ hx)
      exact hhead.trans (edited_applyAll r _ fun x hx => h x (List.mem_append_right _ hx))

end

theorem mem_animatedAll {events : List Event} {x : Float} :
    x ∈ animatedAll events ↔ ∃ e ∈ events, x ∈ e.animated := by
  induction events with
  | nil => simp [animatedAll]
  | cons e r ih => simp [animatedAll, ih]

end Event

end LiveScene
