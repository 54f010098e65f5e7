import LiveScene.Proofs.Performer.Reached

/-!
# LiveScene.Proofs.Performer.Handover

What the low-latency context hands over to the full-capability context.

* An action that is reached leaves the queue alone, or appends itself with the parameters and the
  item of its run (`handOver?`, `waiting_act`). In the full-capability context all that is reached
  runs, so nothing is appended and nothing refused (`Report.Complete`).
* `Call` lists what is asked of a performer. `taken_append_waiting` accounts for the queue in any
  run of calls: what was taken from it to be run, and then what still waits, is what was handed
  over, in that order. So nothing gets lost, runs twice, or changes its place or its inputs.
-/

namespace LiveScene

/-- A run that had all its actions done: none was handed over and none was refused. -/
structure Report.Complete (r : Report) : Prop where
  forwarded : r.forwarded = 0
  errors : r.errors = []

theorem Report.complete_empty : (∅ : Report).Complete := ⟨rfl, rfl⟩

theorem Report.Complete.append {r s : Report} (hr : r.Complete) (hs : s.Complete) :
    (r ++ s).Complete where
  forwarded := by simp [hr.forwarded, hs.forwarded]
  errors := by simp [hr.errors, hs.errors]

namespace Performer

/-! ### One action -/

/-- What an action leaves in the queue: itself, if it may not run and changes no records. -/
def handOver? (i : Invocation) (a : Action) : Option ForwardedAction :=
  if isBarred i.context a && !a.task.isDataMutation then some ⟨a, i.params, i.scope⟩ else none

theorem handOver?_of_not_isBarred {i : Invocation} {a : Action}
    (h : isBarred i.context a = false) : handOver? i a = none := by
  simp [handOver?, h]

/-- The interpreter of the full-capability tasks leaves the queue alone and refuses nothing. -/
theorem complete_performFull (p : Performer) (i : Invocation) (task : Task) :
    (p.performFull i task).1.forwarded = p.forwarded ∧ (p.performFull i task).2.Complete := by
  have hassert : (assertFull i).Complete := by
    unfold assertFull
    split <;> exact ⟨rfl, rfl⟩
  have hcarried : (p.carryOut i task).1.forwarded = p.forwarded ∧
      (p.carryOut i task).2.Complete := by
    cases task <;> exact ⟨rfl, ⟨rfl, rfl⟩⟩
  exact ⟨hcarried.1, hassert.append hcarried.2⟩

theorem forwarded_assignDrawn (p : Performer) (target : String) (low high : Float) :
    (p.assignDrawn target low high).forwarded = p.forwarded := by
  unfold assignDrawn
  split
  next drawn chance _ => cases drawn <;> rfl

/-- An action that may run leaves the queue alone and is not refused. -/
theorem complete_act {i : Invocation} {a : Action} (h : isBarred i.context a = false)
    (p : Performer) : (act i a p).1.forwarded = p.forwarded ∧ (act i a p).2.Complete := by
  cases hcontext : a.task.context with
  | fullCapability =>
      obtain ⟨hsame, hcomplete⟩ := complete_performFull p i a.task
      rw [act_of_context h hcontext]
      exact ⟨hsame, hcomplete.append ⟨rfl, rfl⟩⟩
  | lowLatency =>
      obtain ⟨task, declared⟩ := a
      rw [act, h]
      cases task with
      | assignCell | branch | animate | playEffect => exact ⟨rfl, ⟨rfl, rfl⟩⟩
      | randomAssign target low high =>
          exact ⟨forwarded_assignDrawn p target low high, ⟨rfl, rfl⟩⟩
      | _ => simp [Action.task, Task.context] at hcontext

/-- All that a reached action does to the queue is to append itself there. -/
theorem waiting_act (i : Invocation) (a : Action) (p : Performer) :
    (act i a p).1.forwarded.waiting = p.forwarded.waiting ++ (handOver? i a).toList := by
  cases h : isBarred i.context a with
  | false => simp [(complete_act h p).1, handOver?_of_not_isBarred h]
  | true =>
      rw [act_of_isBarred h, bar, handOver?, h]
      cases a.task.isDataMutation with
      | true => simp
      | false => simp

/-! ### Runs of actions -/

/-- What a run of actions hands over, in the order in which it is reached. -/
def handedOver (i : Invocation) (actions : List Action) (p : Performer) : List ForwardedAction :=
  (reachedAll i actions p).filterMap (handOver? i)

theorem waiting_runEach_act (i : Invocation) (actions : List Action) (p : Performer) :
    (runEach (act i) actions p).1.forwarded.waiting =
      p.forwarded.waiting ++ actions.filterMap (handOver? i) := by
  induction actions generalizing p with
  | nil => simp [runEach]
  | cons a r ih =>
      rw [runEach_cons, ih, waiting_act, List.append_assoc]
      cases h : handOver? i a <;> simp [h]

theorem waiting_performAll (i : Invocation) (actions : List Action) (p : Performer) :
    (performAll i actions p).1.forwarded.waiting =
      p.forwarded.waiting ++ handedOver i actions p := by
  rw [performAll_eq_runEach_act]
  exact waiting_runEach_act i (reachedAll i actions p) p

section Runs

variable {α : Type} {run : α → Performer → Performer × Report}

/-- If each run of a list leaves the queue alone and does all its actions, the run of the list
does. -/
theorem complete_runEach
    (step : ∀ a p, (run a p).1.forwarded = p.forwarded ∧ (run a p).2.Complete)
    (items : List α) (p : Performer) :
    (runEach run items p).1.forwarded = p.forwarded ∧ (runEach run items p).2.Complete := by
  induction items generalizing p with
  | nil => exact ⟨rfl, Report.complete_empty⟩
  | cons a r ih =>
      obtain ⟨hfirst, hfirst'⟩ := step a p
      obtain ⟨hrest, hrest'⟩ := ih (run a p).1
      exact ⟨hrest.trans hfirst, hfirst'.append hrest'⟩

end Runs

variable {i : Invocation} (hfull : i.context = .fullCapability)
include hfull

/-- In the full-capability context an action does all that is nested in it. -/
theorem complete_perform (a : Action) (p : Performer) :
    (perform i a p).1.forwarded = p.forwarded ∧ (perform i a p).2.Complete := by
  rw [perform_eq_runEach_act]
  exact complete_runEach (fun b => complete_act (isBarred_of_fullCapability hfull b)) _ p

theorem complete_performAll (actions : List Action) (p : Performer) :
    (performAll i actions p).1.forwarded = p.forwarded ∧
      (performAll i actions p).2.Complete := by
  rw [performAll_eq_runEach]
  exact complete_runEach (complete_perform hfull) actions p

end Performer

open Performer

/-- The actions that wait are all done, and none waits then. -/
theorem Performer.complete_runForwarded (p : Performer) (now : Duration) :
    (p.runForwarded now).1.forwarded.waiting = [] ∧ (p.runForwarded now).2.Complete := by
  obtain ⟨hsame, hcomplete⟩ := complete_runEach
    (fun (f : ForwardedAction) q => complete_perform (i := f.invocation now) rfl f.action q)
    p.forwarded.waiting { p with forwarded := {} }
  exact ⟨congrArg Queue.waiting hsame, hcomplete⟩

/-! ### Runs of calls -/

/-- What is asked of a performer. -/
inductive Call where
  /-- To run actions. -/
  | execute (i : Invocation) (actions : List Action)
  /-- To run the actions that wait. -/
  | runForwarded (now : Duration)
  /-- Nothing: others change what they share with it. -/
  | share (stage : Stage) (scheduler : Scheduler) (records : RecordStore) (effects : EffectQueue)

namespace Call

/-- Carries out a call. -/
def run : Call → Performer → Performer × Report
  | execute i actions, p => performAll i actions p
  | runForwarded now, p => p.runForwarded now
  | share stage scheduler records effects, p =>
    ({ p with stage := stage, scheduler := scheduler, records := records, effects := effects }, ∅)

/-- What a call takes from the queue to run it. -/
def taken : Call → Performer → List ForwardedAction
  | runForwarded _, p => p.forwarded.waiting
  | _, _ => []

/-- What a call hands over. -/
def handedOver : Call → Performer → List ForwardedAction
  | execute i actions, p => Performer.handedOver i actions p
  | _, _ => []

/-- What calls take from the queue, in order. -/
def takenAll : List Call → Performer → List ForwardedAction
  | [], _ => []
  | c :: r, p => c.taken p ++ takenAll r (c.run p).1

/-- What calls hand over, in order. -/
def handedOverAll : List Call → Performer → List ForwardedAction
  | [], _ => []
  | c :: r, p => c.handedOver p ++ handedOverAll r (c.run p).1

/-- One call takes from the front of the queue and appends to its end. -/
theorem taken_append_waiting_run (c : Call) (p : Performer) :
    c.taken p ++ (c.run p).1.forwarded.waiting = p.forwarded.waiting ++ c.handedOver p := by
  cases c with
  | execute i actions => exact waiting_performAll i actions p
  | runForwarded now => simp [taken, handedOver, run, (p.complete_runForwarded now).1]
  | share stage scheduler records effects => simp [taken, handedOver, run]

theorem takenAll_append_waiting (calls : List Call) (p : Performer) :
    takenAll calls p ++ (runEach run calls p).1.forwarded.waiting =
      p.forwarded.waiting ++ handedOverAll calls p := by
  induction calls generalizing p with
  | nil => simp [takenAll, handedOverAll, runEach]
  | cons c r ih =>
      have hone := c.taken_append_waiting_run p
      calc takenAll (c :: r) p ++ (runEach run (c :: r) p).1.forwarded.waiting
          = c.taken p ++ (takenAll r (c.run p).1 ++
              (runEach run r (c.run p).1).1.forwarded.waiting) := by
            rw [takenAll, runEach_cons, List.append_assoc]
        _ = (c.taken p ++ (c.run p).1.forwarded.waiting) ++ handedOverAll r (c.run p).1 := by
            rw [ih, List.append_assoc]
        _ = p.forwarded.waiting ++ handedOverAll (c :: r) p := by
            rw [hone, handedOverAll, List.append_assoc]

end Call

/-- In any run of calls, what was taken from the queue and then what still waits is what was handed
over, in the order in which it was reached. What is taken runs in that order, each action in the
full-capability context with the parameters and the item that it was handed over with, and none
waits afterwards: what runs in that context hands nothing over and is not refused. -/
theorem taken_append_waiting (p : Performer) (calls : List Call) :
    Call.takenAll calls p ++ (runEach Call.run calls p).1.forwarded.waiting =
        p.forwarded.waiting ++ Call.handedOverAll calls p ∧
      (∀ q now,
        (Call.runForwarded now).run q =
            runEach (fun f => perform ⟨.fullCapability, f.params, f.scope, now⟩ f.action)
              ((Call.runForwarded now).taken q) { q with forwarded := {} } ∧
          ((Call.runForwarded now).run q).1.forwarded.waiting = [] ∧
          ((Call.runForwarded now).run q).2.Complete) ∧
      ∀ q params scope now actions,
        ((Call.execute ⟨.fullCapability, params, scope, now⟩ actions).run q).1.forwarded =
            q.forwarded ∧
          ((Call.execute ⟨.fullCapability, params, scope, now⟩ actions).run q).2.Complete := by
  refine ⟨Call.takenAll_append_waiting calls p, ?_, ?_⟩
  · intro q now
    obtain ⟨hempty, hcomplete⟩ := q.complete_runForwarded now
    exact ⟨rfl, hempty, hcomplete⟩
  · intro q params scope now actions
    exact complete_performAll rfl actions q

end LiveScene
