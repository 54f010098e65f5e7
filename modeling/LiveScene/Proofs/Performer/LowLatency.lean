import LiveScene.Proofs.Performer.Capability
import LiveScene.Proofs.Performer.Handover

/-!
# LiveScene.Proofs.Performer.LowLatency

Work that needs the low-latency context only.

Nothing of it is barred in either context, and its tasks read nothing of an invocation but the
parameters (`performAll_congr`). So both contexts do the same with it. That neither touches timers
or records is known of the low-latency context, and that neither hands anything over is known of the
full one.
-/

namespace LiveScene

/-! ### Lists that need the low-latency context only -/

mutual

/-- Whether an action runs in the low-latency context, and so do all that its branches hold. -/
def Action.isLowLatency : Action → Bool
  | .mk task declared =>
    decide ((Action.mk task declared).requiredContext = .lowLatency) && task.holdsLowLatency

/-- Whether all that the branches of a task hold runs in the low-latency context. -/
def Task.holdsLowLatency : Task → Bool
  | .branch _ yes no => allLowLatency yes && allLowLatency no
  | _ => true

/-- Whether all actions of a list run in the low-latency context. -/
def allLowLatency : List Action → Bool
  | [] => true
  | a :: r => a.isLowLatency && allLowLatency r

end

theorem Action.isLowLatency_mk {task : Task} {declared : Option Context} :
    (Action.mk task declared).isLowLatency = true ↔
      (Action.mk task declared).requiredContext = .lowLatency ∧ task.holdsLowLatency = true := by
  simp [Action.isLowLatency]

theorem allLowLatency_cons {a : Action} {r : List Action} :
    allLowLatency (a :: r) = true ↔ a.isLowLatency = true ∧ allLowLatency r = true := by
  simp [allLowLatency]

theorem Task.holdsLowLatency_branch {condition : Expr} {yes no : List Action} :
    (Task.branch condition yes no).holdsLowLatency = true ↔
      allLowLatency yes = true ∧ allLowLatency no = true := by
  simp [Task.holdsLowLatency]

namespace Performer

/-! ### What such work reads of an invocation -/

theorem isBarred_of_requiredContext {a : Action} (h : a.requiredContext = .lowLatency)
    (context : Context) : isBarred context a = false := by
  simp [isBarred, h]

variable {i j : Invocation}

theorem eval_congr (hparams : i.params = j.params) (p : Performer) (e : Expr) :
    p.eval i e = p.eval j e := by
  rw [eval, eval, hparams]

mutual

theorem perform_congr (hparams : i.params = j.params) (a : Action) (ha : a.isLowLatency = true)
    (p : Performer) : perform i a p = perform j a p := by
  obtain ⟨task, declared⟩ := a
  obtain ⟨hrequired, hheld⟩ := Action.isLowLatency_mk.mp ha
  rw [perform, perform, isBarred_of_requiredContext hrequired,
    isBarred_of_requiredContext hrequired]
  show performTask i task p = performTask j task p
  cases task with
  | branch condition yes no =>
      obtain ⟨hyes, hno⟩ := Task.holdsLowLatency_branch.mp hheld
      rw [performTask_branch, performTask_branch, eval_congr hparams,
        performAll_congr hparams yes hyes, performAll_congr hparams no hno]
  | assignCell target op value => rw [performTask, performTask, eval_congr hparams]
  | animate target goal durationMs curve => rw [performTask, performTask, eval_congr hparams]
  | playEffect | randomAssign => rfl
  | _ => cases hrequired

/-- Two invocations with the same parameters do the same with work of the low-latency context. -/
theorem performAll_congr (hparams : i.params = j.params) (actions : List Action)
    (hactions : allLowLatency actions = true) (p : Performer) :
    performAll i actions p = performAll j actions p := by
  cases actions with
  | nil => rw [performAll, performAll]
  | cons a r =>
      obtain ⟨ha, hr⟩ := allLowLatency_cons.mp hactions
      rw [performAll_cons, performAll_cons, perform_congr hparams a ha,
        performAll_congr hparams r hr]

end

/-- Both contexts do the same with work of the low-latency context: the performer that they leave is
the same in all that it has, and so is the report. Its queue of actions that wait, its timers and
its records are as they were. -/
theorem contexts_agree (actions : List Action) (hactions : allLowLatency actions = true)
    (p : Performer) (params : Params) (scope : Option ItemScope) (now : Duration) :
    performAll ⟨.lowLatency, params, scope, now⟩ actions p =
        performAll ⟨.fullCapability, params, scope, now⟩ actions p ∧
      (performAll ⟨.lowLatency, params, scope, now⟩ actions p).1.forwarded = p.forwarded ∧
      (performAll ⟨.lowLatency, params, scope, now⟩ actions p).1.scheduler = p.scheduler ∧
      (performAll ⟨.lowLatency, params, scope, now⟩ actions p).1.records = p.records := by
  have hsame : performAll ⟨.lowLatency, params, scope, now⟩ actions p =
      performAll ⟨.fullCapability, params, scope, now⟩ actions p :=
    performAll_congr (i := ⟨.lowLatency, params, scope, now⟩)
      (j := ⟨.fullCapability, params, scope, now⟩) rfl actions hactions p
  have hframe := frame_performAll ⟨.lowLatency, params, scope, now⟩ rfl actions p
  have hqueue : (performAll ⟨.fullCapability, params, scope, now⟩ actions p).1.forwarded =
      p.forwarded := (complete_performAll rfl actions p).1
  refine ⟨hsame, ?_, hframe.scheduler, hframe.records⟩
  rw [hsame]
  exact hqueue

/-- What a press may do at once: it counts, asks for an effect if the count is still low, and else
draws the count anew and takes it to a parameter. -/
def countUp : List Action :=
  [.mk (.assignCell "count" .add (.literal (.number 1))) none,
   .mk (.branch (.conditional (.cell "count") .lt (.literal (.number 10)) (.literal (.bool true))
        (.literal (.bool false)))
      [.mk (.playEffect "tick" 1 1) none]
      [.mk (.randomAssign "count" 0 5) (some .lowLatency),
       .mk (.animate "count" (.param "dx") none none) none]) none]

/-- A performer with a cell that counts. -/
def counting : Performer where
  stage := ⟨((CellStore.new "scene").create "count" (.number 9)).1, .animator {}, {}⟩
  scheduler := .default
  records := .empty
  effects := {}
  forwarded := {}
  delays := 0
  chance := .ofSeed 0

theorem contexts_agree_countUp :
    allLowLatency countUp = true ∧
      performAll ⟨.lowLatency, ∅, none, .zero⟩ countUp counting =
        performAll ⟨.fullCapability, ∅, none, .zero⟩ countUp counting := by
  have hactions : allLowLatency countUp = true := by decide
  exact ⟨hactions, (contexts_agree countUp hactions counting ∅ none .zero).1⟩

end Performer

end LiveScene
