import LiveScene.Proofs.Performer.Handover

/-!
# LiveScene.Proofs.Performer.Triage

What becomes of the actions that a run reaches.

* Each of them is executed, handed over or refused, and the report counts it once (`total_act`). So
  the report of a run accounts for all that it reaches, whatever branches it takes.
* In the full-capability context all are executed. The low-latency context sorts them by their kind
  (`Triage`): it refuses those that change records, hands over the others that need the full
  context, and executes the rest. What it refuses or hands over has no other effect, so its run is
  that of the rest alone, with a longer queue.
-/

namespace LiveScene

/-- The number of actions that a report accounts for. -/
def Report.total (r : Report) : Nat := r.executed + r.forwarded + r.errors.length

theorem Report.total_append (r s : Report) : (r ++ s).total = r.total + s.total := by
  simp only [total, executed_append, forwarded_append, errors_append, List.length_append]
  omega

namespace Performer

/-! ### One action -/

/-- The refusal of an action, if it may not run and changes records. -/
def refusal? (i : Invocation) (a : Action) : Option Fault :=
  if isBarred i.context a && a.task.isDataMutation then
    some (.contextViolation a.task.name i.context)
  else none

/-- The interpreter of the full-capability tasks leaves the counting to who calls it. -/
theorem executed_performFull (p : Performer) (i : Invocation) (task : Task) :
    (p.performFull i task).2.executed = 0 := by
  have hassert : (assertFull i).executed = 0 := by
    unfold assertFull
    split <;> rfl
  have hcarried : (p.carryOut i task).2.executed = 0 := by cases task <;> rfl
  rw [performFull, Report.executed_append, hassert, hcarried]

/-- An action counts as executed if it may run. -/
theorem executed_act (i : Invocation) (a : Action) (p : Performer) :
    (act i a p).2.executed = if !isBarred i.context a then 1 else 0 := by
  cases h : isBarred i.context a with
  | true =>
      rw [act_of_isBarred h, bar]
      split <;> rfl
  | false =>
      cases hcontext : a.task.context with
      | fullCapability =>
          rw [act_of_context h hcontext, Report.executed_append, executed_performFull]
          rfl
      | lowLatency =>
          obtain ⟨task, declared⟩ := a
          rw [act, h]
          cases task with
          | assignCell | branch | animate | playEffect | randomAssign => rfl
          | _ => simp [Action.task, Task.context] at hcontext

theorem errors_act (i : Invocation) (a : Action) (p : Performer) :
    (act i a p).2.errors = (refusal? i a).toList := by
  rw [refusal?]
  cases h : isBarred i.context a with
  | true =>
      rw [act_of_isBarred h, bar]
      cases a.task.isDataMutation <;> rfl
  | false => exact (complete_act h p).2.errors

theorem forwarded_act (i : Invocation) (a : Action) (p : Performer) :
    (act i a p).2.forwarded =
      if isBarred i.context a && !a.task.isDataMutation then 1 else 0 := by
  cases h : isBarred i.context a with
  | true =>
      rw [act_of_isBarred h, bar]
      cases a.task.isDataMutation <;> rfl
  | false => exact (complete_act h p).2.forwarded

/-- The report of a reached action accounts for it once. -/
theorem total_act (i : Invocation) (a : Action) (p : Performer) : (act i a p).2.total = 1 := by
  rw [Report.total, executed_act, forwarded_act, errors_act, refusal?]
  cases isBarred i.context a <;> cases a.task.isDataMutation <;> rfl

/-! ### The queue aside -/

/-- The performer with another queue. -/
def withQueue (p : Performer) (queue : Queue ForwardedAction) : Performer :=
  { p with forwarded := queue }

/-- An action that may not run touches nothing but the queue. -/
theorem withQueue_act_of_isBarred {i : Invocation} {a : Action}
    (h : isBarred i.context a = true) (p : Performer) (queue : Queue ForwardedAction) :
    (act i a p).1.withQueue queue = p.withQueue queue := by
  rw [act_of_isBarred h, bar]
  split <;> rfl

theorem withQueue_assignDrawn (p : Performer) (queue : Queue ForwardedAction) (target : String)
    (low high : Float) :
    (p.assignDrawn target low high).withQueue queue =
      (p.withQueue queue).assignDrawn target low high := by
  have hchance : (p.withQueue queue).chance = p.chance := rfl
  unfold assignDrawn
  rw [hchance]
  split
  next drawn chance _ => cases drawn <;> rfl

/-- An action that may run does not look at the queue. -/
theorem withQueue_act {i : Invocation} {a : Action} (h : isBarred i.context a = false)
    (p : Performer) (queue : Queue ForwardedAction) :
    (act i a p).1.withQueue queue = (act i a (p.withQueue queue)).1 := by
  cases hcontext : a.task.context with
  | fullCapability =>
      rw [act_of_context h hcontext, act_of_context h hcontext]
      cases a.task <;> rfl
  | lowLatency =>
      obtain ⟨task, declared⟩ := a
      rw [act, act, h]
      cases task with
      | assignCell | branch | animate | playEffect => rfl
      | randomAssign target low high => exact withQueue_assignDrawn p queue target low high
      | _ => simp [Action.task, Task.context] at hcontext

/-! ### Runs of actions -/

/-- A count to which each action adds one or nothing, according to what it is. -/
theorem count_runEach_act {i : Invocation} (count : Report → Nat) (counts : Action → Bool)
    (hempty : count ∅ = 0) (happend : ∀ r s, count (r ++ s) = count r + count s)
    (hact : ∀ a p, count (act i a p).2 = if counts a then 1 else 0) (items : List Action)
    (p : Performer) :
    count (runEach (act i) items p).2 = items.countP counts := by
  induction items generalizing p with
  | nil => exact hempty
  | cons a r ih => rw [runEach_cons, happend, hact, ih, List.countP_cons, Nat.add_comm]

theorem errors_runEach_act (i : Invocation) (items : List Action) (p : Performer) :
    (runEach (act i) items p).2.errors = items.filterMap (refusal? i) := by
  induction items generalizing p with
  | nil => rfl
  | cons a r ih =>
      rw [runEach_cons, Report.errors_append, errors_act, ih, List.filterMap_cons]
      cases refusal? i a <;> rfl

/-- What a run does, the queue aside, is what the actions do that may run. -/
theorem withQueue_runEach_act (i : Invocation) (items : List Action) (p : Performer)
    (queue : Queue ForwardedAction) :
    (runEach (act i) items p).1.withQueue queue =
      (runEach (act i) (items.filter fun a => !isBarred i.context a)
        (p.withQueue queue)).1 := by
  induction items generalizing p with
  | nil => rfl
  | cons a r ih =>
      rw [runEach_cons, ih]
      cases h : isBarred i.context a with
      | true => rw [withQueue_act_of_isBarred h, List.filter_cons_of_neg (by simp [h])]
      | false => rw [withQueue_act h, List.filter_cons_of_pos (by simp [h]), runEach_cons]

/-- The report of a run accounts for all that it reaches. -/
theorem total_performAll (i : Invocation) (actions : List Action) (p : Performer) :
    (performAll i actions p).2.total = (reachedAll i actions p).length := by
  rw [performAll_eq_runEach_act, count_runEach_act Report.total (fun _ => true) rfl
    Report.total_append (total_act i)]
  exact congrFun List.countP_true _

/-! ### The low-latency context -/

/-- What the low-latency context does with the actions that it reaches. -/
structure Triage (i : Invocation) (reached : List Action) (p : Performer)
    (r : Performer × Report) : Prop where
  /-- It refuses those that change records, each by its name, in order. -/
  errors : r.2.errors = (reached.filter fun a => a.task.isDataMutation).map fun a =>
    .contextViolation a.task.name .lowLatency
  /-- It hands over the others that need the full-capability context, in order. -/
  waiting : r.1.forwarded.waiting = p.forwarded.waiting ++
    (reached.filter fun a => a.requiredContext = .fullCapability ∧ ¬ a.task.isDataMutation).map
      fun a => ⟨a, i.params, i.scope⟩
  forwarded : r.2.forwarded =
    reached.countP fun a => a.requiredContext = .fullCapability ∧ ¬ a.task.isDataMutation
  /-- It executes all the rest, -/
  executed : r.2.executed = reached.countP fun a => a.requiredContext = .lowLatency
  /-- and besides the queue there is no other effect. -/
  effect : ∀ queue, r.1.withQueue queue =
    (runEach (act i) (reached.filter fun a => a.requiredContext = .lowLatency)
      (p.withQueue queue)).1

/-- What changes records needs the full-capability context. -/
theorem requiredContext_of_isDataMutation {a : Action} (h : a.task.isDataMutation = true) :
    a.requiredContext = .fullCapability := by
  obtain ⟨task, declared⟩ := a
  cases task with
  | dataCreate | dataUpdate | dataDelete => rfl
  | _ => cases h

theorem not_isBarred_lowLatency (a : Action) :
    (!isBarred .lowLatency a) = decide (a.requiredContext = .lowLatency) := by
  rw [isBarred]
  cases a.requiredContext <;> rfl

theorem refusal?_lowLatency {i : Invocation} (hlow : i.context = .lowLatency) (a : Action) :
    refusal? i a = if a.task.isDataMutation then
      some (.contextViolation a.task.name .lowLatency) else none := by
  rw [refusal?, isBarred, hlow]
  cases h : a.task.isDataMutation with
  | true => simp [requiredContext_of_isDataMutation h]
  | false => simp

theorem handOver?_lowLatency {i : Invocation} (hlow : i.context = .lowLatency) (a : Action) :
    handOver? i a = if decide (a.requiredContext = .fullCapability ∧ ¬ a.task.isDataMutation) then
      some ⟨a, i.params, i.scope⟩ else none := by
  simp [handOver?, isBarred, hlow]

/-- Those of a list that meet a condition, each made into something else. -/
theorem map_filter_eq_filterMap {α β : Type} (keep : α → Bool) (f : α → β) (items : List α) :
    (items.filter keep).map f = items.filterMap fun a => if keep a then some (f a) else none := by
  rw [← List.filterMap_eq_map, List.filterMap_filter]
  rfl

theorem triage_performAll {i : Invocation} (hlow : i.context = .lowLatency)
    (actions : List Action) (p : Performer) :
    Triage i (reachedAll i actions p) p (performAll i actions p) where
  errors := by
    rw [performAll_eq_runEach_act, errors_runEach_act, map_filter_eq_filterMap]
    rw [funext (refusal?_lowLatency hlow)]
  waiting := by
    rw [waiting_performAll, handedOver, map_filter_eq_filterMap]
    rw [funext (handOver?_lowLatency hlow)]
  forwarded := by
    rw [performAll_eq_runEach_act, count_runEach_act Report.forwarded _ rfl
      Report.forwarded_append (forwarded_act i)]
    simp [isBarred, hlow]
  executed := by
    rw [performAll_eq_runEach_act, count_runEach_act Report.executed _ rfl
      Report.executed_append (executed_act i), hlow]
    simp only [not_isBarred_lowLatency]
  effect queue := by
    rw [performAll_eq_runEach_act, withQueue_runEach_act, hlow]
    simp only [not_isBarred_lowLatency]

/-- In either context each action that a run reaches is executed, handed over or refused, and counts
once. In the full-capability context all are executed. In the low-latency context those that change
records are refused, the others that need the full context wait, and the rest are executed. -/
theorem each_reached_counts_once (actions : List Action) (p : Performer) (params : Params)
    (scope : Option ItemScope) (now : Duration) :
    (∀ context,
      (performAll ⟨context, params, scope, now⟩ actions p).2.executed +
          (performAll ⟨context, params, scope, now⟩ actions p).2.forwarded +
          (performAll ⟨context, params, scope, now⟩ actions p).2.errors.length =
        (reachedAll ⟨context, params, scope, now⟩ actions p).length) ∧
      (performAll ⟨.fullCapability, params, scope, now⟩ actions p).2.executed =
        (reachedAll ⟨.fullCapability, params, scope, now⟩ actions p).length ∧
      Triage ⟨.lowLatency, params, scope, now⟩
        (reachedAll ⟨.lowLatency, params, scope, now⟩ actions p) p
        (performAll ⟨.lowLatency, params, scope, now⟩ actions p) := by
  refine ⟨fun context => total_performAll _ actions p, ?_, triage_performAll rfl actions p⟩
  obtain ⟨-, hcomplete⟩ := complete_performAll (i := ⟨.fullCapability, params, scope, now⟩) rfl
    actions p
  rw [← total_performAll, Report.total, hcomplete.forwarded, hcomplete.errors]
  rfl

end Performer

end LiveScene
