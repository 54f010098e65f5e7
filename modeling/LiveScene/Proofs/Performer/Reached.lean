import LiveScene.Performer

/-!
# LiveScene.Proofs.Performer.Reached

A run of actions, flattened.

* `reachedAll` lists the actions that a run reaches: those of the list, each branch that runs
  followed by those of the side that it takes. Which side that is depends on what the actions
  before it have done, so the list depends on the state.
* `act` is what a reached action does by itself. `performAll_eq_runEach_act` says that a run is
  that of the reached actions one after the other. What a run preserves then follows, by
  induction on a plain list, from what `act` preserves.
-/

namespace LiveScene

namespace Report

/-- A count commutes with what was done before it. -/
theorem append_executed_comm (r : Report) (count : Nat) :
    r ++ { executed := count } = { executed := count } ++ r := by
  cases r
  simp only [HAppend.hAppend, Append.append, append]
  simp [Nat.add_comm]

end Report

namespace Performer

mutual

/-- The actions that a run of an action reaches. -/
def reached (i : Invocation) : Action → Performer → List Action
  | .mk task declared, p =>
    .mk task declared :: if isBarred i.context (.mk task declared) then [] else reachedIn i task p

/-- The actions that a run of a task reaches. -/
def reachedIn (i : Invocation) : Task → Performer → List Action
  | .branch condition yes no, p =>
    if (p.eval i condition).isTruthy then reachedAll i yes p else reachedAll i no p
  | _, _ => []

/-- The actions that a run of a list reaches. -/
def reachedAll (i : Invocation) : List Action → Performer → List Action
  | [], _ => []
  | a :: r, p => reached i a p ++ reachedAll i r (perform i a p).1

end

/-- What an action does by itself. A branch that runs only counts. -/
def act (i : Invocation) (a : Action) (p : Performer) : Performer × Report :=
  if isBarred i.context a then p.bar i a
  else
    match a.task with
    | .branch .. => (p, { executed := 1 })
    | task => performTask i task p

/-- In the full-capability context nothing is barred. -/
theorem isBarred_of_fullCapability {i : Invocation} (hfull : i.context = .fullCapability)
    (a : Action) : isBarred i.context a = false := by
  simp [isBarred, hfull]

theorem act_of_isBarred {i : Invocation} {a : Action} (h : isBarred i.context a = true)
    (p : Performer) : act i a p = p.bar i a := by
  rw [act, if_pos h]

theorem performTask_of_context {task : Task} (h : task.context = .fullCapability)
    (i : Invocation) (p : Performer) :
    performTask i task p =
      ((p.performFull i task).1, (p.performFull i task).2 ++ { executed := 1 }) := by
  cases task with
  | assignCell | branch | animate | playEffect | randomAssign =>
      exact absurd h (by simp [Task.context])
  | _ => rw [performTask] <;> simp

/-- A task of the full-capability context that may run goes to the interpreter of those. -/
theorem act_of_context {i : Invocation} {a : Action} (hbar : isBarred i.context a = false)
    (h : a.task.context = .fullCapability) (p : Performer) :
    act i a p = ((p.performFull i a.task).1, (p.performFull i a.task).2 ++ { executed := 1 }) := by
  rw [← performTask_of_context h, act, hbar]
  obtain ⟨task, declared⟩ := a
  cases task with
  | branch => exact absurd h (by simp [Action.task, Task.context])
  | _ => rfl

theorem runEach_singleton {α : Type} (run : α → Performer → Performer × Report) (a : α)
    (p : Performer) : runEach run [a] p = run a p := by
  simp [runEach]

theorem runEach_cons {α : Type} (run : α → Performer → Performer × Report) (a : α) (r : List α)
    (p : Performer) :
    runEach run (a :: r) p =
      ((runEach run r (run a p).1).1, (run a p).2 ++ (runEach run r (run a p).1).2) := rfl

theorem performTask_branch (i : Invocation) (condition : Expr) (yes no : List Action)
    (p : Performer) :
    performTask i (.branch condition yes no) p =
      if (p.eval i condition).isTruthy then
        ((performAll i yes p).1, (performAll i yes p).2 ++ { executed := 1 })
      else ((performAll i no p).1, (performAll i no p).2 ++ { executed := 1 }) := by
  rw [performTask]
  by_cases h : (p.eval i condition).isTruthy = true
  · rw [if_pos h, if_pos h]
  · rw [if_neg h, if_neg h]

theorem performAll_cons (i : Invocation) (a : Action) (r : List Action) (p : Performer) :
    performAll i (a :: r) p =
      ((performAll i r (perform i a p).1).1,
        (perform i a p).2 ++ (performAll i r (perform i a p).1).2) := by
  rw [performAll]

mutual

theorem perform_eq_runEach_act (i : Invocation) (a : Action) (p : Performer) :
    perform i a p = runEach (act i) (reached i a p) p := by
  obtain ⟨task, declared⟩ := a
  rw [perform, reached]
  by_cases hbar : isBarred i.context (.mk task declared) = true
  · rw [if_pos hbar, if_pos hbar, runEach_singleton, act_of_isBarred hbar]
  · rw [if_neg hbar, if_neg hbar]
    cases task with
    | branch condition yes no =>
        -- The count of the branch comes first here, and last where its side is run inside it.
        have hact : act i (.mk (.branch condition yes no) declared) p = (p, { executed := 1 }) := by
          rw [act, if_neg hbar]
          rfl
        rw [performTask_branch, reachedIn, runEach_cons, hact]
        split
        · rw [performAll_eq_runEach_act i yes p, Report.append_executed_comm]
        · rw [performAll_eq_runEach_act i no p, Report.append_executed_comm]
    | _ =>
        rw [reachedIn, runEach_singleton, act, if_neg hbar]
        · rfl
        · intro condition yes no h
          cases h

/-- A run is that of the actions that it reaches, one after the other. -/
theorem performAll_eq_runEach_act (i : Invocation) (actions : List Action) (p : Performer) :
    performAll i actions p = runEach (act i) (reachedAll i actions p) p := by
  cases actions with
  | nil => rw [performAll, reachedAll, runEach]
  | cons a r =>
      rw [performAll_cons, reachedAll, runEach_append, perform_eq_runEach_act i a p,
        performAll_eq_runEach_act i r]

end

/-! ### What runs preserve -/

section Runs

variable {α : Type} {run : α → Performer → Performer × Report}

/-- What the run of each member preserves, the run of a list does. -/
theorem runEach_of_forall {P : Performer → Prop} {items : List α}
    (step : ∀ a ∈ items, ∀ p, P p → P (run a p).1) {p : Performer} (h : P p) :
    P (runEach run items p).1 := by
  induction items generalizing p with
  | nil => exact h
  | cons a r ih =>
      rw [runEach]
      have hhead : P (run a p).1 := step a List.mem_cons_self p h
      exact ih (fun b hb => step b (List.mem_cons_of_mem a hb)) hhead

/-- If no member's run breaches an assertion, the run of a list does not. -/
theorem breaches_runEach {items : List α} (step : ∀ a ∈ items, ∀ p, (run a p).2.breaches = [])
    (p : Performer) : (runEach run items p).2.breaches = [] := by
  induction items generalizing p with
  | nil => rfl
  | cons a r ih =>
      rw [runEach, Report.breaches_append, step a List.mem_cons_self p]
      exact ih (fun b hb => step b (List.mem_cons_of_mem a hb)) _

end Runs

end Performer

end LiveScene
