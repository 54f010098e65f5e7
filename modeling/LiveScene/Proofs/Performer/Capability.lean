import LiveScene.Proofs.Performer.Reached

/-!
# LiveScene.Proofs.Performer.Capability

The split between the two contexts.

* A run in the low-latency context leaves records and timers alone, and changes only cells that
  an assignment it reaches names. What may not run there never gets as far as its task.
* The interpreter of the full-capability tasks is entered from its own context and with its own
  tasks only.
-/

namespace LiveScene

/-- The cell that a task assigns. -/
def Task.assigned? : Task → Option String
  | assignCell target .. | randomAssign target .. => some target
  | _ => none

namespace Stage

theorem cell?_assign_of_ne (s : Stage) {target id : String} (op : AssignOp) (operand : Value)
    (h : id ≠ target) : (s.assign target op operand).cells.cell? id = s.cells.cell? id := by
  unfold assign
  split
  · rfl
  · exact (CellStore.cell?_update s.cells target id _).trans (if_neg h)

end Stage

namespace Performer

/-- What is left as it was, except for some cells. -/
structure Frame (assigned : String → Prop) (p q : Performer) : Prop where
  records : q.records = p.records
  scheduler : q.scheduler = p.scheduler
  /-- The other cells keep value and version, and no other cell appears or disappears. -/
  cells : ∀ id, ¬ assigned id → q.stage.cells.cell? id = p.stage.cells.cell? id

namespace Frame

variable {assigned : String → Prop} {p q r : Performer}

theorem refl (assigned : String → Prop) (p : Performer) : Frame assigned p p :=
  ⟨rfl, rfl, fun _ _ => rfl⟩

theorem trans (h₁ : Frame assigned p q) (h₂ : Frame assigned q r) : Frame assigned p r where
  records := h₂.records.trans h₁.records
  scheduler := h₂.scheduler.trans h₁.scheduler
  cells id hid := (h₂.cells id hid).trans (h₁.cells id hid)

theorem mono {wider : String → Prop} (hsub : ∀ id, assigned id → wider id)
    (h : Frame assigned p q) : Frame wider p q :=
  ⟨h.records, h.scheduler, fun id hid => h.cells id fun ha => hid (hsub id ha)⟩

end Frame

/-! ### Which actions get as far as their tasks -/

/-- What runs in the low-latency context has a task of that context. -/
theorem context_task_of_not_isBarred {a : Action}
    (h : isBarred .lowLatency a = false) : a.task.context = .lowLatency := by
  cases hc : a.task.context with
  | lowLatency => rfl
  | fullCapability =>
      have hrequired : a.requiredContext = .fullCapability := by
        rw [Action.requiredContext, hc]
      rw [isBarred, hrequired] at h
      exact absurd h (by decide)

/-- What waits or is refused touches neither cells, records nor timers. -/
theorem frame_bar (assigned : String → Prop) (p : Performer) (i : Invocation) (a : Action) :
    Frame assigned p (p.bar i a).1 := by
  unfold bar
  split
  · exact Frame.refl assigned p
  · exact ⟨rfl, rfl, fun _ _ => rfl⟩

/-! ### One action -/

theorem frame_assign (p : Performer) (target : String) (op : AssignOp) (operand : Value) :
    Frame (fun id => id = target) p { p with stage := p.stage.assign target op operand } :=
  ⟨rfl, rfl, fun _ hid => p.stage.cell?_assign_of_ne op operand hid⟩

theorem frame_assignDrawn (p : Performer) (target : String) (low high : Float) :
    Frame (fun id => id = target) p (p.assignDrawn target low high) := by
  unfold assignDrawn
  split
  next drawn chance _ =>
    cases drawn with
    | none => exact ⟨rfl, rfl, fun _ _ => rfl⟩
    | some x =>
        have hassign := frame_assign { p with chance := chance } target .set (.number x)
        exact ⟨hassign.records, hassign.scheduler, hassign.cells⟩

/-- An action reached in the low-latency context touches only the cell that it assigns, if it
runs. -/
theorem frame_act (i : Invocation) (hi : i.context = .lowLatency) (a : Action)
    (p : Performer) :
    Frame (fun id => isBarred i.context a = false ∧ a.task.assigned? = some id) p
      (act i a p).1 := by
  cases hbar : isBarred i.context a with
  | true =>
      rw [act_of_isBarred hbar]
      exact frame_bar _ p i a
  | false =>
      -- Only the five tasks of the low-latency context are left, and two of them assign.
      have hcontext := context_task_of_not_isBarred (hi ▸ hbar)
      obtain ⟨task, declared⟩ := a
      rw [act, hbar]
      cases task with
      | assignCell target op value =>
          exact (frame_assign p target op (p.eval i value)).mono
            fun id hid => ⟨rfl, congrArg some hid.symm⟩
      | randomAssign target low high =>
          exact (frame_assignDrawn p target low high).mono
            fun id hid => ⟨rfl, congrArg some hid.symm⟩
      | branch condition yes no => exact Frame.refl _ p
      | animate target goal durationMs curve => exact ⟨rfl, rfl, fun _ _ => rfl⟩
      | playEffect name volume pitch => exact ⟨rfl, rfl, fun _ _ => rfl⟩
      | _ => exact absurd hcontext (by simp [Action.task, Task.context])

/-- The interpreter of the full-capability tasks holds its assertions in its context, for its
tasks. -/
theorem breaches_performFull (p : Performer) {i : Invocation} {task : Task}
    (hi : i.context = .fullCapability) (htask : task.context = .fullCapability) :
    (p.performFull i task).2.breaches = [] := by
  have hassert : assertFull i = ∅ := by rw [assertFull, if_pos hi]
  rw [performFull, hassert]
  cases task with
  | assignCell | branch | animate | playEffect | randomAssign =>
      exact absurd htask (by simp [Task.context])
  | _ => rfl

/-- No action that is reached breaches an assertion. -/
theorem breaches_act (i : Invocation) (a : Action) (p : Performer) :
    (act i a p).2.breaches = [] := by
  cases hbar : isBarred i.context a with
  | true =>
      rw [act_of_isBarred hbar, bar]
      split <;> rfl
  | false =>
      obtain ⟨task, declared⟩ := a
      cases hcontext : task.context with
      | lowLatency =>
          rw [act, hbar]
          cases task with
          | assignCell | branch | animate | playEffect | randomAssign => rfl
          | _ => exact absurd hcontext (by simp [Task.context])
      | fullCapability =>
          have hrequired : (Action.mk task declared).requiredContext = .fullCapability := by
            rw [Action.requiredContext, Action.task, hcontext]
          -- What the gate lets through is where its task belongs, so the assertion of that holds.
          have hi : i.context = .fullCapability := by
            cases hctx : i.context with
            | fullCapability => rfl
            | lowLatency =>
                rw [isBarred, hrequired, hctx] at hbar
                exact absurd hbar (by decide)
          rw [act_of_context hbar hcontext, Report.breaches_append, Action.task,
            breaches_performFull p hi hcontext, List.nil_append]

/-! ### Runs -/

theorem frame_performAll (i : Invocation) (hi : i.context = .lowLatency)
    (actions : List Action) (p : Performer) :
    Frame (fun id => ∃ a ∈ reachedAll i actions p,
      isBarred i.context a = false ∧ a.task.assigned? = some id) p
        (performAll i actions p).1 := by
  rw [performAll_eq_runEach_act]
  refine runEach_of_forall (fun a ha q hq => hq.trans ?_) (Frame.refl _ p)
  exact (frame_act i hi a q).mono fun id hid => ⟨a, ha, hid⟩

theorem breaches_perform (i : Invocation) (a : Action) (p : Performer) :
    (perform i a p).2.breaches = [] := by
  rw [perform_eq_runEach_act]
  exact breaches_runEach (fun b _ => breaches_act i b) p

theorem breaches_performAll (i : Invocation) (actions : List Action) (p : Performer) :
    (performAll i actions p).2.breaches = [] := by
  rw [performAll_eq_runEach]
  exact breaches_runEach (fun a _ => breaches_perform i a) p

/-- A run in the low-latency context leaves the records and all timers as they are, and every
cell but those that the assignments name which it reaches and may run. In either context, and
where actions that waited are run, no assertion of the interpreter fails. -/
theorem capability_split (actions : List Action) (p : Performer) (params : Params)
    (scope : Option ItemScope) (now : Duration) :
    Frame
        (fun id => ∃ a ∈ reachedAll ⟨.lowLatency, params, scope, now⟩ actions p,
          isBarred .lowLatency a = false ∧ a.task.assigned? = some id)
        p (performAll ⟨.lowLatency, params, scope, now⟩ actions p).1 ∧
      (∀ context, (performAll ⟨context, params, scope, now⟩ actions p).2.breaches = []) ∧
      (p.runForwarded now).2.breaches = [] := by
  refine ⟨frame_performAll ⟨.lowLatency, params, scope, now⟩ rfl actions p, fun context => ?_, ?_⟩
  · exact breaches_performAll ⟨context, params, scope, now⟩ actions p
  · exact breaches_runEach (fun f _ => breaches_perform (f.invocation now) f.action) _

end Performer

end LiveScene
