import LiveScene.Proofs.Performer.Reached

/-!
# LiveScene.Proofs.Performer.Scope

What the item that placeholders refer to has to do with a run.

In the full-capability context only the tasks that change records read the item. A run that
reaches no placeholder of the item (`Task.IsPlain`) is the run without it: `performAll_unscoped`.
-/

namespace LiveScene

/-- The invocation without its item. -/
def Invocation.unscoped (i : Invocation) : Invocation := { i with scope := none }

/-- Whether a task stays what it is when the placeholders of an item are replaced. -/
def Task.IsPlain (scope : Option ItemScope) : Task → Prop
  | .dataCreate _ record => ItemScope.resolveRecordIn scope record = record
  | .dataUpdate _ id patch =>
    ItemScope.resolveTextIn scope id = id ∧ ItemScope.resolveRecordIn scope patch = patch
  | .dataDelete _ id => ItemScope.resolveTextIn scope id = id
  | _ => True

namespace Performer

variable {i : Invocation}

theorem carryOut_unscoped {task : Task} (h : task.IsPlain i.scope) (p : Performer) :
    p.carryOut i.unscoped task = p.carryOut i task := by
  cases task with
  | dataCreate collection record =>
      have hrecord : ItemScope.resolveRecordIn i.scope record = record := h
      rw [carryOut, carryOut, hrecord]
      rfl
  | dataUpdate collection id patch =>
      have hpatch : ItemScope.resolveTextIn i.scope id = id ∧
          ItemScope.resolveRecordIn i.scope patch = patch := h
      rw [carryOut, carryOut, hpatch.1, hpatch.2]
      rfl
  | dataDelete collection id =>
      have hid : ItemScope.resolveTextIn i.scope id = id := h
      rw [carryOut, carryOut, hid]
      rfl
  | _ => rfl

theorem performTask_unscoped {task : Task} (hcontext : task.context = .fullCapability)
    (h : task.IsPlain i.scope) (p : Performer) :
    performTask i.unscoped task p = performTask i task p := by
  rw [performTask_of_context hcontext, performTask_of_context hcontext, performFull, performFull,
    carryOut_unscoped h]
  rfl

mutual

theorem perform_unscoped (hfull : i.context = .fullCapability) (a : Action) (p : Performer)
    (h : ∀ b ∈ reached i a p, b.task.IsPlain i.scope) :
    perform i.unscoped a p = perform i a p := by
  obtain ⟨task, declared⟩ := a
  have hfree := isBarred_of_fullCapability hfull (.mk task declared)
  have hfree' := isBarred_of_fullCapability (i := i.unscoped) hfull (.mk task declared)
  rw [reached, hfree] at h
  rw [perform, perform, hfree, hfree']
  cases task with
  | branch condition yes no =>
      have hside : ∀ b ∈ reachedIn i (.branch condition yes no) p, b.task.IsPlain i.scope :=
        fun b hb => h b (List.mem_cons_of_mem _ hb)
      have hcondition : p.eval i.unscoped condition = p.eval i condition := rfl
      rw [reachedIn] at hside
      show performTask i.unscoped (.branch condition yes no) p =
        performTask i (.branch condition yes no) p
      rw [performTask_branch, performTask_branch, hcondition]
      split at hside
      · next hyes => rw [if_pos hyes, if_pos hyes, performAll_unscoped hfull yes p hside]
      · next hno => rw [if_neg hno, if_neg hno, performAll_unscoped hfull no p hside]
  | assignCell | animate | playEffect | randomAssign => rfl
  | _ => exact performTask_unscoped rfl (h _ List.mem_cons_self) p

/-- A run that reaches no placeholder of the item is the run without it. -/
theorem performAll_unscoped (hfull : i.context = .fullCapability) (actions : List Action)
    (p : Performer) (h : ∀ a ∈ reachedAll i actions p, a.task.IsPlain i.scope) :
    performAll i.unscoped actions p = performAll i actions p := by
  cases actions with
  | nil => rw [performAll, performAll]
  | cons a r =>
      rw [reachedAll] at h
      have hhead := perform_unscoped hfull a p fun b hb => h b (List.mem_append_left _ hb)
      rw [performAll_cons, performAll_cons, hhead,
        performAll_unscoped hfull r (perform i a p).1 fun b hb => h b (List.mem_append_right _ hb)]

end

end Performer

end LiveScene
