import LiveScene.Proofs.Performer.Deeds
import LiveScene.Proofs.Performer.Edited
import LiveScene.Proofs.Timer.Requests

/-!
# LiveScene.Proofs.Performer.Requests

What deeds ask of the registry of timers.

`Deed.request?` is the one request that a deed makes, if any. `scheduler_run` says that this is all
that it does to the timers of its instance, and `scheduler_replay` says so for lists of deeds. What
is shown for requests thereby holds for runs. Others who share the registry come in between: they
are `Apart` if they ask about their own timers only.
-/

namespace LiveScene

open Performer

/-! ### What a deed asks of the timers -/

/-- What a task asks of the registry. -/
def Task.request? (i : Invocation) (p : Performer) : Task → Option TimerRequest
  | .delay ms actions =>
    some (.start p.owner (delayId p.delays) (delayedSpec i ms actions) i.now p.stage.cells)
  | .startTimer id interval actions lowLatency =>
    some (.start p.owner id (repeatedSpec i interval actions lowLatency) i.now p.stage.cells)
  | .stopTimer id => some (.stop p.owner id)
  | _ => none

theorem Task.owner_of_request? {i : Invocation} {p : Performer} {task : Task} {r : TimerRequest}
    (h : task.request? i p = some r) : r.owner = p.owner := by
  cases task with
  | delay | startTimer | stopTimer => cases h; rfl
  | _ => cases h

theorem Task.request?_ne_due (i : Invocation) (p : Performer) (task : Task) (owner : String)
    (family : TimerFamily) (now : Duration) (cells : CellStore) :
    task.request? i p ≠ some (.due owner family now cells) := by
  intro h
  cases task <;> cases h

namespace Deed

/-- What a deed asks of the registry. -/
def request? (p : Performer) : Deed → Option TimerRequest
  | act i a => if isBarred i.context a then none else a.task.request? i p
  | collect family now => some (.due p.owner family now p.stage.cells)
  | startTimer id spec now => some (.start p.owner id spec now p.stage.cells)
  | stopTimer id => some (.stop p.owner id)
  | close => some (.stopAll p.owner)
  | _ => none

/-- Only its own instance is meant by what a deed asks. -/
theorem owner_of_request? {p : Performer} {d : Deed} {r : TimerRequest}
    (h : d.request? p = some r) : r.owner = p.owner := by
  cases d with
  | act i a =>
      rw [request?] at h
      split at h
      · cases h
      · exact Task.owner_of_request? h
  | collect | startTimer | stopTimer | close => cases h; rfl
  | _ => cases h

/-- Only a collection asks whose time has come. -/
theorem eq_collect_of_request? {p : Performer} {d : Deed} {owner : String}
    {family : TimerFamily} {now : Duration} {cells : CellStore}
    (h : d.request? p = some (.due owner family now cells)) : d = .collect family now := by
  cases d with
  | act i a =>
      rw [request?] at h
      split at h
      · cases h
      · exact absurd h (Task.request?_ne_due i p a.task owner family now cells)
  | collect => cases h; rfl
  | _ => cases h

/-- What a deed changes besides the timers leaves the instance its name, and what others do to the
timers that are shared with it is to ask for something about theirs. -/
def Apart (p : Performer) : Deed → Prop
  | restage stage => stage.cells.owner = p.owner
  | share scheduler _ =>
    ∃ rs : List TimerRequest, (∀ r ∈ rs, r.owner ≠ p.owner) ∧ scheduler = p.scheduler.serveAll rs
  | _ => True

end Deed

namespace Performer

theorem scheduler_bar (p : Performer) (i : Invocation) (a : Action) :
    (p.bar i a).1.scheduler = p.scheduler ∧ (p.bar i a).1.delays = p.delays := by
  rw [bar]
  split <;> exact ⟨rfl, rfl⟩

theorem scheduler_assignDrawn (p : Performer) (target : String) (low high : Float) :
    (p.assignDrawn target low high).scheduler = p.scheduler ∧
      (p.assignDrawn target low high).delays = p.delays := by
  unfold assignDrawn
  split
  next drawn chance _ => cases drawn <;> exact ⟨rfl, rfl⟩

/-- The timers after a reached action, and the number of actions that were put off. -/
theorem scheduler_act (i : Invocation) (a : Action) (p : Performer) :
    (act i a p).1.scheduler = p.scheduler.serveAll ((Deed.act i a).request? p).toList ∧
      p.delays ≤ (act i a p).1.delays := by
  rw [Deed.request?]
  cases hbar : isBarred i.context a with
  | true =>
      rw [act_of_isBarred hbar, (scheduler_bar p i a).1, (scheduler_bar p i a).2]
      exact ⟨rfl, Nat.le_refl _⟩
  | false =>
      obtain ⟨task, declared⟩ := a
      cases hcontext : task.context with
      | lowLatency =>
          rw [act, hbar]
          cases task with
          | assignCell | branch | animate | playEffect => exact ⟨rfl, Nat.le_refl _⟩
          | randomAssign target low high =>
              have hdrawn := scheduler_assignDrawn p target low high
              exact ⟨hdrawn.1, Nat.le_of_eq hdrawn.2.symm⟩
          | _ => exact absurd hcontext (by simp [Task.context])
      | fullCapability =>
          rw [act_of_context hbar hcontext]
          cases task with
          | delay => exact ⟨rfl, Nat.le_succ _⟩
          | assignCell | branch | animate | playEffect | randomAssign =>
              exact absurd hcontext (by simp [Task.context])
          | _ => exact ⟨rfl, Nat.le_refl _⟩

theorem owner_act (i : Invocation) (a : Action) (p : Performer) :
    (act i a p).1.owner = p.owner := by
  have hedited : Stage.Edited (fun _ => True) p.stage (act i a p).1.stage :=
    edited_act (fun _ => trivial) i a p
  exact hedited.owner_eq

end Performer

namespace Deed

variable {p : Performer} {d : Deed}

theorem owner_run (h : d.Apart p) : (d.run p).1.owner = p.owner := by
  cases d with
  | act i a => exact owner_act i a p
  | fire context now f => rw [run_fire]
  | restage stage => exact h
  | _ => rfl

theorem delays_le_run (d : Deed) (p : Performer) : p.delays ≤ (d.run p).1.delays := by
  cases d with
  | act i a => exact (scheduler_act i a p).2
  | fire context now f =>
      have hsame : ((fire context now f).run p).1.delays = p.delays :=
        congrArg Performer.delays (run_fire context now f p)
      exact Nat.le_of_eq hsame.symm
  | _ => exact Nat.le_refl _

/-- All that a deed does to the timers is what it asks of them, and what others do to theirs. -/
theorem scheduler_run (h : d.Apart p) :
    ∃ rs, (d.run p).1.scheduler = p.scheduler.serveAll rs ∧
      rs.filter (fun r => r.owner = p.owner) = (d.request? p).toList := by
  have hown : (d.request? p).toList.filter (fun r => r.owner = p.owner) =
      (d.request? p).toList := by
    refine List.filter_eq_self.mpr fun r hr => decide_eq_true ?_
    exact owner_of_request? (Option.mem_toList.mp hr)
  cases d with
  | share scheduler records =>
      obtain ⟨rs, hothers, hscheduler⟩ := h
      refine ⟨rs, hscheduler, List.filter_eq_nil_iff.mpr fun r hr => ?_⟩
      simpa using hothers r hr
  | act i a => exact ⟨_, (scheduler_act i a p).1, hown⟩
  | fire context now f =>
      rw [run_fire]
      exact ⟨[], rfl, rfl⟩
  | _ => exact ⟨_, rfl, hown⟩

theorem numbered_run (hs : p.scheduler.Numbered) (h : d.Apart p) :
    (d.run p).1.scheduler.Numbered := by
  obtain ⟨rs, hrun, -⟩ := scheduler_run h
  exact hrun ▸ hs.serveAll rs

/-! ### Lists of deeds -/

/-- What holds whenever a list of deeds comes to its next one. -/
def Along (P : Performer → Deed → Prop) : List Deed → Performer → Prop
  | [], _ => True
  | d :: ds, p => P p d ∧ Along P ds (d.run p).1

/-- What deeds ask of the registry, in order. -/
def requests : List Deed → Performer → List TimerRequest
  | [], _ => []
  | d :: ds, p => (d.request? p).toList ++ requests ds (d.run p).1

variable {P : Performer → Deed → Prop} {ds : List Deed}

theorem along_append {xs ys : List Deed} :
    Along P (xs ++ ys) p ↔ Along P xs p ∧ Along P ys (replay xs p) := by
  induction xs generalizing p with
  | nil => simp [Along]
  | cons d r ih => simp [Along, ih, and_assoc]

theorem along_of_forall (h : ∀ d ∈ ds, ∀ p, P p d) (p : Performer) : Along P ds p := by
  induction ds generalizing p with
  | nil => trivial
  | cons d r ih =>
      exact ⟨h d List.mem_cons_self p, ih (fun e he => h e (List.mem_cons_of_mem d he)) _⟩

theorem exists_of_mem_requests {r : TimerRequest} (h : r ∈ requests ds p) :
    ∃ d ∈ ds, ∃ q, d.request? q = some r := by
  induction ds generalizing p with
  | nil => cases h
  | cons d rest ih =>
      rw [requests, List.mem_append] at h
      rcases h with h | h
      · exact ⟨d, List.mem_cons_self, p, Option.mem_toList.mp h⟩
      · obtain ⟨e, he, hasked⟩ := ih h
        exact ⟨e, List.mem_cons_of_mem d he, hasked⟩

theorem owner_replay (h : Along Apart ds p) : (replay ds p).owner = p.owner := by
  induction ds generalizing p with
  | nil => rfl
  | cons d r ih => exact (ih h.2).trans (owner_run h.1)

/-- All that deeds do to the timers is what they ask of them, and what others do to theirs. -/
theorem scheduler_replay (h : Along Apart ds p) :
    ∃ rs, (replay ds p).scheduler = p.scheduler.serveAll rs ∧
      rs.filter (fun r => r.owner = p.owner) = requests ds p := by
  induction ds generalizing p with
  | nil => exact ⟨[], rfl, rfl⟩
  | cons d r ih =>
      obtain ⟨first, hfirst, hasked⟩ := scheduler_run h.1
      obtain ⟨rest, hrest, hasked'⟩ := ih h.2
      rw [owner_run h.1] at hasked'
      refine ⟨first ++ rest, ?_, ?_⟩
      · rw [Scheduler.serveAll_append, ← hfirst, ← hrest, replay_cons]
      · rw [List.filter_append, hasked, hasked', requests]

theorem numbered_replay (hs : p.scheduler.Numbered) (h : Along Apart ds p) :
    (replay ds p).scheduler.Numbered := by
  obtain ⟨rs, hreplay, -⟩ := scheduler_replay h
  exact hreplay ▸ hs.serveAll rs

end Deed

end LiveScene
