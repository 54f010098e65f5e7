import LiveScene.Proofs.Performer.Requests

/-!
# LiveScene.Proofs.Performer.Effects

The effects that deeds ask for, and what becomes of them.

`Deed.effects` lists what the actions of a list of deeds ask to be played, and
`EffectQueue.Accounts` relates that list to what was played and what waits: the two together are
what was asked for, and the numbers of what waits go on where those of what was played end. All
deeds keep the account but the one that drops what waits (`EffectQueue.Accounts.runEach`).
-/

namespace LiveScene

open Performer

@[simp] theorem Report.played_empty : (∅ : Report).played = [] := rfl

/-! ### Accounts -/

/-- What was played, and then what waits, is what was asked for. The requests have the numbers from
one on, in that order. -/
structure EffectQueue.Accounts (q : EffectQueue) (played asked : List PlayedEffect) : Prop where
  order : played ++ q.queue.waiting.map EffectRequest.played = asked
  sequences : q.queue.waiting.map EffectRequest.sequence =
    List.range' (played.length + 1) q.pending
  next : q.next = played.length + q.pending + 1

namespace EffectQueue

theorem accounts_new : ({} : EffectQueue).Accounts [] [] := ⟨rfl, rfl, rfl⟩

variable {q : EffectQueue} {played asked : List PlayedEffect}

theorem Accounts.request (h : q.Accounts played asked) (e : PlayedEffect) :
    (q.request e.owner e.name e.volume e.pitch).1.Accounts played (asked ++ [e]) := by
  have hwaiting : (q.request e.owner e.name e.volume e.pitch).1.queue.waiting =
      q.queue.waiting ++ [⟨q.next, e.name, e.volume, e.pitch, e.owner⟩] := rfl
  have hpending : (q.request e.owner e.name e.volume e.pitch).1.pending = q.pending + 1 := by
    simp [pending, Queue.size, hwaiting]
  have hnext : q.next = played.length + 1 + q.pending := by
    rw [h.next]
    omega
  constructor
  · simp [hwaiting, ← h.order, EffectRequest.played]
  · simp [hwaiting, hpending, List.range'_concat, h.sequences, hnext]
  · have hgiven : (q.request e.owner e.name e.volume e.pitch).1.next = q.next + 1 := rfl
    rw [hgiven, hpending, h.next]
    omega

theorem Accounts.deliver (h : q.Accounts played asked) :
    q.deliver.2.Accounts (played ++ q.deliver.1) asked := by
  constructor
  · simp [EffectQueue.deliver, drain, Queue.drain, h.order]
  · simp [EffectQueue.deliver, drain, Queue.drain, pending, Queue.size]
  · simp [EffectQueue.deliver, drain, Queue.drain, pending, Queue.size, h.next]

end EffectQueue

/-! ### What deeds ask for -/

/-- The effect that a task asks for. -/
def Task.effect? (owner : String) : Task → Option PlayedEffect
  | .playEffect name volume pitch => some ⟨name, volume, pitch, owner⟩
  | _ => none

namespace Deed

/-- The effect that a deed asks for: that of an action that runs. -/
def effect? (owner : String) : Deed → Option PlayedEffect
  | act i a => if isBarred i.context a then none else a.task.effect? owner
  | _ => none

/-- The effects that deeds ask for, in order. -/
def effects (owner : String) (ds : List Deed) : List PlayedEffect := ds.filterMap (effect? owner)

theorem effects_cons (owner : String) (d : Deed) (ds : List Deed) :
    effects owner (d :: ds) = (d.effect? owner).toList ++ effects owner ds := by
  rw [effects, List.filterMap_cons]
  cases d.effect? owner <;> rfl

end Deed

namespace Performer

theorem effects_bar (p : Performer) (i : Invocation) (a : Action) :
    (p.bar i a).1.effects = p.effects ∧ (p.bar i a).2.played = [] := by
  unfold bar
  split <;> exact ⟨rfl, rfl⟩

theorem effects_performFull (p : Performer) (i : Invocation) (task : Task) :
    (p.performFull i task).1.effects = p.effects ∧ (p.performFull i task).2.played = [] := by
  have hassert : (assertFull i).played = [] := by
    unfold assertFull
    split <;> rfl
  have hcarried : (p.carryOut i task).2.played = [] := by cases task <;> rfl
  refine ⟨by cases task <;> rfl, ?_⟩
  simp [performFull, hassert, hcarried]

theorem effects_assignDrawn (p : Performer) (target : String) (low high : Float) :
    (p.assignDrawn target low high).effects = p.effects := by
  unfold assignDrawn
  split
  next drawn chance _ => cases drawn <;> rfl

/-- An action that is reached plays nothing. All that it does to the queue is to append what it
asks for. -/
theorem effects_act (i : Invocation) (a : Action) (p : Performer) :
    (act i a p).1.effects =
        ((Deed.act i a).effect? p.owner).elim p.effects
          (fun e => (p.effects.request e.owner e.name e.volume e.pitch).1) ∧
      (act i a p).2.played = [] := by
  cases hbar : isBarred i.context a with
  | true =>
      obtain ⟨hsame, hplayed⟩ := effects_bar p i a
      simp [act_of_isBarred hbar, Deed.effect?, hbar, hsame, hplayed]
  | false =>
      cases hcontext : a.task.context with
      | fullCapability =>
          obtain ⟨hsame, hplayed⟩ := effects_performFull p i a.task
          have hnone : a.task.effect? p.owner = none := by
            cases htask : a.task with
            | playEffect => simp [htask, Task.context] at hcontext
            | _ => rfl
          simp [act_of_context hbar hcontext, Deed.effect?, hbar, hsame, hplayed, hnone]
      | lowLatency =>
          obtain ⟨task, declared⟩ := a
          rw [act, Deed.effect?, hbar]
          cases task with
          | assignCell | branch | animate | playEffect => exact ⟨rfl, rfl⟩
          | randomAssign target low high => exact ⟨effects_assignDrawn p target low high, rfl⟩
          | _ => simp [Action.task, Task.context] at hcontext

end Performer

namespace Deed

variable {p : Performer} {d : Deed} {ds : List Deed}

/-- Nothing is played but by the deed that plays what waits. -/
theorem played_run (h : d ≠ .playEffects) (p : Performer) : (d.run p).2.played = [] := by
  cases d with
  | act i a => exact (effects_act i a p).2
  | fire context now f =>
      rw [run]
      split <;> rfl
  | playEffects => exact absurd rfl h
  | _ => rfl

/-- Whether a deed leaves the instance its name. -/
def KeepsOwner (p : Performer) (d : Deed) : Prop := (d.run p).1.owner = p.owner

theorem along_mono {P Q : Performer → Deed → Prop} (hsub : ∀ p d, P p d → Q p d)
    (h : Along P ds p) : Along Q ds p := by
  induction ds generalizing p with
  | nil => trivial
  | cons d r ih => exact ⟨hsub p d h.1, ih h.2⟩

theorem played_runEach (h : .playEffects ∉ ds) (p : Performer) :
    (runEach run ds p).2.played = [] := by
  induction ds generalizing p with
  | nil => rfl
  | cons d r ih =>
      rw [List.mem_cons, not_or] at h
      rw [runEach_cons, Report.played_append, played_run (Ne.symm h.1), ih h.2, List.nil_append]

end Deed

namespace EffectQueue

variable {p : Performer} {d : Deed} {ds : List Deed} {played asked : List PlayedEffect}

/-- A deed that does not drop what waits keeps the account. -/
theorem Accounts.run (h : p.effects.Accounts played asked) (hd : d ≠ .close) :
    (d.run p).1.effects.Accounts (played ++ (d.run p).2.played)
      (asked ++ (d.effect? p.owner).toList) := by
  have hsame : p.effects.Accounts (played ++ []) (asked ++ []) := by simpa using h
  cases d with
  | act i a =>
      obtain ⟨heffects, hplayed⟩ := effects_act i a p
      rw [Deed.run, heffects, hplayed, List.append_nil]
      cases (Deed.act i a).effect? p.owner with
      | none => simpa using h
      | some e => exact h.request e
  | playEffects =>
      have hdelivered := h.deliver
      rw [← List.append_nil asked] at hdelivered
      exact hdelivered
  | close => exact absurd rfl hd
  | fire context now f =>
      rw [Deed.run_fire, Deed.played_run (by simp)]
      exact hsame
  | _ => exact hsame

/-- Deeds of which none drops what waits keep the account. -/
theorem Accounts.runEach (h : p.effects.Accounts played asked) (hds : .close ∉ ds)
    (howner : Deed.Along Deed.KeepsOwner ds p) :
    (Performer.runEach Deed.run ds p).1.effects.Accounts
      (played ++ (Performer.runEach Deed.run ds p).2.played)
      (asked ++ Deed.effects p.owner ds) := by
  induction ds generalizing p played asked with
  | nil => simpa [Performer.runEach, Deed.effects] using h
  | cons d r ih =>
      rw [List.mem_cons, not_or] at hds
      have hrest := ih (h.run (Ne.symm hds.1)) hds.2 howner.2
      rw [howner.1] at hrest
      simpa [runEach_cons, Deed.effects_cons] using hrest

end EffectQueue

end LiveScene
