import LiveScene.Proofs.Animation.Frame
import LiveScene.Proofs.Performer.Batch
import LiveScene.Proofs.Scene.Operation
import Mathlib.Data.List.Basic

/-!
# LiveScene.Proofs.Scene.Deeds

The runs of a scene, taken apart.

* `Scene.deeds` lists the deeds of an operation, and `Scene.deedsAll` those of a run. Carrying
  them out is the run: `performer_step`, `performer_run`.
* Timers are collected by frames and polls only (`mem_deeds_collect`), and what follows upon that
  is the batch of those that were collected (`deedsAll_collect`).
* Of the deeds of an operation all but one at most belong to runs of actions and timers
  (`mem_deeds`).
-/

namespace LiveScene

open Performer
open Deed (replay collectedAll fires Along)

/-- The context of the timers of a family. -/
def TimerFamily.context : TimerFamily → Context
  | frame => .lowLatency
  | wallClock => .fullCapability

/-- The operation that asks for the timers of a family. -/
def Operation.tick : TimerFamily → Duration → Operation
  | .frame, now => .frame now
  | .wallClock, now => .poll now

/-- A frame leaves the instance its name. -/
theorem Stage.owner_frame (s : Stage) (now : Duration) :
    (s.frame now).cells.owner = s.cells.owner := by
  cases h : s.renderer with
  | animator a =>
      rw [Stage.frame, h]
      exact Animator.owner_frameEntries now s.cells a.tweens.entries
  | recorder requests =>
      rw [Stage.frame, h]
      rfl
  | idle =>
      rw [Stage.frame, h]
      rfl

namespace Scene

/-- The deeds of what answers an interaction with a node. -/
def handlerDeeds (s : Scene) (id : String) (kind : HandlerKind) (i : Invocation) : List Deed :=
  match s.graph.find? id with
  | none => []
  | some node => performAllDeeds i (node.attributes.handlers.get kind) s.performer

/-- What comes before the timers: the animations in a frame, what waits in a poll. -/
def preludeDeeds (s : Scene) : TimerFamily → Duration → List Deed
  | .frame, now => [.restage (s.stage.frame now)]
  | .wallClock, now => .playEffects :: s.performer.playEffects.1.forwardedDeeds now

/-- The deeds of a frame or a poll. -/
def tickDeeds (s : Scene) (family : TimerFamily) (now : Duration) : List Deed :=
  if s.tornDown then []
  else s.preludeDeeds family now ++
    (replay (s.preludeDeeds family now) s.performer).dueDeeds family family.context now

/-- The deeds of an operation. -/
def deeds (s : Scene) : Operation → List Deed
  | .apply event => [.restage (s.apply event).stage]
  | .sync log => [.restage (s.sync log).1.stage]
  | .handle id kind params now => s.handlerDeeds id kind ⟨kind.context, params, none, now⟩
  | .handleItem id kind params item now =>
    s.handlerDeeds id kind ⟨kind.context, params, some ⟨s.itemName id, item⟩, now⟩
  | .handleIn id kind i => s.handlerDeeds id kind i
  | .execute actions i => performAllDeeds i actions s.performer
  | .runForwarded now => s.performer.forwardedDeeds now
  | .startTimer id spec now => if s.tornDown then [] else [.startTimer id spec now]
  | .stopTimer id => [.stopTimer id]
  | .frame now => s.tickDeeds .frame now
  | .poll now => s.tickDeeds .wallClock now
  | .teardown => if s.tornDown then [] else [.close]
  | .share scheduler records => [.share scheduler records]

/-- The deeds of operations in order. -/
def deedsAll (s : Scene) : List Operation → List Deed
  | [] => []
  | op :: r => s.deeds op ++ (s.step op).1.deedsAll r

/-! ### The deeds are the run -/

theorem performer_handlerDeeds (s : Scene) (id : String) (kind : HandlerKind) (i : Invocation) :
    (answered (s.handleIn id kind i)).1.performer =
      replay (s.handlerDeeds id kind i) s.performer := by
  rw [handlerDeeds, handleIn]
  cases s.graph.find? id with
  | none => rfl
  | some node => exact congrArg Prod.fst (runEach_performAllDeeds i _ s.performer).symm

theorem replay_forwardedDeeds (p : Performer) (now : Duration) :
    replay (p.forwardedDeeds now) p = (p.runForwarded now).1 :=
  congrArg Prod.fst (runEach_forwardedDeeds p now)

theorem replay_dueDeeds (p : Performer) (family : TimerFamily) (context : Context)
    (now : Duration) :
    replay (p.dueDeeds family context now) p = (p.runDue family context now).1 :=
  congrArg Prod.fst (runEach_dueDeeds p family context now)

theorem performer_frame (s : Scene) (now : Duration) :
    (s.frame now).1.performer = replay (s.tickDeeds .frame now) s.performer := by
  rw [frame, tickDeeds]
  split
  · rfl
  · rw [Deed.replay_append, replay_dueDeeds]
    rfl

theorem performer_poll (s : Scene) (now : Duration) :
    (s.poll now).1.performer = replay (s.tickDeeds .wallClock now) s.performer := by
  rw [poll, tickDeeds]
  split
  · rfl
  · rw [Deed.replay_append, replay_dueDeeds, preludeDeeds, Deed.replay_cons]
    show _ = ((replay (s.performer.playEffects.1.forwardedDeeds now)
      s.performer.playEffects.1).runDue .wallClock .fullCapability now).1
    rw [replay_forwardedDeeds]
    rfl

/-- Carrying out its deeds is what an operation does to the performer. -/
theorem performer_step (s : Scene) (op : Operation) :
    (s.step op).1.performer = replay (s.deeds op) s.performer := by
  cases op with
  | handle id kind params now => exact s.performer_handlerDeeds id kind _
  | handleItem id kind params item now => exact s.performer_handlerDeeds id kind _
  | handleIn id kind i => exact s.performer_handlerDeeds id kind i
  | execute actions i => exact congrArg Prod.fst (runEach_performAllDeeds i _ s.performer).symm
  | runForwarded now => exact (replay_forwardedDeeds s.performer now).symm
  | startTimer id spec now =>
      rw [step, startTimer, deeds]
      split <;> rfl
  | frame now => exact s.performer_frame now
  | poll now => exact s.performer_poll now
  | teardown =>
      rw [step, teardown, deeds]
      split <;> rfl
  | _ => rfl

theorem performer_run (s : Scene) (ops : List Operation) :
    (s.run ops).1.performer = replay (s.deedsAll ops) s.performer := by
  induction ops generalizing s with
  | nil => rfl
  | cons op r ih => rw [run, ih, performer_step, deedsAll, Deed.replay_append]

/-! ### Others who share the timers -/

/-- What others do to the timers that are shared with a scene is to ask for something about
theirs. -/
def Apart (s : Scene) : Operation → Prop
  | .share scheduler _ =>
    ∃ rs : List TimerRequest, (∀ r ∈ rs, r.owner ≠ s.owner) ∧
      scheduler = s.performer.scheduler.serveAll rs
  | _ => True

/-- Deeds of actions that were reached concern the instance only. -/
theorem along_apart_of_isAct {ds : List Deed} (h : ∀ d ∈ ds, d.IsAct) (p : Performer) :
    Along Deed.Apart ds p := by
  refine Deed.along_of_forall (fun d hd q => ?_) p
  obtain ⟨i, a, rfl⟩ := h d hd
  trivial

theorem along_apart_handlerDeeds (s : Scene) (id : String) (kind : HandlerKind)
    (i : Invocation) : Along Deed.Apart (s.handlerDeeds id kind i) s.performer := by
  rw [handlerDeeds]
  cases s.graph.find? id with
  | none => trivial
  | some node => exact along_apart_of_isAct isAct_of_mem_performAllDeeds s.performer

theorem along_apart_forwardedDeeds (p q : Performer) (now : Duration) :
    Along Deed.Apart (p.forwardedDeeds now) q := by
  refine Deed.along_of_forall (fun d hd r => ?_) q
  rcases mem_forwardedDeeds hd with rfl | ⟨i, a, rfl⟩
  · trivial
  · trivial

theorem along_apart_dueDeeds (p q : Performer) (family : TimerFamily) (context : Context)
    (now : Duration) : Along Deed.Apart (p.dueDeeds family context now) q :=
  ⟨trivial, along_apart_batchDeeds _ _ _ _ _⟩

theorem along_apart_preludeDeeds (s : Scene) (family : TimerFamily) (now : Duration) :
    Along Deed.Apart (s.preludeDeeds family now) s.performer := by
  cases family with
  | frame => exact ⟨s.stage.owner_frame now, trivial⟩
  | wallClock => exact ⟨trivial, along_apart_forwardedDeeds _ _ now⟩

/-- Events leave the scene its name. -/
theorem owner_step (s : Scene) (op : Operation) (h : s.moved op = s.stage) :
    (s.step op).1.owner = s.owner := by
  have hedited : Stage.Edited (fun _ => True) (s.moved op) (s.step op).1.stage :=
    edited_step (fun _ => trivial) s op fun _ _ => trivial
  rw [h] at hedited
  exact hedited.owner_eq

theorem along_apart_deeds {s : Scene} {op : Operation} (h : s.Apart op) :
    Along Deed.Apart (s.deeds op) s.performer := by
  have htick : ∀ family now, Along Deed.Apart (s.tickDeeds family now) s.performer := by
    intro family now
    rw [tickDeeds]
    split
    · trivial
    · exact Deed.along_append.mpr
        ⟨s.along_apart_preludeDeeds family now, along_apart_dueDeeds _ _ _ _ _⟩
  cases op with
  | apply event => exact ⟨s.owner_step (.apply event) rfl, trivial⟩
  | sync log => exact ⟨s.owner_step (.sync log) rfl, trivial⟩
  | handle id kind params now => exact s.along_apart_handlerDeeds id kind _
  | handleItem id kind params item now => exact s.along_apart_handlerDeeds id kind _
  | handleIn id kind i => exact s.along_apart_handlerDeeds id kind i
  | execute actions i => exact along_apart_of_isAct isAct_of_mem_performAllDeeds s.performer
  | runForwarded now => exact along_apart_forwardedDeeds _ _ now
  | startTimer id spec now =>
      rw [deeds]
      split
      · trivial
      · exact ⟨trivial, trivial⟩
  | stopTimer id => exact ⟨trivial, trivial⟩
  | frame now => exact htick .frame now
  | poll now => exact htick .wallClock now
  | teardown =>
      rw [deeds]
      split
      · trivial
      · exact ⟨trivial, trivial⟩
  | share scheduler records => exact ⟨h, trivial⟩

theorem along_apart_deedsAll {s : Scene} {ops : List Operation} (h : Always Apart s ops) :
    Along Deed.Apart (s.deedsAll ops) s.performer := by
  induction ops generalizing s with
  | nil => trivial
  | cons op r ih =>
      refine Deed.along_append.mpr ⟨along_apart_deeds h.1, ?_⟩
      rw [← performer_step]
      exact ih h.2

/-! ### Collections -/

theorem isQuiet_of_mem_forwardedDeeds {p : Performer} {now : Duration} :
    ∀ d ∈ p.forwardedDeeds now, d.IsQuiet := by
  intro d hd
  rcases mem_forwardedDeeds hd with rfl | hact
  · exact ⟨rfl, rfl⟩
  · exact hact.isQuiet

theorem isQuiet_of_mem_preludeDeeds {s : Scene} {family : TimerFamily} {now : Duration} :
    ∀ d ∈ s.preludeDeeds family now, d.IsQuiet := by
  intro d hd
  cases family with
  | frame =>
      rw [preludeDeeds, List.mem_singleton] at hd
      exact hd ▸ ⟨rfl, rfl⟩
  | wallClock =>
      rcases List.mem_cons.mp hd with rfl | hd
      · exact ⟨rfl, rfl⟩
      · exact isQuiet_of_mem_forwardedDeeds d hd

/-- The deeds of an operation are quiet, or those of a frame or a poll: what comes before the
timers, and the timers. -/
theorem deeds_cases (s : Scene) (op : Operation) :
    (∀ d ∈ s.deeds op, d.IsQuiet) ∨
      ∃ family now, op = .tick family now ∧ s.tornDown = false ∧
        s.deeds op = s.preludeDeeds family now ++
          (replay (s.preludeDeeds family now) s.performer).dueDeeds family family.context now := by
  have hhandler : ∀ id kind i, ∀ d ∈ s.handlerDeeds id kind i, d.IsQuiet := by
    intro id kind i d hd
    rw [handlerDeeds] at hd
    split at hd
    · cases hd
    · exact (isAct_of_mem_performAllDeeds d hd).isQuiet
  have htick : ∀ family now, (∀ d ∈ s.tickDeeds family now, d.IsQuiet) ∨
      s.tornDown = false ∧ s.tickDeeds family now = s.preludeDeeds family now ++
        (replay (s.preludeDeeds family now) s.performer).dueDeeds family family.context now := by
    intro family now
    rw [tickDeeds]
    cases s.tornDown with
    | true => exact Or.inl fun d hd => by cases hd
    | false => exact Or.inr ⟨rfl, rfl⟩
  cases op with
  | handle id kind params now => exact Or.inl (hhandler id kind _)
  | handleItem id kind params item now => exact Or.inl (hhandler id kind _)
  | handleIn id kind i => exact Or.inl (hhandler id kind i)
  | execute actions i => exact Or.inl fun d hd => (isAct_of_mem_performAllDeeds d hd).isQuiet
  | runForwarded now => exact Or.inl isQuiet_of_mem_forwardedDeeds
  | startTimer id spec now =>
      refine Or.inl fun d hd => ?_
      rw [deeds] at hd
      split at hd
      · cases hd
      · exact List.mem_singleton.mp hd ▸ ⟨rfl, rfl⟩
  | frame now => exact (htick .frame now).imp_right fun h => ⟨.frame, now, rfl, h⟩
  | poll now => exact (htick .wallClock now).imp_right fun h => ⟨.wallClock, now, rfl, h⟩
  | teardown =>
      refine Or.inl fun d hd => ?_
      rw [deeds] at hd
      split at hd
      · cases hd
      · exact List.mem_singleton.mp hd ▸ ⟨rfl, rfl⟩
  | _ => exact Or.inl fun d hd => List.mem_singleton.mp hd ▸ ⟨rfl, rfl⟩

/-- What follows upon a collection in an operation is the batch of what was collected. -/
theorem deeds_collect {s : Scene} {op : Operation} {a c : List Deed} {family : TimerFamily}
    {now : Duration} (h : s.deeds op = a ++ .collect family now :: c) :
    (s.tornDown = false ∧ op = .tick family now) ∧
      c = batchDeeds family.context now ((replay a s.performer).collect family now).2
        ((replay a s.performer).collect family now).1 := by
  rcases s.deeds_cases op with hquiet | ⟨asked, time, hop, hlive, hdeeds⟩
  · have hmem : Deed.collect family now ∈ s.deeds op := by simp [h]
    cases (hquiet _ hmem).isCollect
  · -- There is one collection only, so the two ways to split the list are the same.
    rw [hdeeds, dueDeeds] at h
    obtain ⟨rfl, hsame, rfl⟩ := (List.append_cons_inj_of_notMem
      (fun hmem => by cases (isQuiet_of_mem_preludeDeeds _ hmem).isCollect)
      (fun hmem => by cases isCollect_of_mem_batchDeeds _ hmem)).mp h
    cases hsame
    exact ⟨⟨hlive, hop⟩, rfl⟩

/-- Timers are asked for by the frames and polls of a scene that was not torn down, and by nothing
else. -/
theorem mem_deeds_collect {s : Scene} {op : Operation} {family : TimerFamily} {now : Duration} :
    .collect family now ∈ s.deeds op ↔ s.tornDown = false ∧ op = .tick family now := by
  constructor
  · intro hmem
    obtain ⟨a, c, hsplit⟩ := List.append_of_mem hmem
    exact (deeds_collect hsplit).1
  · rintro ⟨hlive, rfl⟩
    have hdeeds : s.deeds (.tick family now) = s.tickDeeds family now := by
      cases family <;> rfl
    rw [hdeeds, tickDeeds, hlive]
    exact List.mem_append_right _ List.mem_cons_self

/-- What follows upon a collection in a run begins with the batch of what was collected. -/
theorem deedsAll_collect {s : Scene} {ops : List Operation} {a c : List Deed}
    {family : TimerFamily} {now : Duration}
    (h : s.deedsAll ops = a ++ .collect family now :: c) :
    ∃ rest, c = batchDeeds family.context now ((replay a s.performer).collect family now).2
      ((replay a s.performer).collect family now).1 ++ rest := by
  induction ops generalizing s a with
  | nil => cases a <;> cases h
  | cons op r ih =>
      rw [deedsAll, List.append_eq_append_iff] at h
      -- The collection is in the deeds of the first operation, or after them.
      rcases h with ⟨b, rfl, hb⟩ | ⟨b, hb, hc⟩
      · rw [Deed.replay_append, ← performer_step]
        exact ih hb
      · cases b with
        | nil =>
            rw [List.append_nil] at hb
            rw [← hb, ← performer_step]
            exact ih (a := []) hc.symm
        | cons d b =>
            obtain ⟨rfl, rfl⟩ := List.cons.inj hc
            exact ⟨_, congrArg (· ++ _) (deeds_collect hb).2⟩

theorem accounted_deeds (s : Scene) (op : Operation) :
    Deed.Accounted (s.deeds op) s.performer := by
  rcases s.deeds_cases op with hquiet | ⟨family, now, -, -, hdeeds⟩
  · exact Deed.accounted_of_isQuiet hquiet s.performer
  · rw [hdeeds]
    exact (Deed.accounted_of_isQuiet isQuiet_of_mem_preludeDeeds s.performer).append
      (accounted_dueDeeds _ family)

theorem accounted_deedsAll (s : Scene) (ops : List Operation) :
    Deed.Accounted (s.deedsAll ops) s.performer := by
  induction ops generalizing s with
  | nil => exact Deed.accounted_of_isQuiet (fun d hd => by cases hd) s.performer
  | cons op r ih =>
      refine (s.accounted_deeds op).append ?_
      rw [← performer_step]
      exact ih (s.step op).1

end Scene

/-! ### Deeds of actions and timers, and others -/

/-- A deed that runs of actions and timers are made of. -/
def Deed.isInner : Deed → Bool
  | act .. | takeForwarded | collect .. | fire .. => true
  | _ => false

namespace Performer

theorem isInner_of_mem_performAllDeeds {i : Invocation} {actions : List Action} {p : Performer}
    {d : Deed} (h : d ∈ performAllDeeds i actions p) : d.isInner = true := by
  obtain ⟨j, a, rfl⟩ := isAct_of_mem_performAllDeeds d h
  rfl

theorem isInner_of_mem_forwardedDeeds {p : Performer} {now : Duration} {d : Deed}
    (h : d ∈ p.forwardedDeeds now) : d.isInner = true := by
  rcases mem_forwardedDeeds h with rfl | ⟨i, a, rfl⟩ <;> rfl

theorem isInner_of_mem_dueDeeds {p : Performer} {family : TimerFamily} {context : Context}
    {now : Duration} {d : Deed} (h : d ∈ p.dueDeeds family context now) : d.isInner = true := by
  rcases List.mem_cons.mp h with rfl | h
  · rfl
  · rcases mem_batchDeeds h with ⟨f, -, rfl⟩ | ⟨i, a, rfl⟩ <;> rfl

end Performer

namespace Scene

theorem isInner_of_mem_handlerDeeds {s : Scene} {id : String} {kind : HandlerKind}
    {i : Invocation} {d : Deed} (h : d ∈ s.handlerDeeds id kind i) : d.isInner = true := by
  rw [handlerDeeds] at h
  split at h
  · cases h
  · exact isInner_of_mem_performAllDeeds h

/-- The deeds of an operation that are no part of a run of actions or timers. -/
def outerDeeds (s : Scene) : Operation → List Deed
  | .apply event => [.restage (s.apply event).stage]
  | .sync log => [.restage (s.sync log).1.stage]
  | .startTimer id spec now => if s.tornDown then [] else [.startTimer id spec now]
  | .stopTimer id => [.stopTimer id]
  | .frame now => if s.tornDown then [] else [.restage (s.stage.frame now)]
  | .poll _ => if s.tornDown then [] else [.playEffects]
  | .teardown => if s.tornDown then [] else [.close]
  | .share scheduler records => [.share scheduler records]
  | _ => []

theorem mem_tickDeeds {s : Scene} {family : TimerFamily} {now : Duration} {d : Deed}
    (h : d ∈ s.tickDeeds family now) :
    d.isInner = true ∨ d ∈ s.outerDeeds (.tick family now) := by
  rw [tickDeeds] at h
  split at h
  · cases h
  · next hlive =>
      rcases List.mem_append.mp h with h | h
      · cases family with
        | frame =>
            rw [preludeDeeds] at h
            exact Or.inr (by simpa [outerDeeds, Operation.tick, hlive] using h)
        | wallClock =>
            rcases List.mem_cons.mp h with rfl | h
            · exact Or.inr (by simp [outerDeeds, Operation.tick, hlive])
            · exact Or.inl (isInner_of_mem_forwardedDeeds h)
      · exact Or.inl (isInner_of_mem_dueDeeds h)

/-- The deeds of an operation are those of actions and timers that run, and one besides at most. -/
theorem mem_deeds {s : Scene} {op : Operation} {d : Deed} (h : d ∈ s.deeds op) :
    d.isInner = true ∨ d ∈ s.outerDeeds op := by
  cases op with
  | handle | handleItem | handleIn => exact Or.inl (isInner_of_mem_handlerDeeds h)
  | execute => exact Or.inl (isInner_of_mem_performAllDeeds h)
  | runForwarded => exact Or.inl (isInner_of_mem_forwardedDeeds h)
  | frame now => exact mem_tickDeeds h
  | poll now => exact mem_tickDeeds h
  | _ => exact Or.inr h

/-! ### A scene to look at -/

/-- A scene, as it begins. -/
def blank : Scene := Scene.new "scene" {} (.animator {}) default

/-- An invocation of the full-capability context, when time begins. -/
def atStart (scope : Option ItemScope) : Invocation := ⟨.fullCapability, ∅, scope, .zero⟩

/-- An action that asks for an effect. -/
def chime : Action := .mk (.playEffect "chime" 1 1) none

end Scene

end LiveScene
