import LiveScene.Proofs.Performer.Effects
import LiveScene.Proofs.Scene.Teardown

/-!
# LiveScene.Proofs.Scene.Effects

The effects of a scene: each is played once, in the order in which the actions asked for them, and
none after the teardown.

* What an operation plays is what its deeds play (`played_step`). A scene that was torn down plays
  nothing (`playEffects_notMem_of_tornDown`), and only the teardown drops what waits
  (`eq_teardown_of_close_mem`).
* So the account of `EffectQueue.Accounts` is kept up to the teardown (`accounts_run`). A poll
  settles it (`played_poll`).
-/

namespace LiveScene

open Performer
open Deed (replay effects)

namespace Scene

/-- Only the teardown drops effects, if it is the first one. -/
theorem eq_teardown_of_close_mem {s : Scene} {op : Operation} (h : .close ∈ s.deeds op) :
    op = .teardown := by
  rcases mem_deeds h with hinner | houter
  · cases hinner
  · cases op with
    | teardown => rfl
    | startTimer | frame | poll =>
        rw [outerDeeds] at houter
        split at houter <;> simp at houter
    | _ => simp [outerDeeds] at houter

/-- A scene that was torn down plays no effects. -/
theorem playEffects_notMem_of_tornDown {s : Scene} (h : s.tornDown = true) (op : Operation) :
    .playEffects ∉ s.deeds op := by
  intro hmem
  rcases mem_deeds hmem with hinner | houter
  · cases hinner
  · cases op <;> simp [outerDeeds, h] at houter

/-! ### What is played -/

theorem played_handlerDeeds (s : Scene) (id : String) (kind : HandlerKind) (i : Invocation) :
    (answered (s.handleIn id kind i)).2.played =
      (runEach Deed.run (s.handlerDeeds id kind i) s.performer).2.played := by
  rw [handlerDeeds, handleIn]
  cases s.graph.find? id with
  | none => rfl
  | some node => rw [runEach_performAllDeeds]; rfl

/-- The report of a frame or a poll of a scene that was not torn down: what comes first, then the
timers. -/
theorem report_tickDeeds {s : Scene} (h : s.tornDown = false) (family : TimerFamily)
    (now : Duration) :
    (runEach Deed.run (s.tickDeeds family now) s.performer).2 =
      (runEach Deed.run (s.preludeDeeds family now) s.performer).2 ++
        ((replay (s.preludeDeeds family now) s.performer).runDue family family.context now).2 := by
  rw [← runEach_dueDeeds, tickDeeds, h]
  exact congrArg Prod.snd (runEach_append Deed.run _ _ s.performer)

theorem report_frame (s : Scene) (now : Duration) :
    (s.frame now).2 = (runEach Deed.run (s.tickDeeds .frame now) s.performer).2 := by
  cases h : s.tornDown with
  | true => simp [frame, tickDeeds, h, runEach]
  | false =>
      rw [report_tickDeeds h, frame, h]
      exact (Report.empty_append _).symm

theorem report_poll (s : Scene) (now : Duration) :
    (s.poll now).2 = (runEach Deed.run (s.tickDeeds .wallClock now) s.performer).2 := by
  cases h : s.tornDown with
  | true => simp [poll, tickDeeds, h, runEach]
  | false =>
      have hforwarded := runEach_forwardedDeeds s.performer.playEffects.1 now
      have hprelude : runEach Deed.run (s.preludeDeeds .wallClock now) s.performer =
          ((s.performer.playEffects.1.runForwarded now).1,
            s.performer.playEffects.2 ++ (s.performer.playEffects.1.runForwarded now).2) := by
        rw [preludeDeeds, runEach_cons, ← hforwarded]
        rfl
      rw [report_tickDeeds h, replay, hprelude, poll, h]
      rfl

/-- What an operation plays is what its deeds play. -/
theorem played_step (s : Scene) (op : Operation) :
    (s.step op).2.played = (runEach Deed.run (s.deeds op) s.performer).2.played := by
  cases op with
  | handle id kind params now => exact s.played_handlerDeeds id kind _
  | handleItem id kind params item now => exact s.played_handlerDeeds id kind _
  | handleIn id kind i => exact s.played_handlerDeeds id kind i
  | execute actions i =>
      rw [deeds, runEach_performAllDeeds]
      rfl
  | runForwarded now =>
      rw [deeds, runEach_forwardedDeeds]
      rfl
  | frame now => exact congrArg Report.played (s.report_frame now)
  | poll now => exact congrArg Report.played (s.report_poll now)
  | startTimer | teardown =>
      rw [deeds]
      split <;> rfl
  | _ => rfl

theorem report_run_append (s : Scene) (xs ys : List Operation) :
    (s.run (xs ++ ys)).2 = (s.run xs).2 ++ ((s.run xs).1.run ys).2 := by
  induction xs generalizing s with
  | nil => simp [run]
  | cons op r ih => simp [run, ih, Report.append_assoc]

/-- What a run plays is what its deeds play. -/
theorem played_run (s : Scene) (ops : List Operation) :
    (s.run ops).2.played = (runEach Deed.run (s.deedsAll ops) s.performer).2.played := by
  induction ops generalizing s with
  | nil => rfl
  | cons op r ih =>
      rw [run, deedsAll, runEach_append, Report.played_append, Report.played_append, played_step,
        ih, performer_step]
      rfl

/-! ### Accounts of a run -/

variable {s : Scene} {ops : List Operation}

theorem along_keepsOwner_deeds (s : Scene) (op : Operation) :
    Deed.Along Deed.KeepsOwner (s.deeds op) s.performer := by
  cases op with
  | share scheduler records => exact ⟨rfl, trivial⟩
  | _ => exact Deed.along_mono (fun _ _ => Deed.owner_run) (along_apart_deeds (by trivial))

/-- No operation changes the name of the scene. -/
theorem along_keepsOwner_deedsAll (s : Scene) (ops : List Operation) :
    Deed.Along Deed.KeepsOwner (s.deedsAll ops) s.performer := by
  induction ops generalizing s with
  | nil => trivial
  | cons op r ih =>
      refine Deed.along_append.mpr ⟨s.along_keepsOwner_deeds op, ?_⟩
      rw [← performer_step]
      exact ih (s.step op).1

theorem tornDown_run (h : s.tornDown = true) (ops : List Operation) :
    (s.run ops).1.tornDown = true := by
  induction ops generalizing s with
  | nil => exact h
  | cons op r ih => exact ih (tornDown_step h op)

/-- A run that does not end the scene drops no effects. -/
theorem close_notMem_deedsAll (h : (s.run ops).1.tornDown = false) :
    .close ∉ s.deedsAll ops := by
  induction ops generalizing s with
  | nil => exact List.not_mem_nil
  | cons op r ih =>
      rw [deedsAll, List.mem_append, not_or]
      refine ⟨fun hclose => ?_, ih h⟩
      have htorn : (s.step op).1.tornDown = true := by
        rw [eq_teardown_of_close_mem hclose]
        exact s.tornDown_teardown
      have hend : ((s.step op).1.run r).1.tornDown = true := tornDown_run htorn r
      rw [run] at h
      rw [hend] at h
      cases h

/-- A scene that was torn down plays nothing any more. -/
theorem played_of_tornDown (h : s.tornDown = true) (ops : List Operation) :
    (s.run ops).2.played = [] := by
  induction ops generalizing s with
  | nil => rfl
  | cons op r ih =>
      have hstep : (s.step op).2.played = [] := by
        rw [played_step]
        exact Deed.played_runEach (playEffects_notMem_of_tornDown h op) s.performer
      rw [run, Report.played_append, hstep, ih (tornDown_step h op), List.nil_append]

/-- Up to the teardown, what was played and what waits are what was asked for. -/
theorem accounts_run {played asked : List PlayedEffect}
    (h : s.performer.effects.Accounts played asked) (hlive : (s.run ops).1.tornDown = false) :
    (s.run ops).1.performer.effects.Accounts (played ++ (s.run ops).2.played)
      (asked ++ effects s.owner (s.deedsAll ops)) := by
  rw [played_run, performer_run]
  exact h.runEach (close_notMem_deedsAll hlive) (s.along_keepsOwner_deedsAll ops)

/-- A poll plays what waits when it comes, and nothing else. -/
theorem played_poll (h : s.tornDown = false) (now : Duration) :
    (s.poll now).2.played = s.performer.effects.queue.waiting.map EffectRequest.played := by
  -- After the effects come what was handed over and the timers, and these play nothing.
  obtain ⟨rest, htick, hinner⟩ : ∃ rest, s.tickDeeds .wallClock now = .playEffects :: rest ∧
      ∀ d ∈ rest, d.isInner = true := by
    refine ⟨_, by simp only [tickDeeds, h, preludeDeeds]; rfl, fun d hd => ?_⟩
    rcases List.mem_append.mp hd with hforwarded | hdue
    · exact isInner_of_mem_forwardedDeeds hforwarded
    · exact isInner_of_mem_dueDeeds hdue
  have hrest : .playEffects ∉ rest := by
    intro hmem
    cases hinner _ hmem
  rw [report_poll, htick, runEach_cons, Report.played_append, Deed.played_runEach hrest,
    List.append_nil]
  rfl

/-- Effects are played once and in order. Until the scene ends, those that were played and then
those that wait are the ones that actions have asked for, and the next poll plays all that wait.
The teardown drops what waits, and nothing is played after it. -/
theorem effects_played_once (owner : String) (settings : Settings) (renderer : Renderer)
    (chance : Chance) (ops more : List Operation) (now : Duration) :
    let s := Scene.new owner settings renderer chance
    ((s.run ops).1.tornDown = false →
      (s.run ops).1.performer.effects.Accounts (s.run ops).2.played
          (effects owner (s.deedsAll ops)) ∧
        (s.run (ops ++ [.poll now])).2.played = effects owner (s.deedsAll ops)) ∧
      (s.run (ops ++ .teardown :: more)).2.played = (s.run ops).2.played := by
  intro s
  refine ⟨fun hlive => ?_, ?_⟩
  · have haccounts : (s.run ops).1.performer.effects.Accounts (s.run ops).2.played
        (effects owner (s.deedsAll ops)) :=
      accounts_run (s := s) EffectQueue.accounts_new hlive
    refine ⟨haccounts, ?_⟩
    have hpoll : (s.run (ops ++ [.poll now])).2.played =
        (s.run ops).2.played ++ ((s.run ops).1.poll now).2.played := by
      rw [report_run_append]
      simp [run, step]
    rw [hpoll, played_poll hlive, haccounts.order]
  · have hended : ((s.run ops).1.step .teardown).1.tornDown = true :=
      (s.run ops).1.tornDown_teardown
    have hteardown : ((s.run ops).1.step .teardown).2.played = [] := rfl
    rw [report_run_append, run, Report.played_append, Report.played_append, hteardown,
      played_of_tornDown hended, List.append_nil]
    simp

end Scene

end LiveScene
