import LiveScene.Proofs.Performer.Reached

/-!
# LiveScene.Proofs.Performer.Deeds

A run, taken apart into its smallest pieces.

* A `Deed` is one of them: an action that is reached does what it does by itself, the timers are
  asked whose time has come, the body of one begins. `Deed.run` carries one out.
* For each run of a performer there is the list of its deeds (`performAllDeeds`, `forwardedDeeds`,
  `dueDeeds`), and carrying these out in order is the run. So what happened, and what the
  performer was like at any moment of it, can be said by taking the list apart.
-/

namespace LiveScene

open Performer

/-- A smallest piece of a run. -/
inductive Deed where
  /-- An action that is reached does what it does by itself. -/
  | act (i : Invocation) (a : Action)
  /-- The actions that wait are taken from their queue. -/
  | takeForwarded
  /-- The timers of a family are asked whose time has come. -/
  | collect (family : TimerFamily) (now : Duration)
  /-- The body of a timer that was collected begins. -/
  | fire (context : Context) (now : Duration) (f : FiredTimer)
  /-- The effects that wait are played. -/
  | playEffects
  /-- The host starts a timer. -/
  | startTimer (id : String) (spec : TimerSpec) (now : Duration)
  /-- The host stops a timer. -/
  | stopTimer (id : String)
  /-- Events or animations put a stage in place. -/
  | restage (stage : Stage)
  /-- Others change what is shared. -/
  | share (scheduler : Scheduler) (records : RecordStore)
  /-- The timers are stopped, and the effects that wait are dropped. -/
  | close

namespace Performer

/-- Asks the timers of a family whose time has come. -/
def collect (p : Performer) (family : TimerFamily) (now : Duration) :
    Performer × List FiredTimer :=
  let (scheduler, fired) := p.scheduler.due p.owner family now p.stage.cells
  ({ p with scheduler := scheduler }, fired)

/-- Stops all timers, and drops the effects that wait. -/
def close (p : Performer) : Performer :=
  { p with scheduler := (p.scheduler.stopAll p.owner).1, effects := p.effects.drain.2 }

end Performer

namespace Deed

/-- Carries out a deed. -/
def run : Deed → Performer → Performer × Report
  | act i a, p => Performer.act i a p
  | takeForwarded, p => ({ p with forwarded := p.forwarded.drain.2 }, ∅)
  | collect family now, p => ((p.collect family now).1, ∅)
  | fire _ _ f, p =>
    match f.body with
    | .actions _ => (p, ∅)
    | .callback name => (p, { called := [name] })
  | playEffects, p => p.playEffects
  | startTimer id spec now, p => (p.startTimer id spec now, ∅)
  | stopTimer id, p => ((p.stopTimer id).1, ∅)
  | restage stage, p => ({ p with stage := stage }, ∅)
  | share scheduler records, p => ({ p with scheduler := scheduler, records := records }, ∅)
  | close, p => (p.close, ∅)

/-- The performer after deeds in order. -/
def replay (ds : List Deed) (p : Performer) : Performer := (runEach run ds p).1

@[simp] theorem replay_nil (p : Performer) : replay [] p = p := rfl

@[simp] theorem replay_cons (d : Deed) (ds : List Deed) (p : Performer) :
    replay (d :: ds) p = replay ds (d.run p).1 := rfl

@[simp] theorem replay_append (xs ys : List Deed) (p : Performer) :
    replay (xs ++ ys) p = replay ys (replay xs p) := by
  rw [replay, runEach_append]
  rfl

@[simp] theorem run_fire (context : Context) (now : Duration) (f : FiredTimer) (p : Performer) :
    ((fire context now f).run p).1 = p := by
  rw [run]
  split <;> rfl

/-- A deed that reports nothing leaves the report to the others. -/
theorem runEach_cons_of_silent {d : Deed} {p : Performer} (h : (d.run p).2 = ∅) (ds : List Deed) :
    runEach run (d :: ds) p = runEach run ds (d.run p).1 := by
  rw [runEach_cons, h, Report.empty_append]

end Deed

open Deed (replay)

/-! ### The deeds of a run -/

namespace Performer

theorem runEach_map {α β : Type} (run : β → Performer → Performer × Report) (g : α → β)
    (xs : List α) (p : Performer) :
    runEach run (xs.map g) p = runEach (fun a => run (g a)) xs p := by
  induction xs generalizing p with
  | nil => rfl
  | cons a r ih => rw [List.map_cons, runEach_cons, runEach_cons, ih]

/-- The deeds of several runs, one after the other. -/
def deedsEach {α : Type} (deeds : α → Performer → List Deed) : List α → Performer → List Deed
  | [], _ => []
  | a :: r, p => deeds a p ++ deedsEach deeds r (replay (deeds a p) p)

/-- If the deeds of each run make that run, then so for several. -/
theorem runEach_deedsEach {α : Type} {deeds : α → Performer → List Deed}
    {run : α → Performer → Performer × Report}
    (h : ∀ a p, runEach Deed.run (deeds a p) p = run a p) (xs : List α) (p : Performer) :
    runEach Deed.run (deedsEach deeds xs p) p = runEach run xs p := by
  induction xs generalizing p with
  | nil => rfl
  | cons a r ih =>
      have hnext : replay (deeds a p) p = (run a p).1 := congrArg Prod.fst (h a p)
      rw [deedsEach, runEach_append, h, hnext, ih, runEach_cons]

/-- The deeds of a run of actions: those that it reaches. -/
def performAllDeeds (i : Invocation) (actions : List Action) (p : Performer) : List Deed :=
  (reachedAll i actions p).map (Deed.act i)

theorem runEach_performAllDeeds (i : Invocation) (actions : List Action) (p : Performer) :
    runEach Deed.run (performAllDeeds i actions p) p = performAll i actions p :=
  (runEach_map Deed.run (Deed.act i) _ p).trans (performAll_eq_runEach_act i actions p).symm

/-- The deeds of an action that waited. -/
def waitedDeeds (now : Duration) (f : ForwardedAction) (p : Performer) : List Deed :=
  (reached (f.invocation now) f.action p).map (Deed.act (f.invocation now))

theorem runEach_waitedDeeds (now : Duration) (f : ForwardedAction) (p : Performer) :
    runEach Deed.run (waitedDeeds now f p) p = perform (f.invocation now) f.action p :=
  (runEach_map Deed.run (Deed.act (f.invocation now)) _ p).trans
    (perform_eq_runEach_act (f.invocation now) f.action p).symm

/-- The deeds of the actions that wait. -/
def forwardedDeeds (p : Performer) (now : Duration) : List Deed :=
  Deed.takeForwarded ::
    deedsEach (waitedDeeds now) p.forwarded.drain.1 { p with forwarded := p.forwarded.drain.2 }

theorem runEach_forwardedDeeds (p : Performer) (now : Duration) :
    runEach Deed.run (p.forwardedDeeds now) p = p.runForwarded now := by
  rw [forwardedDeeds, Deed.runEach_cons_of_silent rfl]
  exact runEach_deedsEach (runEach_waitedDeeds now) _ _

/-- The deeds of a body. -/
def bodyDeeds (context : Context) (now : Duration) (f : FiredTimer) (p : Performer) : List Deed :=
  match f.body with
  | .actions list => performAllDeeds ⟨context, f.params, none, now⟩ list p
  | .callback _ => []

/-- The deeds of a timer that was collected: its body, unless what ran before has stopped it. -/
def firedDeeds (context : Context) (now : Duration) (f : FiredTimer) (p : Performer) :
    List Deed :=
  if p.scheduler.isLive f then Deed.fire context now f :: bodyDeeds context now f p else []

theorem runEach_firedDeeds (context : Context) (now : Duration) (f : FiredTimer)
    (p : Performer) :
    runEach Deed.run (firedDeeds context now f p) p = runFired context now f p := by
  rw [firedDeeds, runFired]
  split
  · rw [runEach_cons, Deed.run_fire, bodyDeeds, Deed.run]
    cases f.body with
    | actions list =>
        rw [runEach_performAllDeeds]
        exact Prod.ext rfl (Report.empty_append _)
    | callback name => exact Prod.ext rfl (Report.append_empty _)
  · rfl

/-- The deeds of timers that were collected. -/
def batchDeeds (context : Context) (now : Duration) : List FiredTimer → Performer → List Deed :=
  deedsEach (firedDeeds context now)

/-- The deeds of a run of the timers whose time has come. -/
def dueDeeds (p : Performer) (family : TimerFamily) (context : Context) (now : Duration) :
    List Deed :=
  Deed.collect family now ::
    batchDeeds context now (p.collect family now).2 (p.collect family now).1

theorem runEach_dueDeeds (p : Performer) (family : TimerFamily) (context : Context)
    (now : Duration) :
    runEach Deed.run (p.dueDeeds family context now) p = p.runDue family context now := by
  rw [dueDeeds, Deed.runEach_cons_of_silent rfl]
  exact runEach_deedsEach (runEach_firedDeeds context now) _ _

end Performer

end LiveScene
