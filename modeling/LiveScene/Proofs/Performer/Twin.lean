import LiveScene.Proofs.Performer.Requests
import LiveScene.Proofs.Timer.Renumbered

/-!
# LiveScene.Proofs.Performer.Twin

Performers that differ in the numbers of their timers do the same.

* Actions put requests to the registry of timers and take no answer from it. A run is `Blind` if
  this is all that it has to do with the registry. Blind runs one after the other are blind
  (`Blind.seq`, `Blind.runEach`), so runs of actions are (`blind_performAll`).
* Two performers are `Twin`s if the one is the other with a registry that is `Renumbered`. Blind
  runs leave twins and report the same (`Blind.twin`). So do the timers that are due
  (`Twin.runDue`), although which of them run is asked of the registry.
-/

namespace LiveScene

open Stage (Edited)

namespace Performer

/-- The performer with another registry of timers. -/
def withTimers (p : Performer) (scheduler : Scheduler) : Performer :=
  { p with scheduler := scheduler }

@[simp] theorem withTimers_self (p : Performer) : p.withTimers p.scheduler = p := rfl

@[simp] theorem withTimers_withTimers (p : Performer) (s t : Scheduler) :
    (p.withTimers s).withTimers t = p.withTimers t := rfl

@[simp] theorem scheduler_withTimers (p : Performer) (t : Scheduler) :
    (p.withTimers t).scheduler = t := rfl

@[simp] theorem owner_withTimers (p : Performer) (t : Scheduler) :
    (p.withTimers t).owner = p.owner := rfl

@[simp] theorem eval_withTimers (p : Performer) (t : Scheduler) (i : Invocation) (e : Expr) :
    (p.withTimers t).eval i e = p.eval i e := rfl

/-! ### Runs that ask and are not answered -/

/-- Whatever the registry holds, a run from a performer puts the same requests to it, about the
timers of its instance, and does the same besides. -/
def BlindAt (run : Performer → Performer × Report) (p : Performer) : Prop :=
  (run p).1.owner = p.owner ∧
    ∃ rs : List TimerRequest, (∀ r ∈ rs, r.owner = p.owner) ∧
      ∀ t, run (p.withTimers t) = ((run p).1.withTimers (t.serveAll rs), (run p).2)

/-- A run takes no answer from the registry. -/
def Blind (run : Performer → Performer × Report) : Prop := ∀ p, BlindAt run p

/-- A run that does not touch the registry is blind. -/
theorem blindAt_of_untouched {run : Performer → Performer × Report} {p : Performer}
    (howner : (run p).1.owner = p.owner)
    (h : ∀ t, run (p.withTimers t) = ((run p).1.withTimers t, (run p).2)) : BlindAt run p :=
  ⟨howner, [], by simp, h⟩

/-- A run that puts one request to the registry is blind. -/
theorem blindAt_of_request {run : Performer → Performer × Report} {p : Performer}
    (howner : (run p).1.owner = p.owner) {r : TimerRequest} (hr : r.owner = p.owner)
    (h : ∀ t, run (p.withTimers t) = ((run p).1.withTimers (t.serve r), (run p).2)) :
    BlindAt run p :=
  ⟨howner, [r], by simpa using hr, h⟩

/-- One blind run after another. -/
theorem Blind.seq {first second : Performer → Performer × Report} (hfirst : Blind first)
    (hsecond : Blind second) :
    Blind fun p => ((second (first p).1).1, (first p).2 ++ (second (first p).1).2) := by
  intro p
  obtain ⟨howner, rs, hrs, hrun⟩ := hfirst p
  obtain ⟨howner', rs', hrs', hrun'⟩ := hsecond (first p).1
  refine ⟨howner'.trans howner, rs ++ rs', fun r hr => ?_, fun t => ?_⟩
  · rcases List.mem_append.mp hr with h | h
    · exact hrs r h
    · exact (hrs' r h).trans howner
  · simp [hrun, hrun', Scheduler.serveAll_append]

/-- What is added to the report does not matter. -/
theorem Blind.report {run : Performer → Performer × Report} (h : Blind run)
    (add : Report → Report) : Blind fun p => ((run p).1, add (run p).2) := by
  intro p
  obtain ⟨howner, rs, hrs, hrun⟩ := h p
  exact ⟨howner, rs, hrs, fun t => by simp [hrun]⟩

theorem Blind.runEach {α : Type} {run : α → Performer → Performer × Report}
    (h : ∀ a, Blind (run a)) (xs : List α) : Blind (runEach run xs) := by
  induction xs with
  | nil => exact fun p => blindAt_of_untouched rfl fun t => rfl
  | cons a r ih => exact (h a).seq ih

/-! ### Actions -/

theorem blind_bar (i : Invocation) (a : Action) : Blind fun p => p.bar i a := by
  intro p
  refine blindAt_of_untouched ?_ fun t => ?_
  · unfold bar
    split <;> rfl
  · unfold bar
    split <;> rfl

theorem blind_carryOut (i : Invocation) (task : Task) : Blind fun p => p.carryOut i task := by
  intro p
  cases task with
  | delay ms actions =>
      exact blindAt_of_request (r := .start p.owner (delayId p.delays)
        (delayedSpec i ms actions) i.now p.stage.cells) rfl rfl fun t => rfl
  | startTimer id interval actions lowLatency =>
      exact blindAt_of_request (r := .start p.owner id
        (repeatedSpec i interval actions lowLatency) i.now p.stage.cells) rfl rfl fun t => rfl
  | stopTimer id => exact blindAt_of_request (r := .stop p.owner id) rfl rfl fun t => rfl
  | _ => exact blindAt_of_untouched rfl fun t => rfl

theorem blind_performFull (i : Invocation) (task : Task) : Blind fun p => p.performFull i task :=
  (blind_carryOut i task).report (assertFull i ++ ·)

theorem blind_assignDrawn (target : String) (low high : Float) (report : Report) :
    Blind fun p => (p.assignDrawn target low high, report) := by
  intro p
  refine blindAt_of_untouched ?_ fun t => ?_
  · exact owner_act ⟨.lowLatency, ∅, none, .zero⟩ (.mk (.randomAssign target low high) none) p
  · unfold assignDrawn
    simp only [withTimers]
    generalize p.chance.draw low high = answer
    obtain ⟨drawn, chance⟩ := answer
    cases drawn <;> rfl

theorem blind_assignCell (i : Invocation) (target : String) (op : AssignOp) (value : Expr) :
    Blind (performTask i (.assignCell target op value)) := by
  intro p
  have hedited : Edited (fun _ => True) p.stage (p.stage.assign target op (p.eval i value)) :=
    Edited.refl.assign target op (p.eval i value)
  exact blindAt_of_untouched hedited.owner_eq fun t => rfl

mutual

theorem blind_perform (i : Invocation) (a : Action) : Blind (perform i a) := by
  obtain ⟨task, declared⟩ := a
  have hrun : perform i (.mk task declared) = fun p =>
      if isBarred i.context (.mk task declared) then p.bar i (.mk task declared)
      else performTask i task p := by
    funext p
    rw [perform]
  rw [hrun]
  cases isBarred i.context (.mk task declared) with
  | true => exact blind_bar i (.mk task declared)
  | false => exact blind_performTask i task

theorem blind_performTask (i : Invocation) (task : Task) : Blind (performTask i task) := by
  cases hcontext : task.context with
  | fullCapability =>
      have hrun : performTask i task = _ := funext (performTask_of_context hcontext i)
      rw [hrun]
      exact (blind_performFull i task).report (· ++ { executed := 1 })
  | lowLatency =>
      cases task with
      | branch condition yes no =>
          intro p
          -- Which side runs does not depend on the registry.
          by_cases htrue : (p.eval i condition).isTruthy = true
          · obtain ⟨howner, rs, hrs, hrun⟩ := blind_performAll i yes p
            exact ⟨by simpa [performTask_branch, htrue] using howner, rs, hrs,
              fun t => by simp [performTask_branch, htrue, hrun]⟩
          · obtain ⟨howner, rs, hrs, hrun⟩ := blind_performAll i no p
            exact ⟨by simpa [performTask_branch, htrue] using howner, rs, hrs,
              fun t => by simp [performTask_branch, htrue, hrun]⟩
      | assignCell target op value => exact blind_assignCell i target op value
      | randomAssign target low high => exact blind_assignDrawn target low high _
      | animate | playEffect => exact fun p => blindAt_of_untouched rfl fun t => rfl
      | _ => exact absurd hcontext (by simp [Task.context])

/-- Runs of actions are blind. -/
theorem blind_performAll (i : Invocation) (actions : List Action) :
    Blind (performAll i actions) := by
  cases actions with
  | nil => exact fun p => blindAt_of_untouched rfl fun t => rfl
  | cons a r =>
      have hrun : performAll i (a :: r) = _ := funext (performAll_cons i a r)
      rw [hrun]
      exact (blind_perform i a).seq (blind_performAll i r)

end

/-- Running what waits is blind. -/
theorem blind_runForwarded (now : Duration) : Blind fun p => p.runForwarded now := by
  intro p
  have hwaiting : Blind (runEach (fun f : ForwardedAction => perform (f.invocation now) f.action)
      p.forwarded.drain.1) :=
    Blind.runEach (fun f : ForwardedAction => blind_perform (f.invocation now) f.action) _
  exact hwaiting { p with forwarded := p.forwarded.drain.2 }

theorem blind_playEffects : Blind playEffects :=
  fun _ => blindAt_of_untouched rfl fun _ => rfl

theorem blind_startTimer (id : String) (spec : TimerSpec) (now : Duration) :
    Blind fun p => (p.startTimer id spec now, ∅) := by
  intro p
  exact blindAt_of_request (r := .start p.owner id spec now p.stage.cells) rfl rfl fun t => rfl

theorem blind_stopTimer (id : String) : Blind fun p => ((p.stopTimer id).1, ∅) := by
  intro p
  exact blindAt_of_request (r := .stop p.owner id) rfl rfl fun t => rfl

theorem blind_close : Blind fun p => (p.close, ∅) := by
  intro p
  exact blindAt_of_request (r := .stopAll p.owner) rfl rfl fun t => rfl

/-! ### Twins -/

/-- Two performers of an instance that are the same but for the numbers of its timers. -/
structure Twin (owner : String) (f : Nat → Nat) (p q : Performer) : Prop where
  owner_eq : p.owner = owner
  rest : q = p.withTimers q.scheduler
  timers : p.scheduler.Renumbered owner f q.scheduler

/-- Two runs leave twins and report the same. -/
structure TwinRuns (owner : String) (f : Nat → Nat) (x y : Performer × Report) : Prop where
  twin : Twin owner f x.1 y.1
  report : y.2 = x.2

variable {owner : String} {f : Nat → Nat} {p q : Performer}

/-- A blind run of twins leaves twins. -/
theorem BlindAt.twin {run : Performer → Performer × Report} (hrun : BlindAt run p)
    (h : Twin owner f p q) : TwinRuns owner f (run p) (run q) := by
  obtain ⟨rfl, hrest, htimers⟩ := h
  obtain ⟨howner, rs, hrs, hblind⟩ := hrun
  have hp : (run p).1 = (run p).1.withTimers (p.scheduler.serveAll rs) :=
    congrArg Prod.fst (hblind p.scheduler)
  have hq : run q = ((run p).1.withTimers (q.scheduler.serveAll rs), (run p).2) := by
    rw [hrest]
    exact hblind q.scheduler
  rw [hq]
  refine ⟨⟨howner, rfl, ?_⟩, rfl⟩
  rw [hp]
  exact htimers.serveAll hrs

/-- Runs one after the other, for each of two lists, leave twins if those of each place do. -/
theorem Twin.runEach {α β : Type} {run : α → Performer → Performer × Report}
    {run' : β → Performer → Performer × Report} {g : α → β} {xs : List α}
    (hrun : ∀ a ∈ xs, ∀ p q, Twin owner f p q → TwinRuns owner f (run a p) (run' (g a) q))
    (h : Twin owner f p q) :
    TwinRuns owner f (Performer.runEach run xs p) (Performer.runEach run' (xs.map g) q) := by
  induction xs generalizing p q with
  | nil => exact ⟨h, rfl⟩
  | cons a r ih =>
      have hhead := hrun a List.mem_cons_self p q h
      have hrest := ih (fun b hb => hrun b (List.mem_cons_of_mem a hb)) hhead.twin
      refine ⟨hrest.twin, ?_⟩
      rw [List.map_cons, runEach_cons, runEach_cons, hhead.report, hrest.report]

/-- The body of a timer that was collected runs for both, or for none. -/
theorem Twin.runFired (h : Twin owner f p q) {fired : FiredTimer} (hfired : fired.owner = owner)
    (context : Context) (now : Duration) :
    TwinRuns owner f (Performer.runFired context now fired p)
      (Performer.runFired context now (fired.renumber f) q) := by
  have hlive : q.scheduler.isLive (fired.renumber f) = p.scheduler.isLive fired :=
    h.timers.isLive hfired
  unfold Performer.runFired
  rw [hlive]
  cases p.scheduler.isLive fired with
  | false => exact ⟨h, rfl⟩
  | true =>
      obtain ⟨_, _, body, params, _, _⟩ := fired
      cases body with
      | actions list => exact (blind_performAll ⟨context, params, none, now⟩ list p).twin h
      | callback name => exact ⟨h, rfl⟩

/-- The timers that are due run alike for both. -/
theorem Twin.runDue (h : Twin owner f p q) (family : TimerFamily) (context : Context)
    (now : Duration) :
    TwinRuns owner f (p.runDue family context now) (q.runDue family context now) := by
  obtain ⟨rfl, hrest, htimers⟩ := h
  have howner : q.owner = p.owner := by rw [hrest, owner_withTimers]
  have hcells : q.stage.cells = p.stage.cells := by rw [hrest]; rfl
  have hfired : ∀ fired ∈ (p.scheduler.due p.owner family now p.stage.cells).2,
      fired.owner = p.owner := by
    intro fired hmem
    obtain ⟨t, -, -, hfired⟩ := Scheduler.mem_due.mp hmem
    rw [← hfired]
    rfl
  have hcollected : Twin p.owner f
      (p.withTimers (p.scheduler.due p.owner family now p.stage.cells).1)
      (q.withTimers (q.scheduler.due p.owner family now p.stage.cells).1) := by
    refine ⟨rfl, by rw [hrest]; rfl, ?_⟩
    exact htimers.serve (r := .due p.owner family now p.stage.cells) rfl
  simp only [Performer.runDue, howner, hcells, htimers.due]
  exact Twin.runEach (fun fired hmem _ _ htwin => htwin.runFired (hfired fired hmem) context now)
    hcollected

end Performer

end LiveScene
