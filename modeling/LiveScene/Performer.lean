import LiveScene.Chance
import LiveScene.RecordStore
import LiveScene.Report
import LiveScene.Stage
import LiveScene.Template
import LiveScene.Timer.Scheduler

/-!
# LiveScene.Performer

Runs actions.

* An action that needs the full-capability context and is reached in the other one does not run.
  If it would change records it is refused, else it waits, together with its parameters and its
  scope, until `runForwarded` runs it in the full-capability context.
* All other actions run where they are reached and count once each. A branch counts besides the
  actions of the side that it takes.
* Actions that name cells, records or timers which do not exist change nothing.
-/

namespace LiveScene

/-- What goes with a list of actions. -/
structure Invocation where
  context : Context
  params : Params := ∅
  /-- The item that placeholders refer to. -/
  scope : Option ItemScope := none
  /-- The time of the run, from which timers count. -/
  now : Duration

/-- An action that was handed over, and what goes with it. -/
structure ForwardedAction where
  action : Action
  params : Params
  scope : Option ItemScope

/-- What goes with an action that waited, when it runs. -/
def ForwardedAction.invocation (f : ForwardedAction) (now : Duration) : Invocation :=
  ⟨.fullCapability, f.params, f.scope, now⟩

/-- All that actions touch. -/
structure Performer where
  stage : Stage
  scheduler : Scheduler
  records : RecordStore
  effects : EffectQueue
  /-- The actions that wait for the full-capability context. -/
  forwarded : Queue ForwardedAction
  /-- The number of actions that were put off. Like the other counts it has no bound, where a word
  of sixty-four bits would do for any run. -/
  delays : Nat
  chance : Chance

namespace Performer

/-- The name of the instance. -/
def owner (p : Performer) : String := p.stage.cells.owner

/-- The value of an expression. -/
def eval (p : Performer) (i : Invocation) (e : Expr) : Value := e.eval p.stage.cells i.params

/-- Starts a timer of the instance. -/
def startTimer (p : Performer) (id : String) (spec : TimerSpec) (now : Duration) : Performer :=
  { p with scheduler := p.scheduler.start p.owner id spec now p.stage.cells }

/-- Stops a timer of the instance, and tells whether there was one. -/
def stopTimer (p : Performer) (id : String) : Performer × Bool :=
  let (scheduler, found) := p.scheduler.stop p.owner id
  ({ p with scheduler := scheduler }, found)

/-! ### Tasks -/

/-- The timer that runs actions once, later. -/
def delayedSpec (i : Invocation) (ms : UInt64) (actions : List Action) : TimerSpec where
  interval := .fixed (.ofMillis ms)
  body := .actions actions
  family := .wallClock
  repeats := false
  params := i.params

/-- The timer that runs actions again and again. -/
def repeatedSpec (i : Invocation) (interval : IntervalSpec) (actions : List Action)
    (lowLatency : Bool) : TimerSpec where
  interval := .ofSpec interval
  body := .actions actions
  family := if lowLatency then .frame else .wallClock
  repeats := true
  params := i.params

/-- The id of the timer of an action that is put off. -/
def delayId (count : Nat) : String := "delay#" ++ toString count

/-- Assigns a cell a number drawn from a range. -/
def assignDrawn (p : Performer) (target : String) (low high : Float) : Performer :=
  let (drawn, chance) := p.chance.draw low high
  let p := { p with chance := chance }
  match drawn with
  | some x => { p with stage := p.stage.assign target .set (.number x) }
  | none => p

/-- The line of a message and a value. -/
def logLine (p : Performer) (i : Invocation) (message : String) (value : Option Expr) : LogLine :=
  ⟨message, p.owner, value.map fun e => (p.eval i e).display⟩

/-- The assertion that the full-capability tasks run in their context. -/
def assertFull (i : Invocation) : Report :=
  if i.context = .fullCapability then ∅ else { breaches := [.enteredFrom i.context] }

/-- What a task of the full-capability context does and says. The others do not get here, since
`performTask` runs them itself. -/
def carryOut (p : Performer) (i : Invocation) : Task → Performer × Report
  | .log message value => (p, { said := [p.logLine i message value] })
  | .delay ms actions =>
    ({ p with delays := p.delays + 1 }.startTimer (delayId p.delays) (delayedSpec i ms actions)
      i.now, ∅)
  | .dataCreate collection record =>
    ({ p with
      records := (p.records.create collection (ItemScope.resolveRecordIn i.scope record)).1 }, ∅)
  | .dataUpdate collection id patch =>
    ({ p with
      records := p.records.update collection (ItemScope.resolveTextIn i.scope id)
        (ItemScope.resolveRecordIn i.scope patch) }, ∅)
  | .dataDelete collection id =>
    ({ p with records := p.records.delete collection (ItemScope.resolveTextIn i.scope id) }, ∅)
  | .startTimer id interval actions lowLatency =>
    (p.startTimer id (repeatedSpec i interval actions lowLatency) i.now, ∅)
  | .stopTimer id => ((p.stopTimer id).1, ∅)
  | .assignCell .. => (p, { breaches := [.notItsTask "assignCell"] })
  | .branch .. => (p, { breaches := [.notItsTask "branch"] })
  | .animate .. => (p, { breaches := [.notItsTask "animate"] })
  | .playEffect .. => (p, { breaches := [.notItsTask "playEffect"] })
  | .randomAssign .. => (p, { breaches := [.notItsTask "randomAssign"] })

/-- Runs a task of the full-capability context. -/
def performFull (p : Performer) (i : Invocation) (task : Task) : Performer × Report :=
  let (p, report) := p.carryOut i task
  (p, assertFull i ++ report)

/-! ### Actions -/

/-- Whether an action may not run in a context. -/
def isBarred (context : Context) (a : Action) : Bool :=
  decide (a.requiredContext = .fullCapability) && decide (context = .lowLatency)

/-- What happens to an action that may not run: it is refused or waits. -/
def bar (p : Performer) (i : Invocation) (a : Action) : Performer × Report :=
  if a.task.isDataMutation then
    (p, { errors := [.contextViolation a.task.name i.context] })
  else
    ({ p with forwarded := p.forwarded.enqueue ⟨a, i.params, i.scope⟩ }, { forwarded := 1 })

mutual

/-- Runs an action. -/
def perform (i : Invocation) : Action → Performer → Performer × Report
  | .mk task declared, p =>
    if isBarred i.context (.mk task declared) then p.bar i (.mk task declared)
    else performTask i task p

/-- Runs a task: those of the low-latency context here, all others by `performFull`. -/
def performTask (i : Invocation) : Task → Performer → Performer × Report
  | .assignCell target op value, p =>
    ({ p with stage := p.stage.assign target op (p.eval i value) }, { executed := 1 })
  | .branch condition yes no, p =>
    let (p, report) :=
      if (p.eval i condition).isTruthy then performAll i yes p else performAll i no p
    (p, report ++ { executed := 1 })
  | .animate target goal durationMs curve, p =>
    ({ p with stage := p.stage.animate target (p.eval i goal).toNumber durationMs curve },
      { executed := 1 })
  | .playEffect name volume pitch, p =>
    ({ p with effects := (p.effects.request p.owner name volume pitch).1 }, { executed := 1 })
  | .randomAssign target low high, p => (p.assignDrawn target low high, { executed := 1 })
  | task, p =>
    let (p, report) := p.performFull i task
    (p, report ++ { executed := 1 })

/-- Runs actions in order. -/
def performAll (i : Invocation) : List Action → Performer → Performer × Report
  | [], p => (p, ∅)
  | a :: r, p =>
    let (p, first) := perform i a p
    let (p, rest) := performAll i r p
    (p, first ++ rest)

end

/-! ### Actions that waited, and timers -/

/-- Several runs, one after the other. -/
def runEach {α : Type} (run : α → Performer → Performer × Report) :
    List α → Performer → Performer × Report
  | [], p => (p, ∅)
  | a :: r, p =>
    let (p, first) := run a p
    let (p, rest) := runEach run r p
    (p, first ++ rest)

/-- Runs the actions that wait. -/
def runForwarded (p : Performer) (now : Duration) : Performer × Report :=
  let (waiting, rest) := p.forwarded.drain
  runEach (fun f => perform (f.invocation now) f.action) waiting
    { p with forwarded := rest }

/-- Runs the body of a timer, unless what ran before has stopped it. -/
def runFired (context : Context) (now : Duration) (f : FiredTimer) (p : Performer) :
    Performer × Report :=
  if p.scheduler.isLive f then
    match f.body with
    | .actions actions => performAll ⟨context, f.params, none, now⟩ actions p
    | .callback name => (p, { called := [name] })
  else (p, ∅)

/-- Runs the timers of a family whose time has come. -/
def runDue (p : Performer) (family : TimerFamily) (context : Context) (now : Duration) :
    Performer × Report :=
  let (scheduler, fired) := p.scheduler.due p.owner family now p.stage.cells
  runEach (runFired context now) fired { p with scheduler := scheduler }

/-- Plays the effects that were asked for. -/
def playEffects (p : Performer) : Performer × Report :=
  let (played, effects) := p.effects.deliver
  ({ p with effects := effects }, { played := played })

theorem performAll_eq_runEach (i : Invocation) (actions : List Action) (p : Performer) :
    performAll i actions p = runEach (perform i) actions p := by
  induction actions generalizing p with
  | nil => simp [performAll, runEach]
  | cons a r ih => simp [performAll, runEach, ih]

theorem runEach_append {α : Type} (run : α → Performer → Performer × Report) (xs ys : List α)
    (p : Performer) :
    runEach run (xs ++ ys) p =
      ((runEach run ys (runEach run xs p).1).1,
        (runEach run xs p).2 ++ (runEach run ys (runEach run xs p).1).2) := by
  induction xs generalizing p with
  | nil => simp [runEach]
  | cons a r ih => simp [runEach, ih, Report.append_assoc]

end Performer

end LiveScene
