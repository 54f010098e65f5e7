import LiveScene.Assembly
import LiveScene.Performer

/-!
# LiveScene.Scene

A scene that runs: a graph of nodes whose handlers and timers act on cells, records and effects.

* It is built from its events (`apply`, `sync`).
* The *low-latency* side are the frames and the drags: `frame` steps animations and runs frame
  timers. The *full-capability* side are `poll` and the presses: a poll plays the effects that
  wait, runs the actions that were handed over, and runs the timers by the clock.
* Time is given by the caller, from the start of the scene.
* `teardown` stops the timers and drops the effects that wait. Frames and polls do nothing after
  it.
-/

namespace LiveScene

/-- A scene that runs. -/
structure Scene where
  settings : Settings
  graph : Graph
  /-- The number of events of the log that were applied. -/
  applied : Nat
  performer : Performer
  tornDown : Bool

namespace Scene

/-- A scene without nodes, cells and records. -/
def new (owner : String) (settings : Settings) (renderer : Renderer) (chance : Chance) :
    Scene where
  settings := settings
  graph := {}
  applied := 0
  performer :=
    { stage := ⟨.new owner, renderer, settings.animation⟩
      scheduler := .new settings.frame.interval
      records := .empty
      effects := {}
      forwarded := {}
      delays := 0
      chance := chance }
  tornDown := false

/-- The name of the scene. -/
def owner (s : Scene) : String := s.performer.owner

/-- The cells. -/
def cells (s : Scene) : CellStore := s.performer.stage.cells

/-- Changes cells from outside. -/
def setCells (s : Scene) (cells : CellStore) : Scene :=
  { s with performer.stage.cells := cells }

/-- The number of effects that wait. -/
def pendingEffects (s : Scene) : Nat := s.performer.effects.pending

/-- The number of timers of the scene. -/
def activeTimers (s : Scene) : Nat := s.performer.scheduler.activeCount s.owner

/-! ### Events -/

/-- The scene as it is built from its events. -/
def assembly (s : Scene) : Assembly := ⟨s.graph, s.performer.stage, s.applied⟩

/-- Puts what was built in place of what the scene has. -/
def setAssembly (s : Scene) (a : Assembly) : Scene :=
  { s with graph := a.graph, performer.stage := a.stage, applied := a.applied }

/-- Applies an event. -/
def apply (s : Scene) (event : Event) : Scene := s.setAssembly (s.assembly.apply event)

/-- Applies the events of a log that were not applied yet, and answers their number. -/
def sync (s : Scene) (log : List Event) : Scene × Nat :=
  let (assembly, count) := s.assembly.sync log
  (s.setAssembly assembly, count)

/-! ### Handlers -/

/-- Carries out a run of actions. -/
def perform (s : Scene) (run : Performer → Performer × Report) : Scene × Report :=
  let (performer, report) := run s.performer
  ({ s with performer := performer }, report)

/-- Runs actions. -/
def execute (s : Scene) (actions : List Action) (i : Invocation) : Scene × Report :=
  s.perform (Performer.performAll i actions)

/-- Runs the actions that answer an interaction with a node. -/
def handleIn (s : Scene) (id : String) (kind : HandlerKind) (i : Invocation) :
    Scene × Except Fault Report :=
  match s.graph.find? id with
  | none => (s, .error (.unknownNode id))
  | some node =>
    let (s, report) := s.execute (node.attributes.handlers.get kind) i
    (s, .ok report)

/-- Answers an interaction in the context that it goes with. -/
def handle (s : Scene) (id : String) (kind : HandlerKind) (params : Params) (now : Duration) :
    Scene × Except Fault Report :=
  s.handleIn id kind ⟨kind.context, params, none, now⟩

/-- The name that placeholders give an item where a collection gives none. -/
def defaultItemName : String := "item"

/-- The name that placeholders give the items of the collection around a node. -/
def itemName (s : Scene) (id : String) : String :=
  ((s.graph.templateOwner? id).bind fun owner => owner.attributes.itemName).getD defaultItemName

/-- Answers an interaction with a node that is repeated for an item. -/
def handleItem (s : Scene) (id : String) (kind : HandlerKind) (params : Params) (item : Json)
    (now : Duration) : Scene × Except Fault Report :=
  s.handleIn id kind ⟨kind.context, params, some ⟨s.itemName id, item⟩, now⟩

/-- The records that a node is repeated for. -/
def items (s : Scene) (id : String) : List Json.Record :=
  match (s.graph.find? id).bind fun node => node.attributes.collection with
  | some collection => s.performer.records.all collection
  | none => []

/-! ### Timers -/

/-- Starts a timer, unless the scene was torn down. -/
def startTimer (s : Scene) (id : String) (spec : TimerSpec) (now : Duration) : Scene :=
  if s.tornDown then s else { s with performer := s.performer.startTimer id spec now }

/-- Stops a timer, and tells whether there was one. -/
def stopTimer (s : Scene) (id : String) : Scene × Bool :=
  let (performer, found) := s.performer.stopTimer id
  ({ s with performer := performer }, found)

/-! ### The passing of time -/

/-- The low-latency side: a step of the animations, then the frame timers. -/
def frame (s : Scene) (now : Duration) : Scene × Report :=
  if s.tornDown then (s, ∅)
  else
    s.perform fun p =>
      { p with stage := p.stage.frame now }.runDue .frame .lowLatency now

/-- Runs the actions that were handed over. -/
def runForwarded (s : Scene) (now : Duration) : Scene × Report :=
  s.perform fun p => p.runForwarded now

/-- The full-capability side: the effects, then what was handed over, then the timers by the
clock. -/
def poll (s : Scene) (now : Duration) : Scene × Report :=
  if s.tornDown then (s, ∅)
  else
    s.perform fun p =>
      let (p, effects) := p.playEffects
      let (p, handedOver) := p.runForwarded now
      let (p, timers) := p.runDue .wallClock .fullCapability now
      (p, effects ++ handedOver ++ timers)

/-- Ends the scene. A second time changes nothing. -/
def teardown (s : Scene) : Scene :=
  if s.tornDown then s
  else
    { s with
      tornDown := true
      performer :=
        { s.performer with
          scheduler := (s.performer.scheduler.stopAll s.owner).1
          effects := s.performer.effects.drain.2 } }

/-- Takes the effects that wait without playing them. -/
def drainEffects (s : Scene) : Scene × List EffectRequest :=
  let (requests, effects) := s.performer.effects.drain
  ({ s with performer.effects := effects }, requests)

theorem frame_eq_of_tornDown {s : Scene} (h : s.tornDown = true) (now : Duration) :
    s.frame now = (s, ∅) := by
  simp [frame, h]

theorem poll_eq_of_tornDown {s : Scene} (h : s.tornDown = true) (now : Duration) :
    s.poll now = (s, ∅) := by
  simp [poll, h]

@[simp] theorem tornDown_teardown (s : Scene) : s.teardown.tornDown = true := by
  unfold teardown
  split <;> simp_all

end Scene

end LiveScene
