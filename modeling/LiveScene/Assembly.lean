import LiveScene.Event.Basic
import LiveScene.Node.Graph
import LiveScene.Stage

/-!
# LiveScene.Assembly

A scene as it is built from its events.

* Events on nodes change the graph, events on cells change the stage; neither kind looks at the
  other's part. Events that name what does not exist change nothing.
* A log is followed by the number of its events that were applied: `sync` applies the rest.
-/

namespace LiveScene

/-- A graph and a stage, and how far the log was followed. -/
structure Assembly where
  graph : Graph
  stage : Stage
  /-- The number of events of the log that were applied. -/
  applied : Nat

namespace Assembly

/-- Nothing built yet. -/
def new (stage : Stage) : Assembly := ⟨{}, stage, 0⟩

/-- Changes a node's attributes. -/
def modifyAttributes (a : Assembly) (id : String) (f : Attributes → Attributes) : Assembly :=
  { a with graph := a.graph.modify id fun node => { node with attributes := f node.attributes } }

/-- Whether a cell holds a number. -/
def holdsNumber (a : Assembly) (id : String) : Bool :=
  match a.stage.cells.read? id with
  | some (.number _) => true
  | _ => false

/-- Assigns a cell a value. One that is a number is animated on request. -/
def updateCell (a : Assembly) (id : String) (value : Value) (animated : Bool)
    (durationMs : Option UInt64) : Assembly :=
  let assigned : Assembly := { a with stage := a.stage.assign id .set value }
  match value with
  | .number target =>
    if animated && a.holdsNumber id then
      { a with stage := a.stage.animate id target durationMs none }
    else assigned
  | _ => assigned

end Assembly

namespace Event

mutual

/-- What an event makes of an assembly. -/
def apply : Event → Assembly → Assembly
  | createCell id type initial, a =>
    { a with stage.cells := (a.stage.cells.create id (initial.coerce type)).1 }
  | updateCell id value animated durationMs, a => a.updateCell id value animated durationMs
  | createNode spec, a => { a with graph := a.graph.insert spec }
  | addChild parent child position, a =>
    { a with graph := a.graph.addChild parent child (position.map UInt64.toNat) }
  | removeChild parent child, a => { a with graph := a.graph.removeChild parent child }
  | updateStyle id style merge _ _, a =>
    a.modifyAttributes id fun attributes =>
      { attributes with style := if merge then attributes.style.merge style else style }
  | updateText id text, a =>
    a.modifyAttributes id fun attributes => { attributes with text := some text }
  | deleteNode id _ _, a => { a with graph := a.graph.delete id }
  | setRoot id, a => { a with graph := { a.graph with root := some id } }
  | batch events, a => applyAll events a

/-- Applies events in order. -/
def applyAll : List Event → Assembly → Assembly
  | [], a => a
  | e :: r, a => applyAll r (apply e a)

end

theorem applyAll_eq_foldl (events : List Event) (a : Assembly) :
    applyAll events a = events.foldl (fun a e => e.apply a) a := by
  induction events generalizing a with
  | nil => simp [applyAll]
  | cons e r ih => simp [applyAll, ih]

theorem applyAll_append (xs ys : List Event) (a : Assembly) :
    applyAll (xs ++ ys) a = applyAll ys (applyAll xs a) := by
  simp [applyAll_eq_foldl]

end Event

namespace Assembly

/-- Applies an event. -/
def apply (a : Assembly) (event : Event) : Assembly := event.apply a

/-- Applies the events of a log that were not applied yet, and answers their number. A log that
is shorter than what was applied is not followed. -/
def sync (a : Assembly) (log : List Event) : Assembly × Nat :=
  if a.applied ≤ log.length then
    ({ Event.applyAll (log.drop a.applied) a with applied := log.length },
      log.length - a.applied)
  else (a, 0)

end Assembly

end LiveScene
