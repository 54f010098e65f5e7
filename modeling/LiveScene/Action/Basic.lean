import LiveScene.Animation.Curve
import LiveScene.Expr.Basic
import LiveScene.Json.Basic

/-!
# LiveScene.Action.Basic

Actions: what handlers and timers do, as data.

Each action needs one of two contexts. Work in the *low-latency* context goes with frames and
drags and touches only cells, animations and effects. Records, logging and timers need the
*full-capability* context. An action may ask for the full context although its task does not
need it; it cannot ask for less than its task needs.
-/

namespace LiveScene

/-- Where actions run. -/
inductive Context where
  | lowLatency
  | fullCapability
deriving Repr, DecidableEq

/-- How a cell is assigned: anew, or by arithmetic on its value. -/
inductive AssignOp where
  | set
  | add
  | sub
  | mul
  | div
deriving Repr, DecidableEq

/-- The interval of a timer: milliseconds, or an expression that yields them. -/
inductive IntervalSpec where
  | millis (ms : Float)
  | expr (e : Expr)

mutual

/-- A task, and the context that is asked for. -/
inductive Action where
  | mk (task : Task) (context : Option Context)

/-- What an action does. -/
inductive Task where
  /-- Assigns a cell. -/
  | assignCell (target : String) (op : AssignOp) (value : Expr)
  /-- Says a message, and a value if one is given. -/
  | log (message : String) (value : Option Expr)
  /-- Runs one of two lists. -/
  | branch (condition : Expr) (yes no : List Action)
  /-- Runs a list once, later. -/
  | delay (ms : UInt64) (actions : List Action)
  /-- Takes a cell to a target. -/
  | animate (target : String) (goal : Expr) (durationMs : Option UInt64) (curve : Option Curve)
  /-- Creates a record. -/
  | dataCreate (collection : String) (record : Json.Record)
  /-- Patches the first record of an id. -/
  | dataUpdate (collection id : String) (patch : Json.Record)
  /-- Removes the records of an id. -/
  | dataDelete (collection id : String)
  /-- Asks for an effect. -/
  | playEffect (name : String) (volume pitch : Float)
  /-- Runs a list again and again, with frames or by the clock. -/
  | startTimer (id : String) (interval : IntervalSpec) (actions : List Action)
      (lowLatency : Bool)
  /-- Stops a timer. -/
  | stopTimer (id : String)
  /-- Assigns a number drawn from a range. -/
  | randomAssign (target : String) (low high : Float)

end

namespace Context

/-- The contexts by their names in documents. -/
def choices : List (String × Context) :=
  [("lowLatency", lowLatency), ("fullCapability", fullCapability)]

/-- The name of a context in documents. -/
def name : Context → String
  | lowLatency => "lowLatency"
  | fullCapability => "fullCapability"

/-- The name of a context in messages. -/
def display : Context → String
  | lowLatency => "low-latency"
  | fullCapability => "full-capability"

end Context

namespace AssignOp

/-- The ways to assign by their names. -/
def choices : List (String × AssignOp) :=
  [("set", set), ("add", add), ("sub", sub), ("mul", mul), ("div", div)]

/-- The name of a way to assign. -/
def name : AssignOp → String
  | set => "set"
  | add => "add"
  | sub => "sub"
  | mul => "mul"
  | div => "div"

end AssignOp

namespace Task

/-- The name of a task. -/
def name : Task → String
  | assignCell .. => "assignCell"
  | log .. => "log"
  | branch .. => "branch"
  | delay .. => "delay"
  | animate .. => "animate"
  | dataCreate .. => "dataCreate"
  | dataUpdate .. => "dataUpdate"
  | dataDelete .. => "dataDelete"
  | playEffect .. => "playEffect"
  | startTimer .. => "startTimer"
  | stopTimer .. => "stopTimer"
  | randomAssign .. => "randomAssign"

/-- The context that a task needs. -/
def context : Task → Context
  | assignCell .. | branch .. | animate .. | playEffect .. | randomAssign .. => .lowLatency
  | log .. | delay .. | dataCreate .. | dataUpdate .. | dataDelete .. | startTimer ..
  | stopTimer .. => .fullCapability

/-- Whether a task changes records. -/
def isDataMutation : Task → Bool
  | dataCreate .. | dataUpdate .. | dataDelete .. => true
  | _ => false

end Task

namespace Action

/-- What the action does. -/
def task : Action → Task
  | mk task _ => task

/-- The context that is asked for. -/
def declared : Action → Option Context
  | mk _ context => context

/-- The context that the action runs in: that of its task if this is the full one, else the one
that is asked for. -/
def requiredContext (a : Action) : Context :=
  match a.task.context with
  | .fullCapability => .fullCapability
  | .lowLatency => a.declared.getD .lowLatency

/-- The action with another context asked for. -/
def on (a : Action) (context : Context) : Action := mk a.task (some context)

end Action

end LiveScene
