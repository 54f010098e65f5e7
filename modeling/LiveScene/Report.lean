import LiveScene.Action.Basic
import LiveScene.Effects

/-!
# LiveScene.Report

What a run of actions did: counts, refusals, and what it sent out of the instance.

A refusal is an answer. A breach is not: it is an assertion of the interpreter that does not hold,
and is noted here instead of ending the run.
-/

namespace LiveScene

/-- Why a request was refused. -/
inductive Fault where
  /-- There is no such node. -/
  | unknownNode (id : String)
  /-- An action that may not run in a context. -/
  | contextViolation (action : String) (context : Context)
deriving Repr, DecidableEq

/-- The message of a refusal. -/
def Fault.message : Fault → String
  | unknownNode id => "unknown node `" ++ id ++ "`"
  | contextViolation action context =>
    "action `" ++ action ++ "` cannot run in the " ++ context.display ++ " context"

/-- An assertion of the interpreter of the full-capability tasks that does not hold. -/
inductive Breach where
  /-- It was entered from another context. -/
  | enteredFrom (context : Context)
  /-- It was given a task that is not one of its own. -/
  | notItsTask (name : String)
deriving Repr, DecidableEq

/-- A line that was said. -/
structure LogLine where
  message : String
  /-- The instance that said it. -/
  owner : String
  /-- The text of the value that goes with it. -/
  value : Option String
deriving DecidableEq

/-- What a run did. -/
structure Report where
  /-- The number of actions that ran. -/
  executed : Nat := 0
  /-- The number of actions that were handed over to the other context. -/
  forwarded : Nat := 0
  /-- The actions that were refused. -/
  errors : List Fault := []
  /-- The assertions that did not hold. -/
  breaches : List Breach := []
  /-- The lines that were said. -/
  said : List LogLine := []
  /-- The effects that were played. -/
  played : List PlayedEffect := []
  /-- The names under which the host was called. -/
  called : List String := []
deriving DecidableEq

namespace Report

/-- One run after another. -/
def append (r s : Report) : Report where
  executed := r.executed + s.executed
  forwarded := r.forwarded + s.forwarded
  errors := r.errors ++ s.errors
  breaches := r.breaches ++ s.breaches
  said := r.said ++ s.said
  played := r.played ++ s.played
  called := r.called ++ s.called

instance : Append Report := ⟨append⟩
instance : EmptyCollection Report := ⟨{}⟩
instance : Inhabited Report := ⟨∅⟩

/-- Whether nothing was refused. -/
def isClean (r : Report) : Bool := r.errors.isEmpty

@[simp] theorem executed_append (r s : Report) :
    (r ++ s).executed = r.executed + s.executed := rfl

@[simp] theorem forwarded_append (r s : Report) :
    (r ++ s).forwarded = r.forwarded + s.forwarded := rfl

@[simp] theorem errors_append (r s : Report) : (r ++ s).errors = r.errors ++ s.errors := rfl

@[simp] theorem breaches_append (r s : Report) :
    (r ++ s).breaches = r.breaches ++ s.breaches := rfl

@[simp] theorem played_append (r s : Report) : (r ++ s).played = r.played ++ s.played := rfl

@[simp] theorem empty_append (r : Report) : ∅ ++ r = r := by
  cases r
  simp only [HAppend.hAppend, Append.append, append, EmptyCollection.emptyCollection,
    Nat.zero_add]
  rfl

@[simp] theorem append_empty (r : Report) : r ++ ∅ = r := by
  cases r
  simp only [HAppend.hAppend, Append.append, append, EmptyCollection.emptyCollection]
  simp

theorem append_assoc (r s t : Report) : r ++ s ++ t = r ++ (s ++ t) := by
  cases r; cases s; cases t
  simp only [HAppend.hAppend, Append.append, append]
  simp [Nat.add_assoc]

end Report

end LiveScene
