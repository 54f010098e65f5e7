import LiveScene.Action.Basic
import LiveScene.Animation.Animator
import LiveScene.Settings

/-!
# LiveScene.Stage

What events and actions act upon alike: the cells of an instance and their animations.
-/

namespace LiveScene

/-- Cells, and what animates them. -/
structure Stage where
  cells : CellStore
  renderer : Renderer
  /-- What animations take where a request leaves it open. -/
  animation : AnimationSettings

namespace AssignOp

/-- Whether an assignment does nothing: a division by zero. -/
def isIdle (op : AssignOp) (operand : Value) : Bool :=
  match op with
  | div => operand.toNumber == 0
  | _ => false

/-- The new value of a cell, which keeps its type. -/
def apply (op : AssignOp) (operand current : Value) : Value :=
  let number (x : Float) : Value := (Value.number x).coerce current.type
  match op with
  | set => operand.coerce current.type
  | add => number (current.toNumber + operand.toNumber)
  | sub => number (current.toNumber - operand.toNumber)
  | mul => number (current.toNumber * operand.toNumber)
  | div => number (current.toNumber / operand.toNumber)

@[simp] theorem type_apply (op : AssignOp) (operand current : Value) :
    (op.apply operand current).type = current.type := by
  cases op <;> simp [apply]

end AssignOp

namespace Stage

/-- Assigns a cell. -/
def assign (s : Stage) (cell : String) (op : AssignOp) (operand : Value) : Stage :=
  if op.isIdle operand then s
  else { s with cells := (s.cells.update cell (op.apply operand)).1 }

/-- Asks for an animation. -/
def animate (s : Stage) (cell : String) (target : Float) (durationMs : Option UInt64)
    (curve : Option Curve) : Stage :=
  { s with
    renderer := s.renderer.animate
      { cell := cell, target := target
        length := .ofMillis (durationMs.getD s.animation.defaultDurationMs)
        curve := curve.getD s.animation.defaultCurve } }

/-- One frame of the animations. -/
def frame (s : Stage) (now : Duration) : Stage :=
  let (renderer, cells) := s.renderer.frame now s.cells
  { s with renderer := renderer, cells := cells }

end Stage

end LiveScene
