import LiveScene.Action.Basic
import LiveScene.Duration
import LiveScene.Expr.Eval

/-!
# LiveScene.Timer.Interval

Where the time between two firings comes from, and how frames round it.
-/

namespace LiveScene

/-- The source of a timer's interval. -/
inductive Interval where
  /-- Always the same. -/
  | fixed (length : Duration)
  /-- An expression that yields milliseconds. -/
  | expr (e : Expr)
  /-- Given readings, one after the other. The last is repeated; without any, no time. -/
  | readings (lengths : List Duration)

namespace Interval

/-- The interval of an action's document. -/
def ofSpec : IntervalSpec → Interval
  | .millis ms => fixed (.ofMilliseconds ms)
  | .expr e => expr e

/-- The length now, and the source of those that follow. -/
def resolve (cells : CellStore) : Interval → Duration × Interval
  | fixed length => (length, fixed length)
  | expr e => (.ofMilliseconds (e.evalNumber cells ∅), expr e)
  | readings [] => (.zero, readings [])
  | readings [length] => (length, readings [length])
  | readings (length :: rest) => (length, readings rest)

end Interval

namespace Duration

/-- The greatest number of frames that a length is rounded to. -/
def greatestFrames : Nat := UInt32.size - 1

/-- The number of frames that a length is rounded up to, at least one. -/
def frameCount (length frame : Duration) : Nat :=
  min (max ((length.nanos + frame.nanos - 1) / frame.nanos) 1) greatestFrames

/-- The length rounded up to whole frames, if that is a duration. -/
def quantize? (length frame : Duration) : Option Duration :=
  let nanos := frame.nanos * frameCount length frame
  if h : nanos ≤ longestNanos then some ⟨nanos, h⟩ else none

end Duration

end LiveScene
