import LiveScene.Color
import LiveScene.Expr.Basic

/-!
# LiveScene.Expr.Piecewise

Piecewise linear maps. A number is first located among the breakpoints: at the output of one
of them, or at a part of the way between two that follow each other. Numbers and colours are
then picked or mixed alike.
-/

namespace LiveScene

/-- Where a number lies among breakpoints. -/
inductive Segment where
  /-- There are no breakpoints. -/
  | empty
  /-- At a breakpoint. -/
  | endpoint (i : Nat)
  /-- At a part `t` of the way from a breakpoint to the next. -/
  | between (i : Nat) (t : Float)

namespace Segment

/-- The first pair of neighbouring breakpoints that encloses a number, from position `i` on. -/
def scan? (x : Float) (i : Nat) : List Float → Option Segment
  | low :: high :: r =>
    if low ≤ x ∧ x ≤ high then
      if high == low then some (endpoint (i + 1))
      else some (between i ((x - low) / (high - low)))
    else scan? x (i + 1) (high :: r)
  | _ => none

/-- Where a number lies: at the first breakpoint if not above it, at the last if not below it,
else in the first pair that encloses it. -/
def locate (x : Float) : List Float → Segment
  | [] => empty
  | first :: rest =>
    let last := rest.length
    if last = 0 ∨ x ≤ first then endpoint 0
    else if (rest.getLast?.getD first) ≤ x then endpoint last
    else (scan? x 0 (first :: rest)).getD (endpoint last)

end Segment

/-- The value of the piecewise map to numbers. Breakpoints and outputs beyond the shorter list
do not count. -/
def interpolate (x : Float) (breakpoints outputs : List Float) : Float :=
  let count := min breakpoints.length outputs.length
  let output (i : Nat) : Float := outputs[i]?.getD 0
  match Segment.locate x (breakpoints.take count) with
  | .empty => 0
  | .endpoint i => output i
  | .between i t => Operator.mix (output i) (output (i + 1)) t

/-- The value of the piecewise map to colours. Texts that are no colour count as transparent. -/
def interpolateColor (x : Float) (breakpoints : List Float) (outputs : List String) : Color :=
  let count := min breakpoints.length outputs.length
  let output (i : Nat) : Color := (outputs[i]?.bind Color.ofText?).getD .transparent
  match Segment.locate x (breakpoints.take count) with
  | .empty => .transparent
  | .endpoint i => output i
  | .between i t => (output i).mix (output (i + 1)) t

end LiveScene
