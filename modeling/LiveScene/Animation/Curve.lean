import LiveScene.Binary64
import LiveScene.Json.Shape

/-!
# LiveScene.Animation.Curve

Easing curves: how far a value has come when a given part of the time has passed.
-/

namespace LiveScene

/-- A curve by its name. -/
inductive Curve where
  | linear
  | easeIn
  | easeOut
  | easeInOut
  | spring
deriving Repr, DecidableEq

namespace Curve

instance : Inhabited Curve := ⟨linear⟩

/-- The curves by their names. -/
def choices : List (String × Curve) :=
  [("linear", linear), ("easeIn", easeIn), ("easeOut", easeOut), ("easeInOut", easeInOut),
   ("spring", spring)]

/-- The name of a curve. -/
def name : Curve → String
  | linear => "linear"
  | easeIn => "easeIn"
  | easeOut => "easeOut"
  | easeInOut => "easeInOut"
  | spring => "spring"

/-- Half a turn in radians. -/
def pi : Float := 3.141592653589793

/-- The height of a curve at a part of the time, which is first moved into the range from 0 to
1. All curves start at 0 and end at 1; the spring swings three half turns on its way, ever
less. -/
def apply (curve : Curve) (part : Float) : Float :=
  let t := Binary64.clamp 0 1 part
  match curve with
  | linear => t
  | easeIn => t * t
  | easeOut => t * (2 - t)
  | easeInOut => if t < 0.5 then 2 * t * t else -1 + (4 - 2 * t) * t
  | spring => 1 - (1 - t) * Binary64.exp (-6 * t) * Binary64.cos (3 * pi * t)

end Curve

end LiveScene
