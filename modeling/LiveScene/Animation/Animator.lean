import LiveScene.Animation.Curve
import LiveScene.CellStore
import LiveScene.Duration

/-!
# LiveScene.Animation.Animator

Animations of number cells.

* A *tween* takes a cell to a target in a length of time along a curve. It starts at the first
  frame after it was asked for, from the value that the cell has then.
* A frame writes each tweened cell once. A tween whose time is over writes its target and ends;
  one whose cell is gone or holds no number ends without writing.
* A cell has at most one tween, the newest.
-/

namespace LiveScene

/-- A request to take a cell to a target. -/
structure AnimationRequest where
  cell : String
  target : Float
  length : Duration
  curve : Curve
deriving DecidableEq

/-- An animation that is under way. -/
structure Tween where
  target : Float
  length : Duration
  curve : Curve
  /-- The time of its first frame and the value at that time. -/
  start : Option (Duration × Float) := none
deriving DecidableEq

namespace Tween

/-- The part of the time that has passed. -/
def progress (length elapsed : Duration) : Float :=
  if length.nanos = 0 then 1 else elapsed.toSeconds / length.toSeconds

/-- One frame: what is written to a cell that reads as `current`, and the tween that goes on, if
its time is not over. -/
def frame (t : Tween) (now : Duration) (current : Float) : Float × Option Tween :=
  let start := t.start.getD (now, current)
  let part := progress t.length (now - start.1)
  if 1 ≤ part then (t.target, none)
  else
    (start.2 + (t.target - start.2) * t.curve.apply part, some { t with start := some start })

end Tween

/-- The tweens of the cells. -/
structure Animator where
  tweens : Dict Tween := ∅
deriving DecidableEq

namespace Animator

instance : Inhabited Animator := ⟨{}⟩

/-- The number of tweens. -/
def active (a : Animator) : Nat := a.tweens.size

/-- Whether a cell has a tween. -/
def isAnimating (a : Animator) (cell : String) : Bool := a.tweens.contains cell

/-- Gives a cell a new tween. -/
def animate (a : Animator) (r : AnimationRequest) : Animator :=
  ⟨a.tweens.insert r.cell { target := r.target, length := r.length, curve := r.curve }⟩

/-- One frame of the tween of a cell, and the tween that goes on. -/
def frameCell (now : Duration) (cells : CellStore) (cell : String) (tween : Tween) :
    CellStore × Option Tween :=
  match cells.read? cell with
  | some (.number _) =>
    let (written, rest) := tween.frame now (cells.readNumber cell)
    ((cells.write cell (.number written)).1, rest)
  | _ => (cells, none)

/-- One frame of the tweens of a list, and those that go on. -/
def frameEntries (now : Duration) (cells : CellStore) :
    List (String × Tween) → CellStore × List (String × Tween)
  | [] => (cells, [])
  | (cell, tween) :: r =>
    let (cells, rest) := frameCell now cells cell tween
    let (cells, others) := frameEntries now cells r
    match rest with
    | some tween => (cells, (cell, tween) :: others)
    | none => (cells, others)

/-- One frame of all tweens. -/
def frame (a : Animator) (now : Duration) (cells : CellStore) : Animator × CellStore :=
  let (cells, entries) := frameEntries now cells a.tweens.entries
  (⟨Dict.ofList entries⟩, cells)

end Animator

/-- What answers requests for animations. -/
inductive Renderer where
  /-- Tweens that frames carry out. -/
  | animator (a : Animator)
  /-- A list of the requests, for someone else to carry out. -/
  | recorder (requests : List AnimationRequest)
  /-- Requests are dropped. -/
  | idle

namespace Renderer

/-- Takes a request. -/
def animate (renderer : Renderer) (r : AnimationRequest) : Renderer :=
  match renderer with
  | animator a => animator (a.animate r)
  | recorder requests => recorder (requests ++ [r])
  | idle => idle

/-- One frame. -/
def frame (renderer : Renderer) (now : Duration) (cells : CellStore) : Renderer × CellStore :=
  match renderer with
  | animator a =>
    let (a, cells) := a.frame now cells
    (animator a, cells)
  | renderer => (renderer, cells)

/-- The requests that were recorded. -/
def requests : Renderer → List AnimationRequest
  | recorder requests => requests
  | _ => []

end Renderer

end LiveScene
