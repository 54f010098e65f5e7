import LiveScene.Animation.Curve
import LiveScene.Duration
import LiveScene.Json.Reader

/-!
# LiveScene.Settings

The settings of a running instance, and their documents. Every field has a default, and a
document needs to name only those that differ.
-/

namespace LiveScene

/-- The clock of frames. -/
structure FrameSettings where
  /-- Milliseconds between frames. -/
  intervalMs : UInt64 := 16
deriving DecidableEq

/-- The delivery of what low-latency work hands over. -/
structure BridgeSettings where
  /-- Milliseconds between deliveries. -/
  pollIntervalMs : UInt64 := 4
deriving DecidableEq

/-- What animations take where a request leaves it open. -/
structure AnimationSettings where
  /-- The length in milliseconds. -/
  defaultDurationMs : UInt64 := 300
  defaultCurve : Curve := .easeInOut
deriving DecidableEq

/-- The settings of a running instance. -/
structure Settings where
  frame : FrameSettings := {}
  bridge : BridgeSettings := {}
  animation : AnimationSettings := {}
deriving DecidableEq

/-- The time between frames, at least a millisecond. -/
def FrameSettings.interval (s : FrameSettings) : Duration := .ofMillis (max s.intervalMs 1)

/-- The time between deliveries, at least a millisecond. -/
def BridgeSettings.interval (s : BridgeSettings) : Duration := .ofMillis (max s.pollIntervalMs 1)

namespace Settings

open Json

/-- The settings as a document. -/
def toJson (s : Settings) : Json :=
  .obj [("frame", .obj [("intervalMs", .ofNat s.frame.intervalMs.toNat)]),
    ("bridge", .obj [("pollIntervalMs", .ofNat s.bridge.pollIntervalMs.toNat)]),
    ("animation", .obj [("defaultDurationMs", .ofNat s.animation.defaultDurationMs.toNat),
      ("defaultCurve", .str s.animation.defaultCurve.name)])]

/-- The frame settings of a document. -/
def frameOfJson? (j : Json) : Option FrameSettings := do
  let default : FrameSettings := {}
  let ms ← j.layer.fields? ["intervalMs"]
  pure ⟨← optional default.intervalMs word? "intervalMs" ms⟩

/-- The bridge settings of a document. -/
def bridgeOfJson? (j : Json) : Option BridgeSettings := do
  let default : BridgeSettings := {}
  let ms ← j.layer.fields? ["pollIntervalMs"]
  pure ⟨← optional default.pollIntervalMs word? "pollIntervalMs" ms⟩

/-- The animation settings of a document. -/
def animationOfJson? (j : Json) : Option AnimationSettings := do
  let default : AnimationSettings := {}
  let ms ← j.layer.fields? ["defaultDurationMs", "defaultCurve"]
  pure ⟨← optional default.defaultDurationMs word? "defaultDurationMs" ms,
    ← optional default.defaultCurve (choice? Curve.choices) "defaultCurve" ms⟩

/-- The settings of a document. -/
def ofJson? (j : Json) : Option Settings := do
  let ms ← j.layer.fields? ["frame", "bridge", "animation"]
  pure ⟨← optional {} frameOfJson? "frame" ms, ← optional {} bridgeOfJson? "bridge" ms,
    ← optional {} animationOfJson? "animation" ms⟩

/-- The settings that a text writes. -/
def ofText? (s : String) : Option Settings := decodeSkimmed? ofJson? s

end Settings

end LiveScene
