import LiveScene.Node.Basic

/-!
# LiveScene.Event.Basic

Events: what builds and changes a scene, as data. A scene is described by the log of its
events, which only grows.
-/

namespace LiveScene

/-- A change of a scene. -/
inductive Event where
  /-- Creates a cell of a type. -/
  | createCell (id : String) (type : ValueType) (initial : Value)
  /-- Assigns a cell, at once or by an animation. -/
  | updateCell (id : String) (value : Value) (animated : Bool) (durationMs : Option UInt64)
  /-- Creates a node, or gives one other attributes. -/
  | createNode (spec : NodeSpec)
  /-- Makes a node the child of another, at a position among its children. -/
  | addChild (parent child : String) (position : Option UInt64)
  /-- Takes a node from its parent. -/
  | removeChild (parent child : String)
  /-- Changes the style of a node: some of its fields, or all of it. -/
  | updateStyle (id : String) (style : Json.Record) (merge animated : Bool)
      (durationMs : Option UInt64)
  /-- Changes the text of a node. -/
  | updateText (id text : String)
  /-- Removes a node and all below it. -/
  | deleteNode (id : String) (animated : Bool) (durationMs : Option UInt64)
  /-- Names the root. -/
  | setRoot (id : String)
  /-- Several events in order. -/
  | batch (events : List Event)

namespace Event

/-- The name of an event. -/
def name : Event → String
  | createCell .. => "createCell"
  | updateCell .. => "updateCell"
  | createNode .. => "createNode"
  | addChild .. => "addChild"
  | removeChild .. => "removeChild"
  | updateStyle .. => "updateStyle"
  | updateText .. => "updateText"
  | deleteNode .. => "deleteNode"
  | setRoot .. => "setRoot"
  | batch .. => "batch"

end Event

end LiveScene
