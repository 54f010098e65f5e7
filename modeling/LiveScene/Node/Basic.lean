import LiveScene.Action.Basic

/-!
# LiveScene.Node.Basic

Nodes of a scene.

* The attributes of a node are what it shows and does. Its place is its parent and children.
* A child is a *reference* to a node of the graph, or an *inline* node that belongs to its
  parent, as in the template that a collection repeats for each of its records.
* A node is created from a specification, whose children all become inline nodes.
-/

namespace LiveScene

/-- What a node is. -/
inductive NodeKind where
  | container
  | themedContainer
  | text
  | actionable
  /-- Repeats its inline children for each record of a collection. -/
  | collection
deriving Repr, DecidableEq

/-- The interactions that a node may answer. -/
inductive HandlerKind where
  | press
  | dragStart
  | dragChange
  | dragEnd
  | stateChange
deriving Repr, DecidableEq

/-- The actions that answer each interaction. -/
structure Handlers where
  press : List Action := []
  dragStart : List Action := []
  dragChange : List Action := []
  dragEnd : List Action := []
  stateChange : List Action := []

/-- What a node shows and does. -/
structure Attributes where
  id : String
  kind : NodeKind
  style : Json.Record := ∅
  text : Option String := none
  handlers : Handlers := {}
  /-- The collection whose records the node repeats its children for. -/
  collection : Option String := none
  /-- The name that placeholders give a record. -/
  itemName : Option String := none

/-- What a node is created from. -/
structure NodeSpec where
  attributes : Attributes
  /-- The inline children. -/
  children : List NodeSpec

mutual

/-- A node. -/
structure Node where
  attributes : Attributes
  /-- The node that lists this one among its children. -/
  parent : Option String
  children : List Child

/-- A place among the children of a node. -/
inductive Child where
  /-- A node of the graph, by its id. -/
  | ref (id : String)
  /-- A node that belongs to its parent. -/
  | inline (node : Node)

end

namespace NodeKind

/-- The kinds by their names. -/
def choices : List (String × NodeKind) :=
  [("container", container), ("themedContainer", themedContainer), ("text", text),
   ("actionable", actionable), ("collection", collection)]

/-- The name of a kind. -/
def name : NodeKind → String
  | container => "container"
  | themedContainer => "themedContainer"
  | text => "text"
  | actionable => "actionable"
  | collection => "collection"

end NodeKind

namespace HandlerKind

/-- The interactions by their names. -/
def choices : List (String × HandlerKind) :=
  [("press", press), ("dragStart", dragStart), ("dragChange", dragChange),
   ("dragEnd", dragEnd), ("stateChange", stateChange)]

/-- Where the answer to an interaction runs. Presses and changes of state come one by one; drags
come with the frames. -/
def context : HandlerKind → Context
  | press | stateChange => .fullCapability
  | dragStart | dragChange | dragEnd => .lowLatency

end HandlerKind

namespace Handlers

/-- The actions that answer an interaction. -/
def get (h : Handlers) : HandlerKind → List Action
  | .press => h.press
  | .dragStart => h.dragStart
  | .dragChange => h.dragChange
  | .dragEnd => h.dragEnd
  | .stateChange => h.stateChange

/-- Whether no interaction is answered. -/
def isEmpty (h : Handlers) : Bool :=
  h.press.isEmpty && h.dragStart.isEmpty && h.dragChange.isEmpty && h.dragEnd.isEmpty
    && h.stateChange.isEmpty

end Handlers

namespace Child

/-- The id of a reference. -/
def ref? : Child → Option String
  | ref id => some id
  | inline _ => none

/-- Whether the child is a reference. -/
def isRef (c : Child) : Bool := c.ref?.isSome

end Child

namespace Node

/-- The id of a node. -/
def id (n : Node) : String := n.attributes.id

/-- The ids that the node refers to, in order. -/
def childRefs (n : Node) : List String := n.children.filterMap Child.ref?

/-- Whether the node refers to an id. -/
def hasChildRef (n : Node) (id : String) : Bool := n.childRefs.contains id

/-- The node without the references to an id. -/
def withoutRef (n : Node) (id : String) : Node :=
  { n with children := n.children.filter fun c => c.ref? ≠ some id }

mutual

/-- The first inline node of an id below a node, each before those below it. -/
def findInline? (id : String) : Node → Option Node
  | ⟨_, _, children⟩ => findInlineIn? id children

/-- The first inline node of an id among children and below them. -/
def findInlineIn? (id : String) : List Child → Option Node
  | [] => none
  | .ref _ :: r => findInlineIn? id r
  | .inline node :: r =>
    if node.id = id then some node
    else
      match findInline? id node with
      | some found => some found
      | none => findInlineIn? id r

end

end Node

namespace NodeSpec

mutual

/-- The node of a specification below a parent. Inline nodes have the node around them as
parent. -/
def toNode (parent : Option String) : NodeSpec → Node
  | ⟨attributes, children⟩ => ⟨attributes, parent, toChildren attributes.id children⟩

/-- The specifications as inline children of a node. -/
def toChildren (parent : String) : List NodeSpec → List Child
  | [] => []
  | spec :: r => .inline (toNode (some parent) spec) :: toChildren parent r

end

end NodeSpec

end LiveScene
