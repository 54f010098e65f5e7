import LiveScene.Action.Document
import LiveScene.Node.Basic

/-!
# LiveScene.Node.Document

Nodes and their specifications as documents. A specification writes every field; a node leaves
out what is empty.
-/

namespace LiveScene

open Json

/-- A member, unless there is nothing to write. -/
def memberIf {α : Type} (name : String) (encode : α → Json) : Option α → List (String × Json)
  | some a => [(name, encode a)]
  | none => []

/-- A list as a member, unless it is empty. -/
def memberUnlessEmpty (name : String) (items : List Json) : List (String × Json) :=
  if items.isEmpty then [] else [(name, .arr items)]

namespace Handlers

/-- The members of handlers. -/
def members (h : Handlers) : List (String × Json) :=
  memberUnlessEmpty "press" (Action.listToJson h.press)
    ++ memberUnlessEmpty "dragStart" (Action.listToJson h.dragStart)
    ++ memberUnlessEmpty "dragChange" (Action.listToJson h.dragChange)
    ++ memberUnlessEmpty "dragEnd" (Action.listToJson h.dragEnd)
    ++ memberUnlessEmpty "stateChange" (Action.listToJson h.stateChange)

/-- The handlers of a document. -/
def ofJson? (j : Json) : Option Handlers := do
  let actions := Action.listOfJson? false
  let ms ← j.layer.fields? ["press", "dragStart", "dragChange", "dragEnd", "stateChange"]
  pure {
    press := ← optional [] actions "press" ms
    dragStart := ← optional [] actions "dragStart" ms
    dragChange := ← optional [] actions "dragChange" ms
    dragEnd := ← optional [] actions "dragEnd" ms
    stateChange := ← optional [] actions "stateChange" ms }

end Handlers

/-! ### Nodes -/

namespace Node

mutual

/-- A node as a document. -/
def toJson : Node → Json
  | ⟨a, parent, children⟩ =>
    .obj ([("id", .str a.id), ("type", .str a.kind.name)]
      ++ (if a.style.isEmpty then [] else [("style", .ofRecord a.style)])
      ++ memberIf "text" .str a.text
      ++ memberUnlessEmpty "children" (childrenToJson children)
      ++ (if a.handlers.isEmpty then [] else [("handlers", .obj a.handlers.members)])
      ++ memberIf "collection" .str a.collection
      ++ memberIf "itemName" .str a.itemName
      ++ memberIf "parentId" .str parent)

/-- Children as documents: a reference is its id. -/
def childrenToJson : List Child → List Json
  | [] => []
  | .ref id :: r => .str id :: childrenToJson r
  | .inline node :: r => toJson node :: childrenToJson r

end

/-- The fields of a node. -/
def fields : List String :=
  ["id", "type", "style", "text", "children", "handlers", "collection", "itemName", "parentId"]

/-- The node of one layer. -/
def ofLayer? (layer : Layer (Reading Child)) : Option Node := do
  let ms ← layer.fields? fields
  let id ← required (fun r => str? r.raw) "id" ms
  let kind ← required (fun r => choice? NodeKind.choices r.raw) "type" ms
  let style ← optional ∅ (fun r => record? r.raw) "style" ms
  let text ← maybe Reading.raw str? "text" ms
  let children ← optional [] Reading.many "children" ms
  let handlers ← optional {} (fun r => Handlers.ofJson? r.raw) "handlers" ms
  let collection ← maybe Reading.raw str? "collection" ms
  let itemName ← maybe Reading.raw str? "itemName" ms
  let parent ← maybe Reading.raw str? "parentId" ms
  pure ⟨⟨id, kind, style, text, handlers, collection, itemName⟩, parent, children⟩

end Node

/-- The child of one layer: a text is a reference, all else an inline node. -/
def Child.ofLayer? : Layer (Reading Child) → Option Child
  | .scalar (.str id) => some (ref id)
  | layer => (Node.ofLayer? layer).map inline

/-- The node that a document is. -/
def Node.ofJson? (j : Json) : Option Node := Node.ofLayer? (readLayer Child.ofLayer? j)

/-! ### Specifications -/

namespace NodeSpec

mutual

/-- The members of a specification. -/
def members : NodeSpec → List (String × Json)
  | ⟨a, children⟩ =>
    [("id", .str a.id), ("type", .str a.kind.name), ("style", .ofRecord a.style),
      ("text", ofMaybe .str a.text),
      ("onPress", .arr (Action.listToJson a.handlers.press)),
      ("onDragStart", .arr (Action.listToJson a.handlers.dragStart)),
      ("onDragChange", .arr (Action.listToJson a.handlers.dragChange)),
      ("onDragEnd", .arr (Action.listToJson a.handlers.dragEnd)),
      ("onStateChange", .arr (Action.listToJson a.handlers.stateChange)),
      ("collection", ofMaybe .str a.collection), ("itemName", ofMaybe .str a.itemName),
      ("children", .arr (listToJson children))]

/-- Each specification of a list as a document. -/
def listToJson : List NodeSpec → List Json
  | [] => []
  | spec :: r => .obj (members spec) :: listToJson r

end

/-- A specification as a document. -/
def toJson (spec : NodeSpec) : Json := .obj spec.members

/-- The fields of a specification. -/
def fields : List String :=
  ["id", "type", "style", "text", "onPress", "onDragStart", "onDragChange", "onDragEnd",
   "onStateChange", "collection", "itemName", "children"]

/-- The specification of one layer. -/
def ofLayer? (inner : Bool) (layer : Layer (Reading NodeSpec)) : Option NodeSpec := do
  let actions := optional [] fun (r : Reading NodeSpec) => Action.listOfJson? inner r.raw
  let ms ← layer.fields? fields
  let id ← required (fun r => str? r.raw) "id" ms
  let kind ← required (fun r => choiceIn? inner NodeKind.choices r.raw) "type" ms
  let style ← optional ∅ (fun r => record? r.raw) "style" ms
  let text ← maybe Reading.raw str? "text" ms
  let press ← actions "onPress" ms
  let dragStart ← actions "onDragStart" ms
  let dragChange ← actions "onDragChange" ms
  let dragEnd ← actions "onDragEnd" ms
  let stateChange ← actions "onStateChange" ms
  let collection ← maybe Reading.raw str? "collection" ms
  let itemName ← maybe Reading.raw str? "itemName" ms
  let children ← optional [] Reading.many "children" ms
  let handlers : Handlers := ⟨press, dragStart, dragChange, dragEnd, stateChange⟩
  pure ⟨⟨id, kind, style, text, handlers, collection, itemName⟩, children⟩

/-- The specification that a document is. -/
def ofJson? (j : Json) : Option NodeSpec := (reading (ofLayer? false) j).one

end NodeSpec

end LiveScene
