import LiveScene.Event.Basic
import LiveScene.Json.Reader
import LiveScene.Node.Document

/-!
# LiveScene.Event.Document

Events as documents: records with the tag `event`. A node is created by its specification with
the tag among its members.
-/

namespace LiveScene.Event

open Json

/-- The tag of events. -/
def tag : String := "event"

/-- The names of the events. -/
def variants : List String :=
  ["createCell", "updateCell", "createNode", "addChild", "removeChild", "updateStyle",
   "updateText", "deleteNode", "setRoot", "batch"]

/-- A length in milliseconds, if one is given, as a document. -/
def durationToJson (durationMs : Option UInt64) : Json :=
  ofMaybe (fun ms => .ofNat ms.toNat) durationMs

mutual

/-- An event as a document. -/
def toJson : Event → Json
  | createCell id type initial =>
    .obj [(tag, .str "createCell"), ("id", .str id), ("type", .str type.name),
      ("initial", initial.toJson)]
  | updateCell id value animated durationMs =>
    .obj [(tag, .str "updateCell"), ("id", .str id), ("value", value.toJson),
      ("animated", .bool animated), ("duration", durationToJson durationMs)]
  | createNode spec => .obj ((tag, .str "createNode") :: spec.members)
  | addChild parent child position =>
    .obj [(tag, .str "addChild"), ("parentId", .str parent), ("childId", .str child),
      ("index", ofMaybe (fun i => .ofNat i.toNat) position)]
  | removeChild parent child =>
    .obj [(tag, .str "removeChild"), ("parentId", .str parent), ("childId", .str child)]
  | updateStyle id style merge animated durationMs =>
    .obj [(tag, .str "updateStyle"), ("id", .str id), ("style", .ofRecord style),
      ("merge", .bool merge), ("animated", .bool animated),
      ("duration", durationToJson durationMs)]
  | updateText id text => .obj [(tag, .str "updateText"), ("id", .str id), ("text", .str text)]
  | deleteNode id animated durationMs =>
    .obj [(tag, .str "deleteNode"), ("id", .str id), ("animated", .bool animated),
      ("duration", durationToJson durationMs)]
  | setRoot id => .obj [(tag, .str "setRoot"), ("id", .str id)]
  | batch events => .obj [(tag, .str "batch"), ("events", .arr (listToJson events))]

/-- Each event of a list as a document. -/
def listToJson : List Event → List Json
  | [] => []
  | e :: r => toJson e :: listToJson r

end

/-- The event of a variant's fields. -/
def ofFields? (variant : String) (layer : Layer (Reading Event)) : Option Event :=
  let text := fun (r : Reading Event) => str? r.raw
  let flag := fun (default : Bool) => optional default fun (r : Reading Event) => bool? r.raw
  let time := maybe Reading.raw word? "duration"
  match variant with
  | "createCell" => do
    let ms ← layer.fields? ["id", "type", "initial"]
    let id ← required text "id" ms
    let type ← required (fun r => innerChoice? ValueType.choices r.raw) "type" ms
    let initial ← required (fun r => Value.ofJson? r.raw) "initial" ms
    pure (createCell id type initial)
  | "updateCell" => do
    let ms ← layer.fields? ["id", "value", "animated", "duration"]
    let id ← required text "id" ms
    let value ← required (fun r => Value.ofJson? r.raw) "value" ms
    let animated ← flag false "animated" ms
    let durationMs ← time ms
    pure (updateCell id value animated durationMs)
  | "createNode" =>
    (NodeSpec.ofLayer? true (layer.map fun r => reading (NodeSpec.ofLayer? true) r.raw)).map
      createNode
  | "addChild" => do
    let ms ← layer.fields? ["parentId", "childId", "index"]
    let parent ← required text "parentId" ms
    let child ← required text "childId" ms
    let position ← maybe Reading.raw word? "index" ms
    pure (addChild parent child position)
  | "removeChild" => do
    let ms ← layer.fields? ["parentId", "childId"]
    let parent ← required text "parentId" ms
    let child ← required text "childId" ms
    pure (removeChild parent child)
  | "updateStyle" => do
    let ms ← layer.fields? ["id", "style", "merge", "animated", "duration"]
    let id ← required text "id" ms
    let style ← required (fun r => record? r.raw) "style" ms
    let merge ← flag true "merge" ms
    let animated ← flag false "animated" ms
    let durationMs ← time ms
    pure (updateStyle id style merge animated durationMs)
  | "updateText" => do
    let ms ← layer.fields? ["id", "text"]
    let id ← required text "id" ms
    let content ← required text "text" ms
    pure (updateText id content)
  | "deleteNode" => do
    let ms ← layer.fields? ["id", "animated", "duration"]
    let id ← required text "id" ms
    let animated ← flag false "animated" ms
    let durationMs ← time ms
    pure (deleteNode id animated durationMs)
  | "setRoot" => do
    let ms ← layer.fields? ["id"]
    pure (setRoot (← required text "id" ms))
  | "batch" => do
    let ms ← layer.fields? ["events"]
    pure (batch (← optional [] Reading.many "events" ms))
  | _ => none

/-- The event of one layer. -/
def ofLayer? (indexed : Bool) (layer : Layer (Reading Event)) : Option Event :=
  (layer.tagged? tag variants indexed).bind fun tagged => ofFields? tagged.1 tagged.2

/-- The event that a document is. -/
def ofJson? (j : Json) : Option Event := ofLayer? false (readLayer (ofLayer? true) j)

/-- The log that an array is. -/
def logOfJson? : Json → Option (List Event) := list? ofJson?

/-- The log that a text writes. -/
def logOfText? (s : String) : Option (List Event) := decodeText? logOfJson? s

/-- A log as a document. -/
def logToJson (log : List Event) : Json := .arr (listToJson log)

end LiveScene.Event
