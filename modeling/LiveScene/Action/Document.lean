import LiveScene.Action.Basic
import LiveScene.Expr.Document

/-!
# LiveScene.Action.Document

Actions as documents: records with the tag `type`, and the context in a member beside the
fields of the task.
-/

namespace LiveScene

open Json

/-- An interval as a document. -/
def IntervalSpec.toJson : IntervalSpec → Json
  | millis ms => .ofFloat ms
  | expr e => e.toJson

/-- The interval of a document: a number, or else an expression. -/
def IntervalSpec.ofJson? : Json → Option IntervalSpec
  | .num n => some (millis n.toFloat)
  | j => (Expr.ofPart? j).map expr

/-- Something that may be absent, as a document. -/
def ofMaybe {α : Type} (encode : α → Json) : Option α → Json
  | some a => encode a
  | none => .null

namespace Action

/-- The tag of actions. -/
def tag : String := "type"

/-- The member that asks for a context. -/
def contextField : String := "context"

/-- The names of the tasks. -/
def variants : List String :=
  ["assignCell", "log", "branch", "delay", "animate", "dataCreate", "dataUpdate", "dataDelete",
   "playEffect", "startTimer", "stopTimer", "randomAssign"]

mutual

/-- The members of a task. -/
def taskMembers : Task → List (String × Json)
  | .assignCell target op value =>
    [(tag, .str "assignCell"), ("target", .str target), ("op", .str op.name),
      ("value", value.toJson)]
  | .log message value =>
    [(tag, .str "log"), ("message", .str message), ("value", ofMaybe Expr.toJson value)]
  | .branch condition yes no =>
    [(tag, .str "branch"), ("condition", condition.toJson), ("then", .arr (listToJson yes)),
      ("else", .arr (listToJson no))]
  | .delay ms actions =>
    [(tag, .str "delay"), ("ms", .ofNat ms.toNat), ("actions", .arr (listToJson actions))]
  | .animate target goal durationMs curve =>
    [(tag, .str "animate"), ("target", .str target), ("to", goal.toJson),
      ("durationMs", ofMaybe (fun ms => .ofNat ms.toNat) durationMs),
      ("curve", ofMaybe (fun curve => .str curve.name) curve)]
  | .dataCreate collection record =>
    [(tag, .str "dataCreate"), ("collection", .str collection), ("record", .ofRecord record)]
  | .dataUpdate collection id patch =>
    [(tag, .str "dataUpdate"), ("collection", .str collection), ("id", .str id),
      ("patch", .ofRecord patch)]
  | .dataDelete collection id =>
    [(tag, .str "dataDelete"), ("collection", .str collection), ("id", .str id)]
  | .playEffect name volume pitch =>
    [(tag, .str "playEffect"), ("name", .str name), ("volume", .ofFloat volume),
      ("pitch", .ofFloat pitch)]
  | .startTimer id interval actions lowLatency =>
    [(tag, .str "startTimer"), ("id", .str id), ("interval", interval.toJson),
      ("actions", .arr (listToJson actions)), ("lowLatency", .bool lowLatency)]
  | .stopTimer id => [(tag, .str "stopTimer"), ("id", .str id)]
  | .randomAssign target low high =>
    [(tag, .str "randomAssign"), ("target", .str target), ("min", .ofFloat low),
      ("max", .ofFloat high)]

/-- An action as a document. -/
def toJson : Action → Json
  | mk task context =>
    match context with
    | some context => .obj (taskMembers task ++ [(contextField, .str context.name)])
    | none => .obj (taskMembers task)

/-- Each action of a list as a document. -/
def listToJson : List Action → List Json
  | [] => []
  | a :: r => toJson a :: listToJson r

end

/-- The task of a variant's fields. -/
def taskOfFields? (variant : String) (layer : Layer (Reading Action)) : Option Task :=
  let text := fun (r : Reading Action) => str? r.raw
  let number := fun (r : Reading Action) => float? r.raw
  let expr := fun (r : Reading Action) => Expr.ofPart? r.raw
  let record := fun (r : Reading Action) => record? r.raw
  match variant with
  | "assignCell" => do
    let ms ← layer.fields? ["target", "op", "value"]
    let target ← required text "target" ms
    let op ← optional .set (fun r => innerChoice? AssignOp.choices r.raw) "op" ms
    let value ← required expr "value" ms
    pure (.assignCell target op value)
  | "log" => do
    let ms ← layer.fields? ["message", "value"]
    let message ← required text "message" ms
    let value ← maybe Reading.raw Expr.ofPart? "value" ms
    pure (.log message value)
  | "branch" => do
    let ms ← layer.fields? ["condition", "then", "else"]
    let condition ← required expr "condition" ms
    let yes ← optional [] Reading.many "then" ms
    let no ← optional [] Reading.many "else" ms
    pure (.branch condition yes no)
  | "delay" => do
    let ms ← layer.fields? ["ms", "actions"]
    let time ← required (fun r => word? r.raw) "ms" ms
    let actions ← optional [] Reading.many "actions" ms
    pure (.delay time actions)
  | "animate" => do
    let ms ← layer.fields? ["target", "to", "durationMs", "curve"]
    let target ← required text "target" ms
    let goal ← required expr "to" ms
    let durationMs ← maybe Reading.raw word? "durationMs" ms
    let curve ← maybe Reading.raw (innerChoice? Curve.choices) "curve" ms
    pure (.animate target goal durationMs curve)
  | "dataCreate" => do
    let ms ← layer.fields? ["collection", "record"]
    let collection ← required text "collection" ms
    let content ← required record "record" ms
    pure (.dataCreate collection content)
  | "dataUpdate" => do
    let ms ← layer.fields? ["collection", "id", "patch"]
    let collection ← required text "collection" ms
    let id ← required text "id" ms
    let patch ← required record "patch" ms
    pure (.dataUpdate collection id patch)
  | "dataDelete" => do
    let ms ← layer.fields? ["collection", "id"]
    let collection ← required text "collection" ms
    let id ← required text "id" ms
    pure (.dataDelete collection id)
  | "playEffect" => do
    let ms ← layer.fields? ["name", "volume", "pitch"]
    let name ← required text "name" ms
    let volume ← optional 1 number "volume" ms
    let pitch ← optional 1 number "pitch" ms
    pure (.playEffect name volume pitch)
  | "startTimer" => do
    let ms ← layer.fields? ["id", "interval", "actions", "lowLatency"]
    let id ← required text "id" ms
    let interval ← required (fun r => IntervalSpec.ofJson? r.raw) "interval" ms
    let actions ← optional [] Reading.many "actions" ms
    let lowLatency ← optional false (fun r => bool? r.raw) "lowLatency" ms
    pure (.startTimer id interval actions lowLatency)
  | "stopTimer" => do
    let ms ← layer.fields? ["id"]
    pure (.stopTimer (← required text "id" ms))
  | "randomAssign" => do
    let ms ← layer.fields? ["target", "min", "max"]
    let target ← required text "target" ms
    let low ← required number "min" ms
    let high ← required number "max" ms
    pure (.randomAssign target low high)
  | _ => none

/-- The action of one layer: an object, of which the context is no part of the task. -/
def ofLayer? (inner : Bool) : Layer (Reading Action) → Option Action
  | .members ms =>
    if occurrences contextField ms ≤ 1 then do
      let context ← maybe Reading.raw (choiceIn? inner Context.choices) contextField ms
      let rest := ms.filter fun m => m.1 ≠ contextField
      let (variant, fields) ← (Layer.members rest).tagged? tag variants true
      let task ← taskOfFields? variant fields
      pure (mk task context)
    else none
  | _ => none

/-- The action that a document is, or a value inside a tagged record. -/
def ofPart? (inner : Bool) (j : Json) : Option Action :=
  ofLayer? inner (readLayer (ofLayer? true) j)

/-- The action that a document is. -/
def ofJson? : Json → Option Action := ofPart? false

/-- The actions that an array is. -/
def listOfJson? (inner : Bool) : Json → Option (List Action) := list? (ofPart? inner)

end Action

end LiveScene
