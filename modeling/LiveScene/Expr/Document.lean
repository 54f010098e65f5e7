import LiveScene.Expr.Basic
import LiveScene.Json.Shape

/-!
# LiveScene.Expr.Document

Expressions as documents: records with the tag `kind`.
-/

namespace LiveScene.Expr

open Json

/-- The tag of expressions. -/
def tag : String := "kind"

/-- The names of the variants. -/
def variants : List String :=
  ["literal", "cell", "param", "op", "interpolate", "interpolateColor", "conditional"]

mutual

/-- An expression as a document. -/
def toJson : Expr → Json
  | literal value => .obj [(tag, .str "literal"), ("value", value.toJson)]
  | cell id => .obj [(tag, .str "cell"), ("id", .str id)]
  | param name => .obj [(tag, .str "param"), ("name", .str name)]
  | op operator args =>
    .obj [(tag, .str "op"), ("op", .str operator.name), ("args", .arr (listToJson args))]
  | interpolate input breakpoints outputs =>
    .obj [(tag, .str "interpolate"), ("input", toJson input),
      ("inputRange", .arr (breakpoints.map .ofFloat)),
      ("outputRange", .arr (outputs.map .ofFloat))]
  | interpolateColor input breakpoints outputs =>
    .obj [(tag, .str "interpolateColor"), ("input", toJson input),
      ("inputRange", .arr (breakpoints.map .ofFloat)), ("outputRange", .ofStrings outputs)]
  | conditional left test right yes no =>
    .obj [(tag, .str "conditional"), ("left", toJson left), ("cmp", .str test.name),
      ("right", toJson right), ("then", toJson yes), ("else", toJson no)]

/-- Each expression of a list as a document. -/
def listToJson : List Expr → List Json
  | [] => []
  | e :: r => toJson e :: listToJson r

end

/-- The expression of a variant's fields. -/
def ofFields? (variant : String) (layer : Layer (Reading Expr)) : Option Expr :=
  match variant with
  | "literal" => do
    let ms ← layer.fields? ["value"]
    pure (literal (← required (fun r => Value.ofJson? r.raw) "value" ms))
  | "cell" => do
    let ms ← layer.fields? ["id"]
    pure (cell (← required (fun r => str? r.raw) "id" ms))
  | "param" => do
    let ms ← layer.fields? ["name"]
    pure (param (← required (fun r => str? r.raw) "name" ms))
  | "op" => do
    let ms ← layer.fields? ["op", "args"]
    let operator ← required (fun r => innerChoice? Operator.choices r.raw) "op" ms
    let args ← optional [] Reading.many "args" ms
    pure (op operator args)
  | "interpolate" => do
    let ms ← layer.fields? ["input", "inputRange", "outputRange"]
    let input ← required Reading.one "input" ms
    let breakpoints ← required (fun r => list? float? r.raw) "inputRange" ms
    let outputs ← required (fun r => list? float? r.raw) "outputRange" ms
    pure (interpolate input breakpoints outputs)
  | "interpolateColor" => do
    let ms ← layer.fields? ["input", "inputRange", "outputRange"]
    let input ← required Reading.one "input" ms
    let breakpoints ← required (fun r => list? float? r.raw) "inputRange" ms
    let outputs ← required (fun r => list? str? r.raw) "outputRange" ms
    pure (interpolateColor input breakpoints outputs)
  | "conditional" => do
    let ms ← layer.fields? ["left", "cmp", "right", "then", "else"]
    let left ← required Reading.one "left" ms
    let test ← required (fun r => innerChoice? Comparison.choices r.raw) "cmp" ms
    let right ← required Reading.one "right" ms
    let yes ← required Reading.one "then" ms
    let no ← required Reading.one "else" ms
    pure (conditional left test right yes no)
  | _ => none

/-- The expression of one layer. -/
def ofLayer? (indexed : Bool) (layer : Layer (Reading Expr)) : Option Expr :=
  (layer.tagged? tag variants indexed).bind fun tagged => ofFields? tagged.1 tagged.2

/-- The expression that a part of a document is. -/
def ofPart? (j : Json) : Option Expr := (reading (ofLayer? true) j).one

/-- The expression that a whole document is. -/
def ofJson? (j : Json) : Option Expr := ofLayer? false (readLayer (ofLayer? true) j)

end LiveScene.Expr
