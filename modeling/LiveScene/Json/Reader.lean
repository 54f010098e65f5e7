import LiveScene.Json.Token

/-!
# LiveScene.Json.Reader

Documents from their tokens. The arrays and objects that are open stand on a stack, the
innermost first, and what may come next is one of six *turns*; so reading is one pass over the
tokens. At most 127 of them may be open at once, unless the text is only skimmed.

In a text that is skimmed, garbled quotes are read as `unreadable`, and so is an object with a
garbled name. It is no record, no whole number, no text and not `null`, so both are refused
wherever something is looked for, and pass wherever nothing is.
-/

namespace LiveScene.Json

/-- What stands for values that cannot be read. -/
def unreadable : Json := .num .unreadable

/-- An array or object that is open, what it holds so far in reverse. -/
inductive Frame where
  | array (items : List Json)
  /-- An object whose next value belongs to `name`. -/
  | object (members : List (String × Json)) (name : String)
  /-- An object with a garbled name. -/
  | lost

/-- What may come next. -/
inductive Turn where
  /-- A value. -/
  | value
  /-- The first item of an array, or its end. -/
  | firstItem
  /-- A comma or an end, or nothing if nothing is open. -/
  | next
  /-- The first name of an object, or its end. -/
  | firstName
  /-- A name. -/
  | name
  /-- The colon after a name. -/
  | colon
deriving DecidableEq

/-- How far reading has come. -/
structure Progress where
  /-- What may come next. -/
  turn : Turn
  /-- What is open, innermost first. -/
  stack : List Frame
  /-- The last value that was completed outside of what is open. -/
  result : Json

/-- The greatest number of arrays and objects that may be open at once. -/
def depthLimit : Nat := 127

namespace Progress

/-- The start of a document. -/
def start : Progress := ⟨.value, [], .null⟩

/-- A value is complete: it goes to what is open around it. -/
def complete (stack : List Frame) (j : Json) : Progress :=
  match stack with
  | [] => ⟨.next, [], j⟩
  | .array items :: outer => ⟨.next, .array (j :: items) :: outer, .null⟩
  | .object members name :: outer =>
    ⟨.next, .object ((name, j) :: members) name :: outer, .null⟩
  | .lost :: outer => ⟨.next, .lost :: outer, .null⟩

/-- Whether another array or object may be opened. -/
def hasRoom (skim : Bool) (stack : List Frame) : Bool :=
  skim || decide (stack.length < depthLimit)

/-- A value begins. -/
def beginValue? (skim : Bool) (stack : List Frame) : Token → Option Progress
  | .openArray =>
    if hasRoom skim stack then some ⟨.firstItem, .array [] :: stack, .null⟩ else none
  | .openObject =>
    if hasRoom skim stack then some ⟨.firstName, .object [] "" :: stack, .null⟩ else none
  | .text s => some (complete stack (.str s))
  | .garbled => some (complete stack unreadable)
  | .value j => some (complete stack j)
  | _ => none

/-- The innermost array or object ends. -/
def close? (stack : List Frame) (token : Token) : Option Progress :=
  match token, stack with
  | .closeArray, .array items :: outer => some (complete outer (.arr items.reverse))
  | .closeObject, .object members _ :: outer => some (complete outer (.obj members.reverse))
  | .closeObject, .lost :: outer => some (complete outer unreadable)
  | _, _ => none

/-- A name is given to the innermost object. -/
def named? (stack : List Frame) (token : Token) : Option Progress :=
  match token, stack with
  | .text s, .object members _ :: outer => some ⟨.colon, .object members s :: outer, .null⟩
  | .garbled, .object _ _ :: outer => some ⟨.colon, .lost :: outer, .null⟩
  | .text _, .lost :: outer => some ⟨.colon, .lost :: outer, .null⟩
  | .garbled, .lost :: outer => some ⟨.colon, .lost :: outer, .null⟩
  | _, _ => none

/-- Reads one token. -/
def step? (skim : Bool) (p : Progress) (token : Token) : Option Progress :=
  match p.turn with
  | .value => beginValue? skim p.stack token
  | .firstItem =>
    match token with
    | .closeArray => close? p.stack token
    | _ => beginValue? skim p.stack token
  | .next =>
    match token, p.stack with
    | .comma, .array _ :: _ => some { p with turn := .value }
    | .comma, .object _ _ :: _ => some { p with turn := .name }
    | .comma, .lost :: _ => some { p with turn := .name }
    | _, _ => close? p.stack token
  | .firstName =>
    match token with
    | .closeObject => close? p.stack token
    | _ => named? p.stack token
  | .name => named? p.stack token
  | .colon =>
    match token with
    | .colon => some { p with turn := .value }
    | _ => none

/-- The document, if one is complete and nothing is open. -/
def finish? (p : Progress) : Option Json :=
  match p.turn, p.stack with
  | .next, [] => some p.result
  | _, _ => none

end Progress

/-- The document of a text, members as they are written. -/
def read? (skim : Bool) (s : String) : Option Json := do
  let tokens ← tokens? skim s.toList
  let last ← tokens.foldlM (Progress.step? skim) .start
  last.finish?

/-- The document of a text. -/
def ofText? (s : String) : Option Json := read? false s

/-- Decodes a tree as it is written. It shows members that are given twice where a record takes
only one; the canonical tree is what the free-form parts are taken from. -/
def decodeTree? {α : Type} (decode : Json → Option α) (tree : Json) : Option α := do
  let _ ← decode tree
  decode tree.canonical

/-- Decodes a text. -/
def decodeText? {α : Type} (decode : Json → Option α) (s : String) : Option α :=
  (ofText? s).bind (decodeTree? decode)

/-- Decodes a text that is only skimmed, for types whose fields hold nothing but whole numbers
and choices: what they pass over may be anything. -/
def decodeSkimmed? {α : Type} (decode : Json → Option α) (s : String) : Option α :=
  (read? true s).bind (decodeTree? decode)

end LiveScene.Json
