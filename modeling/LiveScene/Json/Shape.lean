import LiveScene.Json.Basic

/-!
# LiveScene.Json.Shape

The shapes that records, choices and lists take in documents, and how they are decoded.

* **Records** are objects. A field may be absent if it has a default; members that are no field
  are passed over; a field that is given twice is refused. A record may also be the array of
  its fields in their order, of which the last may be absent.
* **Tagged records** carry the name of their variant in one member, the tag; as an array, in
  front of the fields. Inside a document the tag may also be the position of the name.
* **Choices** are names. A choice may also be an object with the name as its only member and
  nothing as the value: `null`, or inside a tagged record also an empty object.
* **Nested types** are read from the leaves up: `Json.reading` gives every value of a tree
  together with what it decodes to, alone and as a list, so that a type's own decoding
  (`Layer α → Option α`) looks only at one layer.
-/

namespace LiveScene.Json

/-! ### Layers -/

/-- One layer of a document over values of a type `β`. -/
inductive Layer (β : Type) where
  /-- Neither array nor object. -/
  | scalar (j : Json)
  /-- An array. -/
  | items (items : List β)
  /-- An object. -/
  | members (members : List (String × β))

/-- The layer over other values. -/
def Layer.map {β γ : Type} (f : β → γ) : Layer β → Layer γ
  | scalar j => scalar j
  | items is => items (is.map f)
  | members ms => members (ms.map fun m => (m.1, f m.2))

/-- The outermost layer of a document. -/
def layer : Json → Layer Json
  | arr items => .items items
  | obj members => .members members
  | j => .scalar j

/-- A value of a document and what it decodes to. -/
structure Reading (α : Type) where
  /-- The value itself. -/
  raw : Json
  /-- The value as one `α`. -/
  one : Option α
  /-- The value as an array of `α`. -/
  many : Option (List α)

/-- The answers of a list, if all are there. -/
def collect {α : Type} : List (Option α) → Option (List α)
  | [] => some []
  | none :: _ => none
  | some a :: r => (collect r).map (a :: ·)

section

variable {α : Type}

mutual

/-- Decodes every value of a tree by what `decode` makes of one layer. -/
def reading (decode : Layer (Reading α) → Option α) : Json → Reading α
  | arr items =>
    let read := readings decode items
    ⟨arr items, decode (.items read), collect (read.map Reading.one)⟩
  | obj members => ⟨obj members, decode (.members (memberReadings decode members)), none⟩
  | j => ⟨j, decode (.scalar j), none⟩

/-- `reading` of each item. -/
def readings (decode : Layer (Reading α) → Option α) : List Json → List (Reading α)
  | [] => []
  | j :: r => reading decode j :: readings decode r

/-- `reading` of the value of each member. -/
def memberReadings (decode : Layer (Reading α) → Option α) :
    List (String × Json) → List (String × Reading α)
  | [] => []
  | (name, j) :: r => (name, reading decode j) :: memberReadings decode r

end

/-- The outermost layer with the readings of what it holds. -/
def readLayer (decode : Layer (Reading α) → Option α) : Json → Layer (Reading α)
  | arr items => .items (readings decode items)
  | obj members => .members (memberReadings decode members)
  | j => .scalar j

@[simp] theorem raw_reading (decode : Layer (Reading α) → Option α) (j : Json) :
    (reading decode j).raw = j := by
  cases j <;> simp [reading]

theorem one_reading (decode : Layer (Reading α) → Option α) (j : Json) :
    (reading decode j).one = decode (readLayer decode j) := by
  cases j <;> simp [reading, readLayer]

end

/-! ### Records -/

section

variable {β : Type} {γ : Type}

/-- How often a name occurs. -/
def occurrences (name : String) (members : List (String × β)) : Nat :=
  (members.filter fun m => m.1 = name).length

/-- The values of a record's fields. -/
def Layer.fields? (fields : List String) : Layer β → Option (List (String × β))
  | .members ms => if fields.all fun name => occurrences name ms ≤ 1 then some ms else none
  | .items is => if is.length ≤ fields.length then some (fields.zip is) else none
  | .scalar _ => none

/-- A field that must be there. -/
def required (decode : β → Option γ) (name : String) (ms : List (String × β)) : Option γ :=
  (lookupEntry name ms).bind decode

/-- A field with a default. -/
def optional (default : γ) (decode : β → Option γ) (name : String) (ms : List (String × β)) :
    Option γ :=
  match lookupEntry name ms with
  | some b => decode b
  | none => some default

/-- A value that may be `null`. -/
def nullable (decode : Json → Option γ) : Json → Option (Option γ)
  | null => some none
  | j => (decode j).map some

/-- A field that may be absent or `null`. -/
def maybe (raw : β → Json) (decode : Json → Option γ) (name : String)
    (ms : List (String × β)) : Option (Option γ) :=
  optional none (fun b => nullable decode (raw b)) name ms

end

/-! ### Tags -/

/-- The name that a tag gives, one of `variants`: itself, or where `indexed` its position. -/
def tagName? (variants : List String) (indexed : Bool) : Json → Option String
  | str s => if s ∈ variants then some s else none
  | num (.int i) => if indexed ∧ 0 ≤ i then variants[i.toNat]? else none
  | _ => none

/-- The variant of a tagged record, and the record without the tag. -/
def Layer.tagged? {α : Type} (tag : String) (variants : List String) (indexed : Bool) :
    Layer (Reading α) → Option (String × Layer (Reading α))
  | .members ms =>
    if occurrences tag ms = 1 then do
      let reading ← lookupEntry tag ms
      let name ← tagName? variants indexed reading.raw
      pure (name, .members (ms.filter fun m => m.1 ≠ tag))
    else none
  | .items (reading :: r) => do
    let name ← tagName? variants indexed reading.raw
    pure (name, .items r)
  | _ => none

/-! ### Values -/

/-- A truth value. -/
def bool? : Json → Option Bool
  | bool b => some b
  | _ => none

/-- A text. -/
def str? : Json → Option String
  | str s => some s
  | _ => none

/-- A number, as the closest double. -/
def float? : Json → Option Float
  | num n => some n.toFloat
  | _ => none

/-- An integer that fits an unsigned word of sixty-four bits. -/
def word? : Json → Option UInt64
  | num (.int i) => if 0 ≤ i ∧ i < UInt64.size then some (UInt64.ofNat i.toNat) else none
  | _ => none

/-- An array of values. -/
def list? {γ : Type} (decode : Json → Option γ) : Json → Option (List γ)
  | arr items => collect (items.map decode)
  | _ => none

/-- A free-form object; of two members with one name the later counts. -/
def record? : Json → Option Record
  | obj members => some (Dict.ofList members)
  | _ => none

/-- One of a list of names, alone or as the only member of an object. -/
def choice? {γ : Type} (choices : List (String × γ)) : Json → Option γ
  | str s => lookupEntry s choices
  | obj [(s, null)] => lookupEntry s choices
  | _ => none

/-- One of a list of names inside a tagged record. -/
def innerChoice? {γ : Type} (choices : List (String × γ)) : Json → Option γ
  | obj [(s, obj [])] => lookupEntry s choices
  | j => choice? choices j

/-- One of a list of names, inside a tagged record or not. -/
def choiceIn? {γ : Type} (inner : Bool) (choices : List (String × γ)) (j : Json) : Option γ :=
  if inner then innerChoice? choices j else choice? choices j

end LiveScene.Json
