import LiveScene.Json.Printer
import LiveScene.Text.Blank
import LiveScene.Text.Search

/-!
# LiveScene.Template

Placeholders for the fields of an item.

* A placeholder is `{{name.path}}`: the name under which the item is bound, then
  fields and positions down to a value, with points between them. A text is searched from left
  to right, each opening marker up to the first closing marker after it; what a placeholder
  brings in is not searched again.
* A placeholder that finds no value stays as it is written.
* A text of a document that is a single placeholder takes the value itself, which keeps its
  kind: a number stays a number.
-/

namespace LiveScene

/-- An item, and the name that placeholders give it. -/
structure ItemScope where
  name : String
  item : Json

namespace ItemScope

/-- The marker before a path. -/
def opening : List Char := ['\x7b', '\x7b']

/-- The marker after a path. -/
def closing : List Char := ['\x7d', '\x7d']

/-- A position in an array: digits, with a plus sign in front if any, that fit a word. -/
def position? (cs : List Char) : Option Nat :=
  let digits := match cs with
    | '+' :: r => r
    | r => r
  if digits ≠ [] ∧ digits.all Char.isDigit then
    let n := digits.foldl (fun n c => 10 * n + (c.toNat - '0'.toNat)) 0
    if n < UInt64.size then some n else none
  else none

/-- One step down a path: a field of an object, or an item of an array. -/
def child? (j : Json) (segment : List Char) : Option Json :=
  match j with
  | .obj ms => lookupEntry (String.ofList segment) ms
  | .arr items => (position? segment).bind fun i => items[i]?
  | _ => none

/-- The value at the end of a path. -/
def lookup? (scope : ItemScope) (path : List Char) : Option Json :=
  match (Text.splitAt '.' path).map Text.trim with
  | [] => none
  | first :: segments =>
    if String.ofList first = scope.name then segments.foldlM child? scope.item else none

/-- The text of a value inside a text: texts as they are, all else as compact documents. -/
def insertedText : Json → List Char
  | .str s => s.toList
  | j => j.chars

/-- What stands in place of a placeholder. -/
def replacement (scope : ItemScope) (path : List Char) : List Char :=
  match scope.lookup? path with
  | some j => insertedText j
  | none => opening ++ path ++ closing

/-- The text with its placeholders replaced. -/
def resolveChars (scope : ItemScope) (cs : List Char) : List Char :=
  match _h : Text.breakAt? opening cs with
  | none => cs
  | some (before, opened) =>
    match _h' : Text.breakAt? closing opened with
    | none => cs
    | some (path, rest) => before ++ scope.replacement path ++ resolveChars scope rest
termination_by cs.length
decreasing_by
  have := Text.length_breakAt? _h
  have := Text.length_breakAt? _h'
  simp only [opening, closing, List.length_cons, List.length_nil] at *
  omega

/-- The text with its placeholders replaced. -/
def resolveText (scope : ItemScope) (s : String) : String :=
  String.ofList (scope.resolveChars s.toList)

/-- The path of a text that is a single placeholder between blanks. -/
def onlyPath? (cs : List Char) : Option (List Char) := do
  let opened ← Text.after? opening (Text.trim cs)
  let path ← Text.before? closing opened
  if Text.occurs opening path || Text.occurs closing path then none else some path

/-- The value of a text that is a single placeholder. -/
def onlyValue? (scope : ItemScope) (s : String) : Option Json :=
  (onlyPath? s.toList).bind scope.lookup?

/-- A text of a document with its placeholders replaced. -/
def resolveString (scope : ItemScope) (s : String) : Json :=
  match scope.onlyValue? s with
  | some j => j
  | none => .str (scope.resolveText s)

mutual

/-- A document with the placeholders in its texts replaced. Names of members stay. -/
def resolve (scope : ItemScope) : Json → Json
  | .str s => scope.resolveString s
  | .arr items => .arr (resolveItems scope items)
  | .obj members => .obj (resolveMembers scope members)
  | j => j

/-- `resolve` on each item. -/
def resolveItems (scope : ItemScope) : List Json → List Json
  | [] => []
  | j :: r => resolve scope j :: resolveItems scope r

/-- `resolve` on the value of each member. -/
def resolveMembers (scope : ItemScope) : List (String × Json) → List (String × Json)
  | [] => []
  | (name, j) :: r => (name, resolve scope j) :: resolveMembers scope r

end

/-- A record with the placeholders in its texts replaced. -/
def resolveRecord (scope : ItemScope) (record : Json.Record) : Json.Record :=
  record.mapValues fun _ j => scope.resolve j

/-- A text with the placeholders of a scope replaced, if there is one. -/
def resolveTextIn (scope : Option ItemScope) (s : String) : String :=
  match scope with
  | some scope => scope.resolveText s
  | none => s

/-- A record with the placeholders of a scope replaced, if there is one. -/
def resolveRecordIn (scope : Option ItemScope) (record : Json.Record) : Json.Record :=
  match scope with
  | some scope => scope.resolveRecord record
  | none => record

end ItemScope

end LiveScene
