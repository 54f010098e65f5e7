import LiveScene.Decimal.Reader
import LiveScene.Json.Printer
import LiveScene.Json.Shape
import LiveScene.Text.Blank

/-!
# LiveScene.Value

The scalars that cells hold and expressions yield: numbers, truth values and texts.

Each has a reading as a number (`toNumber`), as a truth value (`isTruthy`) and as a text
(`display`), and `coerce` makes one into a value of another type by these readings. What is no
number reads as zero, so `toNumber` never yields it.
-/

namespace LiveScene

/-- The type of a value. -/
inductive ValueType where
  | number
  | string
  | boolean
deriving Repr, DecidableEq

/-- A scalar. -/
inductive Value where
  | number (x : Float)
  | bool (b : Bool)
  | text (s : String)
deriving DecidableEq

instance : Inhabited Value := ⟨.number 0⟩

namespace Value

/-- The number that a text writes between blanks; zero if it writes none. -/
def numberOfText (s : String) : Float := (Binary64.ofText? (Text.trim s.toList)).getD 0

/-- The value as a number: one and zero for truth values. -/
def toNumber : Value → Float
  | number x => Binary64.orZero x
  | bool true => 1
  | bool false => 0
  | text s => Binary64.orZero (numberOfText s)

/-- The value as a truth value: numbers other than zero, and texts that are not empty. -/
def isTruthy : Value → Bool
  | number x => !(x == 0) && !x.isNaN
  | bool b => b
  | text s => s ≠ ""

/-- The type of a value. -/
def type : Value → ValueType
  | number _ => .number
  | bool _ => .boolean
  | text _ => .string

/-- The value as a text. -/
def display : Value → String
  | number x => Binary64.plainText x
  | bool true => "true"
  | bool false => "false"
  | text s => s

/-- The value as one of a type. -/
def coerce (ty : ValueType) (v : Value) : Value :=
  match ty with
  | .number => number v.toNumber
  | .boolean => bool v.isTruthy
  | .string => text v.display

@[simp] theorem type_coerce (ty : ValueType) (v : Value) : (v.coerce ty).type = ty := by
  cases ty <;> rfl

/-! ### Documents -/

/-- The value as a document. -/
def toJson : Value → Json
  | number x => .ofFloat x
  | bool b => .bool b
  | text s => .str s

/-- The value that a document is: a number, a truth value or a text. -/
def ofJson? : Json → Option Value
  | .num n => some (number n.toFloat)
  | .bool b => some (bool b)
  | .str s => some (text s)
  | _ => none

/-- The value of any document: nothing counts as zero, arrays and objects as their compact
texts. -/
def ofDocument : Json → Value
  | .num n => number n.toFloat
  | .bool b => bool b
  | .str s => text s
  | .null => number 0
  | j => text j.text

end Value

namespace ValueType

/-- The names of the types in documents. -/
def choices : List (String × ValueType) :=
  [("number", number), ("string", string), ("boolean", boolean)]

/-- The name of a type in documents. -/
def name : ValueType → String
  | number => "number"
  | string => "string"
  | boolean => "boolean"

end ValueType

end LiveScene
