import LiveScene.Decimal.Printer
import LiveScene.Dict

/-!
# LiveScene.Json.Basic

Documents as trees.

* A number is an integer or a double: `5` and `5.0` are two numbers, and a record keeps the
  difference.
* An object is the list of its members. A tree that was read keeps them as they were written,
  so that a member that is given twice can be refused; in a *canonical* tree (`canonical`)
  they ascend by name and the last of one name has won. What programs store is canonical, what
  they write has the members of a record in the order of its fields.
-/

namespace LiveScene

/-- A number of a document. -/
inductive Json.Number where
  /-- A number without point and exponent. -/
  | int (i : Int)
  /-- Any other number, and integers of more than sixty-four bits. -/
  | float (x : Float)
deriving DecidableEq

/-- A document. -/
inductive Json where
  | null
  | bool (b : Bool)
  | num (n : Json.Number)
  | str (s : String)
  | arr (items : List Json)
  | obj (members : List (String × Json))
deriving Inhabited

namespace Json

/-- A free-form object: its members in ascending order of their names. -/
abbrev Record := Dict Json

namespace Number

/-- The double closest to a number. -/
def toFloat : Number → Float
  | int i => Binary64.ofInt i
  | float x => x

/-- The text of a number. A document has no text for infinity and for what is no number. -/
def text : Number → String
  | int i => toString i
  | float x => if x.isFinite then Binary64.documentText x else "null"

end Number

/-- A double as a document. -/
def ofFloat (x : Float) : Json := if x.isFinite then num (.float x) else null

/-- A whole number as a document. -/
def ofNat (n : Nat) : Json := num (.int n)

/-- A list of texts as a document. -/
def ofStrings (texts : List String) : Json := arr (texts.map str)

/-- A record as a document. -/
def ofRecord (r : Record) : Json := obj r.entries

/-! ### Canonical trees -/

mutual

/-- The tree with the members of each object ascending, the last of each name. -/
def canonical : Json → Json
  | arr items => arr (canonicalItems items)
  | obj members => obj (sortEntries (canonicalMembers members))
  | j => j

/-- `canonical` on each item. -/
def canonicalItems : List Json → List Json
  | [] => []
  | j :: r => canonical j :: canonicalItems r

/-- `canonical` on the value of each member. -/
def canonicalMembers : List (String × Json) → List (String × Json)
  | [] => []
  | (name, j) :: r => (name, canonical j) :: canonicalMembers r

end

end Json

end LiveScene
