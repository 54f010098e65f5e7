import LiveScene.Decimal.Basic

/-!
# LiveScene.Decimal.Reader

Doubles from text: an optional sign, then digits with an optional point and an optional
exponent, or one of the words `inf`, `infinity` and `nan` in any case. The value is the double
closest to the decimal that is written, however many digits it has.
-/

namespace LiveScene

/-- The value of a run of digits. -/
def digitsValue (digits : List Char) : Nat :=
  digits.foldl (fun value c => 10 * value + (c.toNat - '0'.toNat)) 0

namespace Decimal

/-- A run of digits that is the whole text, and not empty. -/
def wholeNumber? (cs : List Char) : Option Nat :=
  if cs ≠ [] ∧ cs.all Char.isDigit then some (digitsValue cs) else none

/-- The exponent that follows the digits of a decimal; zero if nothing follows. -/
def exponent? : List Char → Option Int
  | [] => some 0
  | mark :: r =>
    if mark = 'e' ∨ mark = 'E' then
      match r with
      | '-' :: digits => (wholeNumber? digits).map fun n => -(n : Int)
      | '+' :: digits => (wholeNumber? digits).map fun n => (n : Int)
      | digits => (wholeNumber? digits).map fun n => (n : Int)
    else none

/-- The digits after the point, and what follows them. -/
def fraction : List Char → List Char × List Char
  | '.' :: r => r.span Char.isDigit
  | r => ([], r)

/-- A decimal without a sign. At least one digit stands before or after the point. -/
def ofText? (cs : List Char) : Option Decimal :=
  let (whole, afterWhole) := cs.span Char.isDigit
  let (part, afterPart) := fraction afterWhole
  if whole = [] ∧ part = [] then none
  else (exponent? afterPart).map fun e => ⟨digitsValue (whole ++ part), e - part.length⟩

end Decimal

namespace Binary64

/-- The words for values that have no digits. -/
def word? (negative : Bool) (cs : List Char) : Option Float :=
  let word := cs.map Char.toLower
  if word = "inf".toList ∨ word = "infinity".toList then some (signed negative infinity)
  else if word = "nan".toList then some nan
  else none

/-- A double without its sign. -/
def unsignedText? (negative : Bool) (cs : List Char) : Option Float :=
  match Decimal.ofText? cs with
  | some d => some (signed negative d.nearest)
  | none => word? negative cs

/-- The double that a text writes. -/
def ofText? : List Char → Option Float
  | '-' :: r => unsignedText? true r
  | '+' :: r => unsignedText? false r
  | r => unsignedText? false r

end Binary64

end LiveScene
