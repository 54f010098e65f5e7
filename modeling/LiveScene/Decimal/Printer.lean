import LiveScene.Decimal.Basic

/-!
# LiveScene.Decimal.Printer

The texts of doubles. Both have the fewest digits that read back; they differ in the record
`Layout`:

* **Plain** text (`Binary64.plain`) is positional at every size, writes whole numbers without
  a point, and names infinity and what is no number.
* **Document** text (`Binary64.document`) is positional for decimal exponents from -5 to 15
  with at least one digit after the point, and scientific outside them.
-/

namespace LiveScene

/-- The decisions that a text of a double makes. -/
structure Layout where
  /-- The decimal exponents that are written positionally. -/
  positional : Int → Bool
  /-- What follows the digits of a whole number. -/
  wholeEnd : List Char
  /-- Which of two equally close shortest decimals is written. -/
  tie : Tie

namespace Decimal

/-- The significant digits, without zeros at the end. -/
def digits (d : Decimal) : List Char :=
  ((Nat.toDigits 10 d.coefficient).reverse.dropWhile (· = '0')).reverse

/-- The number of digits before the point, negative for zeros after it. -/
def point (d : Decimal) : Int := digitCount d.coefficient + d.exponent

/-- Digits with a point after the first `point` of them, and zeros where there is no digit. -/
def positional (wholeEnd digits : List Char) (point : Int) : List Char :=
  if point ≤ 0 then '0' :: '.' :: List.replicate (-point).toNat '0' ++ digits
  else
    let before := point.toNat
    if digits.length ≤ before then
      digits ++ List.replicate (before - digits.length) '0' ++ wholeEnd
    else digits.take before ++ '.' :: digits.drop before

/-- One digit before the point, the others after it, and a signed exponent. -/
def scientific (digits : List Char) (exponent : Int) : List Char :=
  let mantissa :=
    match digits with
    | [] => ['0']
    | [d] => [d]
    | d :: r => d :: '.' :: r
  let sign := if exponent < 0 then '-' else '+'
  mantissa ++ 'e' :: sign :: Nat.toDigits 10 exponent.natAbs

/-- The text of a positive decimal. -/
def text (layout : Layout) (d : Decimal) : List Char :=
  if layout.positional (d.point - 1) then positional layout.wholeEnd d.digits d.point
  else scientific d.digits (d.point - 1)

end Decimal

namespace Binary64

/-- The text of a finite double. -/
def finiteText (layout : Layout) (x : Float) : List Char :=
  let bits := magnitude x
  let sign := if isNegative x then ['-'] else []
  if bits = 0 then sign ++ '0' :: layout.wholeEnd
  else sign ++ (Decimal.shortest layout.tie bits).text layout

/-- Positional at every size, whole numbers bare, the greater of two shortest decimals. -/
def plain : Layout := ⟨fun _ => true, [], .up⟩

/-- Positional from `0.00001` to below `10 ^ 16` with a digit after the point, else with an
exponent; the even one of two shortest decimals. -/
def document : Layout := ⟨fun e => -5 ≤ e ∧ e ≤ 15, ".0".toList, .even⟩

/-- The plain text of a double. -/
def plainText (x : Float) : String :=
  if x.isNaN then "NaN"
  else if x.isFinite then String.ofList (finiteText plain x)
  else if isNegative x then "-inf"
  else "inf"

/-- The text of a finite double in a document. -/
def documentText (x : Float) : String := String.ofList (finiteText document x)

end Binary64

end LiveScene
