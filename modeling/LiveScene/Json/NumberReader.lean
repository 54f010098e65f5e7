import LiveScene.Decimal.Reader
import LiveScene.Json.Basic

/-!
# LiveScene.Json.NumberReader

Numbers of a document from their text.

* An integer that fits sixty-four bits, unsigned or signed, stays an integer. Minus zero and
  longer integers become doubles.
* A double is read in machine arithmetic: the digits are gathered in a word of sixty-four bits
  until one more would not fit, and the word is then scaled once by a power of ten. For up to
  fifteen digits and small exponents this is the closest double; in general it may be a
  neighbour of it.
* A number that overflows is refused.
-/

namespace LiveScene.Json

/-- The greatest word of sixty-four bits. -/
def greatestWord : Nat := UInt64.size - 1

/-- The greatest exponent that is counted digit by digit. -/
def greatestExponent : Nat := (1 <<< 31) - 1

/-- The closest double to a power of ten, exact for the first twenty-two. -/
def powerOfTen (n : Nat) : Float := Binary64.signed false (Decimal.nearest ⟨1, n⟩)

/-- The value of a digit. -/
def digitValue (c : Char) : Nat := c.toNat - '0'.toNat

/-- Appends digits to a word for as long as they fit, and returns those that are left. -/
def gather (word : Nat) : List Char → Nat × List Char
  | [] => (word, [])
  | c :: r =>
    let next := 10 * word + digitValue c
    if greatestWord < next then (word, c :: r) else gather next r

/-- Divides by ten to the power of `places`, at most `10 ^ 308` at a time; `rounds` bounds the
number of divisions. -/
def scaleDown (places : Nat) (x : Float) : (rounds : Nat) → Float
  | 0 => x
  | rounds + 1 =>
    if places ≤ 308 then x / powerOfTen places
    else if x == 0 then x
    else scaleDown (places - 308) (x / powerOfTen 308) rounds

/-- The word scaled by a power of ten, if that is finite. -/
def scaled? (word : Nat) (exponent : Int) : Option Float :=
  let x := Binary64.ofInt word
  if exponent < 0 then
    let places := exponent.natAbs
    some (scaleDown places x (places / 308 + 1))
  else if exponent ≤ 308 then
    let y := x * powerOfTen exponent.toNat
    if y.isFinite then some y else none
  else if word = 0 then some x
  else none

/-- The parts of a number's text. -/
structure NumberParts where
  /-- Whether a minus sign leads. -/
  negative : Bool
  /-- The digits before the point, without a zero in front of others. -/
  whole : List Char
  /-- The digits after the point, if there is one. -/
  fraction : Option (List Char)
  /-- The sign and digits of the exponent, if there is one; true for minus. -/
  exponent : Option (Bool × List Char)
deriving Repr, DecidableEq

/-- The sign and digits after an exponent's mark. -/
def exponentParts : List Char → Bool × List Char
  | '-' :: r => (true, r)
  | '+' :: r => (false, r)
  | r => (false, r)

/-- The exponent, if a mark leads, and whether the text ends after it as it must. -/
def exponentOf? : List Char → Option (Option (Bool × List Char))
  | [] => some none
  | mark :: r =>
    if mark = 'e' ∨ mark = 'E' then
      let (negative, digits) := exponentParts r
      if digits ≠ [] ∧ digits.all Char.isDigit then some (some (negative, digits)) else none
    else none

/-- The fraction, if a point leads, and what follows it. A point needs a digit. -/
def fractionOf? : List Char → Option (Option (List Char) × List Char)
  | '.' :: r =>
    let (digits, rest) := r.span Char.isDigit
    if digits = [] then none else some (some digits, rest)
  | r => some (none, r)

/-- The sign of a number, and what follows it. -/
def signOf : List Char → Bool × List Char
  | '-' :: r => (true, r)
  | r => (false, r)

/-- The parts of a text, if it is a number of a document. -/
def NumberParts.ofChars? (cs : List Char) : Option NumberParts := do
  let (negative, unsigned) := signOf cs
  let (whole, afterWhole) := unsigned.span Char.isDigit
  if whole = [] ∨ (whole.head? = some '0' ∧ whole.length ≠ 1) then none
  else
    let (fraction, afterFraction) ← fractionOf? afterWhole
    let exponent ← exponentOf? afterFraction
    pure ⟨negative, whole, fraction, exponent⟩

/-- The double of a gathered word and the digits of its exponent. -/
def withExponent? (word : Nat) (places : Int) : Option (Bool × List Char) → Option Float
  | none => scaled? word places
  | some (down, digits) =>
    let size := digitsValue digits
    if greatestExponent < size then
      if word ≠ 0 ∧ !down then none else some 0
    else scaled? word (if down then places - size else places + size)

/-- The number of a text's parts. -/
def NumberParts.value? (p : NumberParts) : Option Number :=
  let (word, left) := gather 0 p.whole
  match left, p.fraction, p.exponent with
  | [], none, none =>
    if p.negative then
      if word = 0 ∨ 1 <<< 63 < word then some (.float (-Binary64.ofInt word))
      else some (.int (-(word : Int)))
    else some (.int word)
  | _, _, _ =>
    let digits := p.fraction.getD []
    let (word', rest) := gather word digits
    let places : Int := (left.length : Int) - (digits.length - rest.length : Nat)
    (withExponent? word' places p.exponent).map fun x =>
      .float (if p.negative then -x else x)

/-- The number that is read where a text that is only skimmed holds what cannot be read. No text
writes it. -/
def Number.unreadable : Number := .float (Binary64.signed false Binary64.infinity)

/-- The number that a text writes; one that overflows is refused unless it is only skimmed. -/
def Number.ofChars? (skim : Bool) (cs : List Char) : Option Number := do
  let parts ← NumberParts.ofChars? cs
  match parts.value? with
  | some n => some n
  | none => if skim then some .unreadable else none

end LiveScene.Json
