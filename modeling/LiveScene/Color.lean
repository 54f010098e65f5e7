import LiveScene.Decimal.Printer
import LiveScene.Decimal.Reader
import LiveScene.Text.Blank
import LiveScene.Text.Search

/-!
# LiveScene.Color

Colours with channels from 0 to 255 and an opacity from 0 to 1.

A colour is written `#rgb`, `#rrggbb`, `#rrggbbaa`, `rgb(r, g, b)` or `rgba(r, g, b, a)`.
Numbers out of range are moved into it. Mixing works on each channel without rounding; only
the text has whole channels, and an opacity of three places.
-/

namespace LiveScene

/-- A colour. -/
structure Color where
  red : Float
  green : Float
  blue : Float
  /-- The opacity. -/
  alpha : Float
deriving DecidableEq

namespace Color

/-- No colour at all. -/
def transparent : Color := ⟨0, 0, 0, 0⟩

/-- A colour with its numbers moved into their ranges. -/
def clamped (red green blue alpha : Float) : Color :=
  ⟨Binary64.clamp 0 255 red, Binary64.clamp 0 255 green, Binary64.clamp 0 255 blue,
    Binary64.clamp 0 1 alpha⟩

/-- The point at `t` of the way from one colour to another. -/
def mix (c d : Color) (t : Float) : Color :=
  let channel (x y : Float) : Float := x + (y - x) * t
  ⟨channel c.red d.red, channel c.green d.green, channel c.blue d.blue,
    channel c.alpha d.alpha⟩

/-! ### Reading -/

/-- The value of a digit in base sixteen. -/
def hexValue? (c : Char) : Option Nat :=
  if c.isDigit then some (c.toNat - '0'.toNat)
  else if 'a' ≤ c ∧ c ≤ 'f' then some (c.toNat - 'a'.toNat + 10)
  else if 'A' ≤ c ∧ c ≤ 'F' then some (c.toNat - 'A'.toNat + 10)
  else none

/-- The channel of two digits. -/
def channel (high low : Nat) : Float := Binary64.ofInt (16 * high + low : Nat)

/-- The colour of three, six or eight digits in base sixteen. -/
def ofHexDigits? : List Nat → Option Color
  | [r, g, b] => some ⟨channel r r, channel g g, channel b b, 1⟩
  | [r, r', g, g', b, b'] => some ⟨channel r r', channel g g', channel b b', 1⟩
  | [r, r', g, g', b, b', a, a'] =>
    some ⟨channel r r', channel g g', channel b b', channel a a' / 255⟩
  | _ => none

/-- The numbers between commas. -/
def numbers? (cs : List Char) : Option (List Float) :=
  (Text.splitAt ',' cs).mapM fun part => Binary64.ofText? (Text.trim part)

/-- What stands before a closing parenthesis at the end. -/
def beforeClose? (cs : List Char) : Option (List Char) := Text.before? [')'] cs

/-- The colour that a text writes. -/
def ofChars? (cs : List Char) : Option Color :=
  match Text.trim cs with
  | '#' :: digits => (digits.mapM hexValue?).bind ofHexDigits?
  | trimmed =>
    match Text.after? "rgba(".toList trimmed with
    | some body =>
      match (beforeClose? body).bind numbers? with
      | some [r, g, b, a] => some (clamped r g b a)
      | _ => none
    | none =>
      match (Text.after? "rgb(".toList trimmed).bind fun body =>
        (beforeClose? body).bind numbers? with
      | some [r, g, b] => some (clamped r g b 1)
      | _ => none

/-- The colour that a text writes. -/
def ofText? (s : String) : Option Color := ofChars? s.toList

/-! ### Writing -/

/-- The text of a colour: channels rounded to whole numbers, the opacity to three places. -/
def display (c : Color) : String :=
  let alpha := Binary64.round (c.alpha * 1000) / 1000
  "rgba(" ++ Binary64.plainText (Binary64.round c.red) ++ ", "
    ++ Binary64.plainText (Binary64.round c.green) ++ ", "
    ++ Binary64.plainText (Binary64.round c.blue) ++ ", " ++ Binary64.plainText alpha ++ ")"

end Color

end LiveScene
