import LiveScene.Json.NumberReader

/-!
# LiveScene.Json.Token

The tokens of a document's text: six marks, texts in quotes, and words, which are the
unquoted runs of letters, digits, signs and points. Words are the numbers and the three
constants; every other word is refused.

A text may also be *skimmed*, for the sake of values that nobody will look at. Then a number
that overflows is `Number.unreadable`, and quotes may hold half of a pair of units, which makes
them `garbled`: a token that stands where a text does and has no characters.
-/

namespace LiveScene.Json

/-- A token of a document. -/
inductive Token where
  | openArray
  | closeArray
  | openObject
  | closeObject
  | comma
  | colon
  /-- A text in quotes. -/
  | text (s : String)
  /-- Quotes around what is no text. -/
  | garbled
  /-- A number or constant. -/
  | value (j : Json)

/-! ### Texts in quotes -/

/-- A piece of a quoted text: a character, or a unit of sixteen bits given by its number. -/
inductive Piece where
  | char (c : Char)
  | unit (n : Nat)
deriving Repr, DecidableEq

/-- The value of a digit in base sixteen. -/
def hexDigit? (c : Char) : Option Nat :=
  if c.isDigit then some (c.toNat - '0'.toNat)
  else if 'a' ≤ c ∧ c ≤ 'f' then some (c.toNat - 'a'.toNat + 10)
  else if 'A' ≤ c ∧ c ≤ 'F' then some (c.toNat - 'A'.toNat + 10)
  else none

/-- The number of four digits in base sixteen. -/
def hexUnit? (a b c d : Char) : Option Nat := do
  pure (((← hexDigit? a) * 16 + (← hexDigit? b)) * 256
    + ((← hexDigit? c) * 16 + (← hexDigit? d)))

/-- The character of a one-letter escape. -/
def escapedChar? (c : Char) : Option Char :=
  if c = '"' ∨ c = '\\' ∨ c = '/' then some c
  else if c = 'b' then some '\x08'
  else if c = 'f' then some '\x0c'
  else if c = 'n' then some '\n'
  else if c = 'r' then some '\r'
  else if c = 't' then some '\t'
  else none

/-- The pieces up to the closing quote, and what follows it. Control characters must be
escaped. -/
def pieces? : List Char → Option (List Piece × List Char)
  | [] => none
  | '"' :: r => some ([], r)
  | '\\' :: 'u' :: a :: b :: c :: d :: r => do
    let n ← hexUnit? a b c d
    let (ps, rest) ← pieces? r
    pure (.unit n :: ps, rest)
  | '\\' :: e :: r => do
    let c ← escapedChar? e
    let (ps, rest) ← pieces? r
    pure (.char c :: ps, rest)
  | c :: r =>
    if c = '\\' ∨ c.toNat < 0x20 then none
    else do
      let (ps, rest) ← pieces? r
      pure (.char c :: ps, rest)

/-- The characters of pieces. Units from `D800` to `DFFF` count only in pairs, a high one
before a low one. -/
def join? : List Piece → Option (List Char)
  | [] => some []
  | .char c :: r => (join? r).map (c :: ·)
  | .unit n :: r =>
    if n < 0xD800 ∨ 0xDFFF < n then (join? r).map (Char.ofNat n :: ·)
    else if 0xDBFF < n then none
    else
      match r with
      | .unit m :: r' =>
        if 0xDC00 ≤ m ∧ m ≤ 0xDFFF then
          (join? r').map (Char.ofNat (0x10000 + (n - 0xD800) * 0x400 + (m - 0xDC00)) :: ·)
        else none
      | _ => none

/-! ### Scanning -/

/-- Blanks between tokens. -/
def isSpace (c : Char) : Bool := c = ' ' || c = '\n' || c = '\r' || c = '\t'

/-- The characters of words. -/
def isWordChar (c : Char) : Bool := c.isAlphanum || c = '+' || c = '-' || c = '.'

/-- The value of a word. -/
def wordValue? (skim : Bool) (cs : List Char) : Option Json :=
  if cs = "true".toList then some (.bool true)
  else if cs = "false".toList then some (.bool false)
  else if cs = "null".toList then some .null
  else (Number.ofChars? skim cs).map .num

/-- The mark that a character is. -/
def mark? (c : Char) : Option Token :=
  if c = '[' then some .openArray
  else if c = ']' then some .closeArray
  else if c = '\x7b' then some .openObject
  else if c = '\x7d' then some .closeObject
  else if c = ',' then some .comma
  else if c = ':' then some .colon
  else none

/-- The first token of a text that does not start with a blank, and what follows it. -/
def token? (skim : Bool) : List Char → Option (Token × List Char)
  | [] => none
  | '"' :: r => do
    let (ps, rest) ← pieces? r
    match join? ps with
    | some cs => some (.text (String.ofList cs), rest)
    | none => if skim then some (.garbled, rest) else none
  | c :: r =>
    match mark? c with
    | some mark => some (mark, r)
    | none => do
      let (word, rest) := (c :: r).span isWordChar
      let j ← wordValue? skim word
      pure (.value j, rest)

/-- The tokens of a text. Each takes at least one character, so `limit`, the length of the
text, is never used up. -/
def scan? (skim : Bool) : (limit : Nat) → List Char → Option (List Token)
  | 0, cs => if cs = [] then some [] else none
  | limit + 1, cs =>
    match cs.dropWhile isSpace with
    | [] => some []
    | c :: r => do
      let (token, rest) ← token? skim (c :: r)
      let tokens ← scan? skim limit rest
      pure (token :: tokens)

/-- The tokens of a text. -/
def tokens? (skim : Bool) (cs : List Char) : Option (List Token) := scan? skim cs.length cs

end LiveScene.Json
