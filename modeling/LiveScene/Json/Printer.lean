import LiveScene.Json.Basic

/-!
# LiveScene.Json.Printer

The two written forms of a document: compact, and indented by two spaces a level.
-/

namespace LiveScene.Json

/-- The digits of a number below 256 in base sixteen. -/
def hexByte (n : Nat) : List Char := [Nat.digitChar (n / 16 % 16), Nat.digitChar (n % 16)]

/-- A character inside quotes: quotes, backslashes and control characters are escaped, the
usual ones by a letter. -/
def escaped (c : Char) : List Char :=
  if c = '"' then ['\\', '"']
  else if c = '\\' then ['\\', '\\']
  else if c = '\x08' then ['\\', 'b']
  else if c = '\x0c' then ['\\', 'f']
  else if c = '\n' then ['\\', 'n']
  else if c = '\r' then ['\\', 'r']
  else if c = '\t' then ['\\', 't']
  else if c.toNat < 0x20 then '\\' :: 'u' :: '0' :: '0' :: hexByte c.toNat
  else [c]

/-- A text in quotes. -/
def quoted (s : String) : List Char := '"' :: s.toList.flatMap escaped ++ ['"']

/-- A value that holds no other. -/
def scalarChars : Json → List Char
  | bool true => "true".toList
  | bool false => "false".toList
  | num n => n.text.toList
  | str s => quoted s
  | _ => "null".toList

/-! ### Compact -/

mutual

/-- The compact form, without a blank outside quotes. -/
def chars : Json → List Char
  | arr items => '[' :: itemsChars items ++ [']']
  | obj members => '\x7b' :: membersChars members ++ ['\x7d']
  | j => scalarChars j

/-- The compact forms of items with commas between them. -/
def itemsChars : List Json → List Char
  | [] => []
  | j :: r =>
    match r with
    | [] => chars j
    | _ => chars j ++ ',' :: itemsChars r

/-- The compact forms of members with commas between them. -/
def membersChars : List (String × Json) → List Char
  | [] => []
  | (name, j) :: r =>
    match r with
    | [] => quoted name ++ ':' :: chars j
    | _ => quoted name ++ ':' :: chars j ++ ',' :: membersChars r

end

/-- The compact text of a document. -/
def text (j : Json) : String := String.ofList (chars j)

/-! ### Indented -/

/-- The start of a line at a level. -/
def newline (level : Nat) : List Char := '\n' :: List.replicate (2 * level) ' '

mutual

/-- The indented form at a level. Empty arrays and objects stay on one line. -/
def prettyChars (level : Nat) : Json → List Char
  | arr [] => "[]".toList
  | arr items => '[' :: prettyItems (level + 1) items ++ newline level ++ [']']
  | obj [] => ['\x7b', '\x7d']
  | obj members => '\x7b' :: prettyMembers (level + 1) members ++ newline level ++ ['\x7d']
  | j => scalarChars j

/-- Items, each on a line of its own. -/
def prettyItems (level : Nat) : List Json → List Char
  | [] => []
  | j :: r =>
    match r with
    | [] => newline level ++ prettyChars level j
    | _ => newline level ++ prettyChars level j ++ ',' :: prettyItems level r

/-- Members, each on a line of its own. -/
def prettyMembers (level : Nat) : List (String × Json) → List Char
  | [] => []
  | (name, j) :: r =>
    match r with
    | [] => newline level ++ quoted name ++ ':' :: ' ' :: prettyChars level j
    | _ =>
      newline level ++ quoted name ++ ':' :: ' ' :: prettyChars level j ++
        ',' :: prettyMembers level r

end

/-- The indented text of a document. -/
def prettyText (j : Json) : String := String.ofList (prettyChars 0 j)

end LiveScene.Json
