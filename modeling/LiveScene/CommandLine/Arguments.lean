import LiveScene.Text.Search

/-!
# LiveScene.CommandLine.Arguments

The arguments of the command line.

* `replay LOG` takes options, each with a value: `-c` or `--config` a file, `-f` or `--frames` a
  count, and any number of times `-p` or `--press` a node. `tree LOG` takes none.
* The value of an option is the argument after it, which then must not look like an option, or
  stands in the same argument: `-f2`, `-f=2`, `--frames=2`.
* After `--` no argument is an option.
* `-h` or `--help` asks for the page of a command, or without one for the page of all; so does
  `help` with the name of a command. `-V` or `--version` in front asks for the version.
* Arguments are read from left to right. Who asks for a page gets it if nothing before was wrong;
  what follows does not count.
-/

namespace LiveScene

/-- What the command line can do. -/
inductive Command where
  /-- Replays a log with some presses and frames, and prints the cells. -/
  | replay (log : String) (config : Option String) (frames : Nat) (presses : List String)
  /-- Replays a log and prints the graph. -/
  | tree (log : String)
deriving Repr, DecidableEq

/-- What a page of help is about. -/
inductive HelpTopic where
  /-- The command line as a whole. -/
  | overview
  | replay
  | tree
  /-- The request for help itself. -/
  | help
deriving Repr, DecidableEq

/-- What the command line is asked for. -/
inductive Request where
  | command (command : Command)
  | help (topic : HelpTopic)
  | version
deriving Repr, DecidableEq

namespace Command

/-- The options with values. -/
inductive Flag where
  | config
  | frames
  | press
deriving Repr, DecidableEq

namespace Flag

/-- The option of a letter. -/
def ofLetter? : Char → Option Flag
  | 'c' => some config
  | 'f' => some frames
  | 'p' => some press
  | _ => none

/-- The option of a name. -/
def ofName? : String → Option Flag
  | "config" => some config
  | "frames" => some frames
  | "press" => some press
  | _ => none

end Flag

/-! ### Single arguments -/

/-- An argument, as far as it can be told by itself. -/
inductive Argument where
  /-- Two hyphens: all that follow are plain values. -/
  | separator
  /-- The request for a page of help. -/
  | help
  /-- An option, with its value if that stands in the same argument. -/
  | flag (flag : Flag) (value : Option String)
  /-- A plain value. -/
  | plain (value : String)

/-- The text after a sign of equality in front, if there is one. -/
def withoutEquals : List Char → List Char
  | '=' :: r => r
  | r => r

/-- An argument; nothing if it looks like an option and is none. The request for help takes no
value, but letters may follow its letter. -/
def Argument.ofText? (s : String) : Option Argument :=
  match s.toList with
  | ['-', '-'] => some separator
  | '-' :: '-' :: long =>
    if String.ofList long = "help" then some help
    else
      let name := long.takeWhile (· ≠ '=')
      let value := match long.dropWhile (· ≠ '=') with
        | '=' :: value => some (String.ofList value)
        | _ => none
      (Flag.ofName? (String.ofList name)).map (flag · value)
  | '-' :: 'h' :: _ => some help
  | '-' :: letter :: attached =>
    let value := if attached.isEmpty then none else some (String.ofList (withoutEquals attached))
    (Flag.ofLetter? letter).map (flag · value)
  | _ => some (plain s)

/-! ### Values -/

/-- The name of a file, which must not be empty. -/
def path? (s : String) : Option String := if s.isEmpty then none else some s

/-- The greatest number of frames. -/
def mostFrames : Nat := UInt32.size - 1

/-- A number of digits. -/
def natOfDigits? (cs : List Char) : Option Nat :=
  if cs ≠ [] ∧ cs.all Char.isDigit then
    some (cs.foldl (fun n c => 10 * n + (c.toNat - '0'.toNat)) 0)
  else none

/-- A number of frames: digits, with a sign in front if any. -/
def frames? (s : String) : Option Nat := do
  let n ← match s.toList with
    | '+' :: digits => natOfDigits? digits
    | '-' :: digits => (natOfDigits? digits).bind fun n => if n = 0 then some 0 else none
    | digits => natOfDigits? digits
  if n ≤ mostFrames then some n else none

/-! ### What the arguments after a command give -/

/-- What the arguments have given so far. -/
structure Draft where
  log : Option String := none
  config : Option String := none
  frames : Option Nat := none
  presses : List String := []

namespace Draft

/-- A plain value, of which there is one. -/
def plain? (d : Draft) (value : String) : Option Draft :=
  if d.log.isSome then none
  else do pure { d with log := some (← path? value) }

/-- The value of an option; only presses may be given again. -/
def option? (d : Draft) (flag : Flag) (value : String) : Option Draft :=
  match flag with
  | .config =>
    if d.config.isSome then none else do pure { d with config := some (← path? value) }
  | .frames =>
    if d.frames.isSome then none else do pure { d with frames := some (← frames? value) }
  | .press => some { d with presses := d.presses ++ [value] }

/-- What `replay` is asked for. -/
def replay? (d : Draft) : Option Command :=
  d.log.map (replay · d.config (d.frames.getD 0) d.presses)

/-- What `tree` is asked for. -/
def tree? (d : Draft) : Option Command := d.log.map tree

end Draft

/-- Where reading the arguments of a command ends. -/
inductive Gathered where
  | draft (d : Draft)
  /-- At a request for help. -/
  | help

/-- Reads arguments, of which some options are taken. -/
def gather? (taken : List Flag) : List String → Draft → Option Gathered
  | [], d => some (.draft d)
  | s :: r, d =>
    match Argument.ofText? s with
    | none => none
    | some .help => some .help
    | some .separator => (r.foldlM Draft.plain? d).map .draft
    | some (.plain value) => (d.plain? value).bind (gather? taken r)
    | some (.flag flag (some value)) =>
      if flag ∈ taken then (d.option? flag value).bind (gather? taken r) else none
    | some (.flag flag none) =>
      match r with
      | [] => none
      | t :: r =>
        match Argument.ofText? t with
        | some (.plain value) =>
          if flag ∈ taken then (d.option? flag value).bind (gather? taken r) else none
        | _ => none

end Command

namespace Request

open Command (Draft Flag Gathered gather?)

/-- What the arguments after a command ask for. -/
def ofGathered? (topic : HelpTopic) (finish : Draft → Option Command) :
    Gathered → Option Request
  | .draft d => (finish d).map command
  | .help => some (help topic)

/-- What the arguments after `help` ask for. -/
def ofTopic? : List String → Option Request
  | [] => some (help .overview)
  | ["replay"] => some (help .replay)
  | ["tree"] => some (help .tree)
  | ["help"] => some (help .help)
  | _ => none

/-- What an argument asks for that stands where a command should. -/
def ofOption? (s : String) : Option Request :=
  match s.toList with
  | '-' :: 'h' :: _ => some (help .overview)
  | '-' :: 'V' :: _ => some version
  | _ => if s = "--help" then some (help .overview) else if s = "--version" then some version
    else none

/-- What arguments ask for. -/
def ofArgs? : List String → Option Request
  | [] => none
  | "replay" :: r =>
    (gather? [.config, .frames, .press] r {}).bind (ofGathered? .replay Draft.replay?)
  | "tree" :: r => (gather? [] r {}).bind (ofGathered? .tree Draft.tree?)
  | "help" :: r => ofTopic? r
  | s :: _ => ofOption? s

end Request

namespace Command

/-- The files that a command reads. -/
def files : Command → List String
  | replay log config _ _ => config.toList ++ [log]
  | tree log => [log]

end Command

end LiveScene
