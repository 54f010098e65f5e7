import LiveScene.CommandLine.Help
import LiveScene.Event.Document
import LiveScene.Scene

/-!
# LiveScene.CommandLine.Outcome

What the command line answers, from its arguments and the texts of files.

A replay applies a log, then presses nodes and runs frames: each press and each frame takes one
step of the clock, so that presses come on frames that follow each other.
-/

namespace LiveScene

/-- Why a command does not end well. -/
inductive Failure where
  /-- The arguments ask for nothing. -/
  | usage
  /-- A file cannot be read. -/
  | unreadable
  /-- A file holds no document of its kind. -/
  | document
  /-- A request was refused. -/
  | refused (fault : Fault)
  /-- The time does not fit a duration. -/
  | clock
deriving DecidableEq

/-- The exit code of a failure. -/
def Failure.exitCode : Failure → UInt32
  | usage => 2
  | clock => 101
  | unreadable | document | refused _ => 1

namespace Command

/-- The texts of files by their names. -/
abbrev Files := String → Option String

/-- The document in a file. -/
def document {α : Type} (files : Files) (read? : String → Option α) (name : String) :
    Except Failure α :=
  match files name with
  | none => .error .unreadable
  | some text =>
    match read? text with
    | some a => .ok a
    | none => .error .document

/-- The log in a file. -/
def logIn (files : Files) (name : String) : Except Failure (List Event) :=
  document files Event.logOfText? name

/-- The settings in a file, or those that hold without one. -/
def settingsIn (files : Files) : Option String → Except Failure Settings
  | some name => document files Settings.ofText? name
  | none => .ok {}

/-! ### Replaying -/

/-- A scene and its clock. -/
structure Playback where
  scene : Scene
  now : Duration

/-- The playback, unless the timers of its scene have failed. -/
def Playback.checked (p : Playback) : Except Failure Playback :=
  if p.scene.performer.scheduler.overflowed then .error .clock else .ok p

/-- One step of the clock, with its frame and its poll. -/
def Playback.step (p : Playback) : Except Failure Playback :=
  match p.now.add? p.scene.settings.frame.interval with
  | none => .error .clock
  | some now => do
    let p ← ({ scene := (p.scene.frame now).1, now := now } : Playback).checked
    ({ p with scene := (p.scene.poll now).1 } : Playback).checked

/-- A press of a node, and a step. -/
def Playback.press (p : Playback) (node : String) : Except Failure Playback :=
  match p.scene.handle node .press ∅ p.now with
  | (_, .error fault) => .error (.refused fault)
  | (scene, .ok _) => do (← ({ p with scene := scene } : Playback).checked).step

/-- Several steps. -/
def Playback.steps : Nat → Playback → Except Failure Playback
  | 0, p => .ok p
  | n + 1, p => do steps n (← p.step)

/-- The name of the scene that is replayed. -/
def replayName : String := "replay"

/-- The name of the scene whose graph is printed. -/
def treeName : String := "tree"

/-- The scene of a log. -/
def sceneOf (owner : String) (settings : Settings) (chance : Chance) (log : List Event) : Scene :=
  ((Scene.new owner settings (.animator {}) chance).sync log).1

/-- The values of all cells as a document. -/
def cellsDocument (cells : CellStore) : Json :=
  .obj (cells.snapshot.entries.map fun e => (e.1, e.2.toJson))

/-- What a command prints. -/
def run (files : Files) (chance : Chance) : Command → Except Failure String
  | replay log config frames presses => do
    let settings ← settingsIn files config
    let log ← logIn files log
    let start : Playback := ⟨sceneOf replayName settings chance log, .zero⟩
    let pressed ← presses.foldlM Playback.press start
    let last ← Playback.steps frames pressed
    pure ((cellsDocument last.scene.cells).prettyText ++ "\n")
  | tree log => do
    let log ← logIn files log
    pure ((sceneOf treeName {} chance log).graph.toJson.prettyText ++ "\n")

end Command

namespace Request

/-- What is printed for a request. -/
def run (files : Command.Files) (chance : Chance) : Request → Except Failure String
  | command c => c.run files chance
  | help topic => .ok topic.page.text
  | version => .ok HelpTopic.versionText

/-- What is printed for arguments. -/
def runArgs (files : Command.Files) (chance : Chance) (args : List String) :
    Except Failure String :=
  match ofArgs? args with
  | some request => request.run files chance
  | none => .error .usage

/-- The files that a request needs. -/
def files : Request → List String
  | command c => c.files
  | help _ | version => []

end Request

end LiveScene
