import LiveScene.CommandLine.Arguments

/-!
# LiveScene.CommandLine.Help

The pages of help. A page says what a command does and how it is called, and lists what belongs
to it in sections of two columns. The left column of a section is as wide as its widest entry.
-/

namespace LiveScene

/-- A part of a page: two columns under a title. -/
structure HelpSection where
  title : String
  /-- What is to be typed, and what it means. -/
  rows : List (String × String)

/-- A page of help. -/
structure HelpPage where
  /-- What the command does. -/
  about : String
  /-- How it is called. -/
  usage : String
  sections : List HelpSection

namespace HelpSection

/-- The width of the left column. -/
def width (s : HelpSection) : Nat := s.rows.foldl (fun w row => max w row.1.length) 0

/-- A row, its left part filled up to a width. -/
def rowText (width : Nat) (row : String × String) : String :=
  let filling := String.ofList (List.replicate (width - row.1.length) ' ')
  "  " ++ row.1 ++ filling ++ "  " ++ row.2 ++ "\n"

/-- The text of a section. -/
def text (s : HelpSection) : String :=
  s.title ++ ":\n" ++ String.join (s.rows.map (rowText s.width))

end HelpSection

/-- The text of a page; a blank line divides its parts. -/
def HelpPage.text (p : HelpPage) : String :=
  p.about ++ "\n\nUsage: " ++ p.usage ++ "\n"
    ++ String.join (p.sections.map fun s => "\n" ++ s.text)

namespace HelpTopic

/-- The name that the command line is called by. -/
def programName : String := "treeweave"

/-- What is printed for the version. -/
def versionText : String := "treeweave-app 0.1.0\n"

/-- What `replay` does. -/
def aboutReplay : String := "Replay an event log, drive frames and presses, and print the cells"

/-- What `tree` does. -/
def aboutTree : String := "Replay an event log and print the synthesized node graph"

/-- What `help` does. -/
def aboutHelp : String := "Print this message or the help of the given subcommand(s)"

/-- The section on the log. -/
def logSection : HelpSection := ⟨"Arguments", [("<LOG>", "JSON array of events")]⟩

/-- The row on the request for help. -/
def helpRow : String × String := ("-h, --help", "Print help")

/-- The page on a topic. -/
def page : HelpTopic → HelpPage
  | overview =>
    { about := "Replays Treeweave event logs"
      usage := programName ++ " <COMMAND>"
      sections :=
        [⟨"Commands", [("replay", aboutReplay), ("tree", aboutTree), ("help", aboutHelp)]⟩,
          ⟨"Options", [helpRow, ("-V, --version", "Print version")]⟩] }
  | replay =>
    { about := aboutReplay
      usage := programName ++ " replay [OPTIONS] <LOG>"
      sections :=
        [logSection,
          ⟨"Options",
            [("-c, --config <CONFIG>", "Runtime configuration file"),
              ("-f, --frames <FRAMES>", "Frames to run after the presses [default: 0]"),
              ("-p, --press <PRESS>", "Node to press; repeatable"), helpRow]⟩] }
  | tree =>
    { about := aboutTree
      usage := programName ++ " tree <LOG>"
      sections := [logSection, ⟨"Options", [helpRow]⟩] }
  | help =>
    { about := aboutHelp
      usage := programName ++ " help [COMMAND]..."
      sections := [⟨"Arguments", [("[COMMAND]...", "Print help for the subcommand(s)")]⟩] }

end HelpTopic

end LiveScene
