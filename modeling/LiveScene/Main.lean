import LiveScene.CommandLine.Outcome

/-!
# LiveScene.Main

The command line: reads the files that a command names, and prints its answer.
-/

namespace LiveScene

/-- A line about a failure. -/
def Failure.message : Failure → String
  | usage =>
    "usage: replay LOG [--config FILE] [--frames COUNT] [--press NODE]... | tree LOG"
  | unreadable => "a file cannot be read"
  | document => "a file does not hold what it should"
  | refused fault => fault.message
  | clock => "the time does not fit the clock"

/-- The text of a file, if it can be read. -/
def readText (name : String) : IO (Option String) := do
  try
    pure (some (← IO.FS.readFile name))
  catch _ => pure none

/-- A seed that differs from run to run. -/
def freshSeed : IO UInt64 := do
  pure (UInt64.ofNat (← IO.monoNanosNow))

/-- Reports a failure, and answers its exit code. -/
def fail (failure : Failure) : IO UInt32 := do
  IO.eprintln failure.message
  pure failure.exitCode

/-- Answers a request with the files that it names. -/
def answer (request : Request) : IO UInt32 := do
  let texts ← request.files.mapM fun name => do pure (name, ← readText name)
  match request.run (fun name => (lookupEntry name texts).join) (.ofSeed (← freshSeed)) with
  | .ok output =>
    IO.print output
    pure 0
  | .error failure => fail failure

end LiveScene

/-- The entry point. -/
def main (args : List String) : IO UInt32 :=
  match LiveScene.Request.ofArgs? args with
  | some request => LiveScene.answer request
  | none => LiveScene.fail .usage
