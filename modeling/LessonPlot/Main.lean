import LessonPlot.CommandLine.Run

namespace LessonPlot

/-- The content of a file, if it can be read as text. -/
def readFile? (path : String) : IO (Option String) := do
  try
    return some (← IO.FS.readFile path)
  catch _ =>
    return none

end LessonPlot

/-- Carries out the command line, prints what it asks for and returns the exit code. -/
def main (words : List String) : IO UInt32 := do
  match LessonPlot.Request.read words with
  | .error _ => return LessonPlot.Outcome.badUsage.exitCode.toUInt32
  | .ok request =>
    let content ←
      match request.path? with
      | some path => LessonPlot.readFile? path
      | none => pure none
    let outcome := request.run content
    IO.print outcome.output
    return outcome.exitCode.toUInt32
