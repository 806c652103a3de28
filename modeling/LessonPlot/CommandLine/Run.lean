import LessonPlot.CommandLine.Help
import LessonPlot.Configuration.Load
import LessonPlot.Evaluation.Named
import LessonPlot.Scene.Assemble
import LessonPlot.Scene.Write

namespace LessonPlot

/-- How a run of the program ends and what it prints. -/
structure Outcome where
  exitCode : Nat
  output : String
deriving DecidableEq, Repr

namespace Outcome

/-- A run that did what was asked for. -/
def success (output : String) : Outcome := ⟨0, output⟩

/-- A run that was asked for something it could not do. -/
def failure : Outcome := ⟨1, ""⟩

/-- A command line that asks for nothing the program knows. -/
def badUsage : Outcome := ⟨2, ""⟩

/-- A run that met a fault of its own. -/
def abort : Outcome := ⟨101, ""⟩

end Outcome

namespace Request

/-- The scene of a configuration as one line or as many. -/
def renderText (configuration : Configuration) (control : Float) (resolution : Nat)
    (pretty : Bool) : Except ColumnFault String := do
  let scene ← assemble configuration resolution control
  .ok (if pretty then scene.toJson.indented 0 else scene.toJson.compact)

/-- The problems of a configuration a line each, or the count of its elements if it has none. -/
def validation (configuration : Configuration) : Outcome :=
  let issues := configuration.issues
  if issues.isEmpty then
    .success s!"ok: {configuration.elements.length} element(s)\n"
  else ⟨1, String.join (issues.map fun issue => issue.message ++ "\n")⟩

/-- Carries out a request, given the content of its file if that could be read. -/
def run (content : Option String) : Request → Outcome
  | render _ control resolution pretty =>
    match content.map Configuration.load with
    | some (.ok configuration) =>
      match renderText configuration control resolution pretty with
      | .ok text => .success (text ++ "\n")
      | .error _ => .abort
    | _ => .failure
  | eval expression bindings =>
    match tryEvaluate expression bindings with
    | .ok value => .success (plainText value ++ "\n")
    | .error (.refused _) => .failure
    | .error (.faulty _) => .abort
  | validate _ =>
    match content.map Configuration.load with
    | some (.ok configuration) => validation configuration
    | _ => .failure
  | help topic => .success topic.text
  | version => .success (programName ++ " " ++ programVersion ++ "\n")

end Request

/-- Carries out a command line, given the contents of the files there are. -/
def runCommandLine (files : String → Option String) (words : List String) : Outcome :=
  match Request.read words with
  | .ok request => request.run (request.path?.bind files)
  | .error _ => .badUsage

end LessonPlot
