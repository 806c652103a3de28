import LessonPlot.CommandLine.Options
import LessonPlot.Decimal.Numeral
import LessonPlot.Grid
import LessonPlot.Text.Space

namespace LessonPlot

inductive Topic where
  | program
  | render
  | eval
  | validate
  | help
deriving DecidableEq, Repr

/-- What a command line asks for. -/
inductive Request where
  | render (path : String) (control : Float) (resolution : Nat) (pretty : Bool)
  | eval (expression : String) (bindings : List (String × Float))
  | validate (path : String)
  | help (topic : Topic)
  | version

namespace Request

/-- A binding `name=value`, blanks around either part ignored. -/
def binding? (text : String) : Option (String × Float) :=
  match text.toList.dropWhile (· ≠ '=') with
  | [] => none
  | _ :: value =>
    (readScalar? (String.ofList (trimSpace value))).map fun value =>
      (String.ofList (trimSpace (text.toList.takeWhile (· ≠ '='))), value)

def renderSpec : CommandSpec where
  options :=
    [⟨"value", some 'v', true, false, fun text => (readScalar? text : Option Float).isSome⟩,
      ⟨"resolution", some 'r', true, false, fun text => (readCount? text).isSome⟩,
      ⟨"pretty", some 'p', false, false, fun _ => true⟩]
  accepts path := !path.isEmpty

def evalSpec : CommandSpec where
  options := [⟨"var", none, true, true, fun text => (binding? text).isSome⟩]
  accepts _ := true

def validateSpec : CommandSpec where
  options := []
  accepts path := !path.isEmpty

/-- The control at which a scene is drawn if none is given. -/
def defaultControl : Float := 50

def readRender (words : List String) : Except Refusal Request := do
  let given ← renderSpec.take none words .empty
  let control := ((given.values "value").head?.bind readScalar?).getD defaultControl
  let resolution := ((given.values "resolution").head?.bind readCount?).getD defaultResolution
  match given.argument with
  | some path => .ok (render path control resolution (given.has "pretty"))
  | none => .error .usage

def readEval (words : List String) : Except Refusal Request := do
  let given ← evalSpec.take none words .empty
  match given.argument with
  | some expression => .ok (eval expression ((given.values "var").filterMap binding?))
  | none => .error .usage

def readValidate (words : List String) : Except Refusal Request := do
  let given ← validateSpec.take none words .empty
  match given.argument with
  | some path => .ok (validate path)
  | none => .error .usage

/-- What follows the command `help`: nothing, or one command. -/
def readHelp : List String → Except Refusal Request
  | [] => .ok (help .program)
  | ["render"] => .ok (help .render)
  | ["eval"] => .ok (help .eval)
  | ["validate"] => .ok (help .validate)
  | ["help"] => .ok (help .help)
  | _ => .error .usage

/-- Turns a wish for help into a request for it. -/
def orHelp (topic : Topic) : Except Refusal Request → Except Refusal Request
  | .error .help => .ok (help topic)
  | result => result

/-- Options before any command: the first letter or name decides. -/
def readGlobal (word : List Char) : Except Refusal Request :=
  match word with
  | '-' :: 'h' :: _ => .ok (help .program)
  | '-' :: 'V' :: _ => .ok version
  | ['-', '-', 'h', 'e', 'l', 'p'] => .ok (help .program)
  | ['-', '-', 'v', 'e', 'r', 's', 'i', 'o', 'n'] => .ok version
  | _ => .error .usage

/-- Reads a command line. -/
def read : List String → Except Refusal Request
  | [] => .error .usage
  | word :: rest =>
    match word with
    | "render" => orHelp .render (readRender rest)
    | "eval" => orHelp .eval (readEval rest)
    | "validate" => orHelp .validate (readValidate rest)
    | "help" => readHelp rest
    | word => readGlobal word.toList

/-- The file that has to be read for a request. -/
def path? : Request → Option String
  | render path _ _ _ => some path
  | validate path => some path
  | _ => none

end Request

end LessonPlot
