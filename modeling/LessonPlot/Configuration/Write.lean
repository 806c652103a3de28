import LessonPlot.Configuration.Basic
import LessonPlot.Json.Write

namespace LessonPlot

namespace Interval

def toJson (range : Interval) : Json :=
  Json.ofPair (range.min, range.max)

end Interval

namespace Appearance

def members (appearance : Appearance) : List (String × Json) :=
  [("id", .string appearance.id), ("color", .string appearance.color)] ++
    Json.optional "strokeWidth" Json.ofFloat appearance.strokeWidth ++
    [("style", .string appearance.style.name)] ++
    Json.optional "label" Json.string appearance.label

end Appearance

namespace Shape

/-- The members of an expression each under its name. -/
def expressionMembers (shape : Shape) : List (String × Json) :=
  shape.expressions.map fun (name, source) => (name, .string source)

/-- The members of a shape after its expressions. -/
def otherMembers : Shape → List (String × Json)
  | parametric curve =>
    Json.optional "tRange" Interval.toJson curve.range ++
      Json.optional "steps" (fun steps => .number (.natural steps)) curve.steps ++
      Json.optional "curveVariable" Json.string curve.variableName
  | point _ _ radius => Json.optional "r" Json.ofFloat radius
  | area _ _ opacity => Json.optional "opacity" Json.ofFloat opacity
  | text _ _ content fontSize =>
    ("content", .string content) :: Json.optional "fontSize" Json.ofFloat fontSize
  | function _ | line _ | vector _ | vLine _ | hLine _ => []

end Shape

namespace Element

def toJson (element : Element) : Json :=
  .object (("type", .string element.shape.kind) ::
    (element.appearance.members ++ element.shape.expressionMembers ++ element.shape.otherMembers))

end Element

namespace Configuration

def toJson (configuration : Configuration) : Json :=
  .object
    [("xDomain", configuration.xDomain.toJson),
      ("yDomain", configuration.yDomain.toJson),
      ("paramRange", configuration.parameterRange.toJson),
      ("paramLabel", .string configuration.parameterLabel),
      ("elements", .array (configuration.elements.map Element.toJson))]

/-- The text of a configuration, without any blanks. -/
def save (configuration : Configuration) : String :=
  configuration.toJson.compact

end Configuration

end LessonPlot
