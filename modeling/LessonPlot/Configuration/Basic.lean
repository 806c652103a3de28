import LessonPlot.Element

namespace LessonPlot

/-- A plot: the visible domain, the range of the interactive parameter, and what is drawn. -/
structure Configuration where
  xDomain : Interval
  yDomain : Interval
  parameterRange : Interval
  parameterLabel : String
  elements : List Element

namespace Configuration

/-- The first element with a given identifier. -/
def find? (configuration : Configuration) (id : String) : Option Element :=
  configuration.elements.find? (fun element => element.id = id)

end Configuration

/-- Equal option for option, as numbers: no number equals nothing and the two zeros are equal. -/
def numbersAgree : Option Float → Option Float → Bool
  | none, none => true
  | some a, some b => a == b
  | _, _ => false

namespace Appearance

def agrees (a b : Appearance) : Bool :=
  a.id = b.id && a.color = b.color && numbersAgree a.strokeWidth b.strokeWidth &&
    a.style = b.style && a.label = b.label

end Appearance

namespace Parametric

def agrees (a b : Parametric) : Bool :=
  let ranges :=
    match a.range, b.range with
    | none, none => true
    | some range, some other => range.agrees other
    | _, _ => false
  a.x = b.x && a.y = b.y && ranges && a.steps = b.steps && a.variableName = b.variableName

end Parametric

namespace Shape

def agrees : Shape → Shape → Bool
  | function a, function b => a = b
  | parametric a, parametric b => a.agrees b
  | point x y radius, point x' y' radius' => x = x' && y = y' && numbersAgree radius radius'
  | line a, line b => a = b
  | vector a, vector b => a = b
  | vLine x, vLine x' => x = x'
  | hLine y, hLine y' => y = y'
  | area y1 y2 opacity, area y1' y2' opacity' =>
    y1 = y1' && y2 = y2' && numbersAgree opacity opacity'
  | text x y content size, text x' y' content' size' =>
    x = x' && y = y' && content = content' && numbersAgree size size'
  | _, _ => false

end Shape

namespace Element

def agrees (a b : Element) : Bool :=
  a.appearance.agrees b.appearance && a.shape.agrees b.shape

end Element

namespace Configuration

/-- Whether two configurations are equal in every field, numbers compared as numbers. -/
def agrees (a b : Configuration) : Bool :=
  a.xDomain.agrees b.xDomain && a.yDomain.agrees b.yDomain &&
    a.parameterRange.agrees b.parameterRange && a.parameterLabel = b.parameterLabel &&
    a.elements.length = b.elements.length &&
    (List.zipWith Element.agrees a.elements b.elements).all id

end Configuration

end LessonPlot
