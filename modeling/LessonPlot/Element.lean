import LessonPlot.Interval
import LessonPlot.Scope

namespace LessonPlot

inductive LineStyle where
  | solid
  | dashed
  | dotted
deriving DecidableEq, Repr

namespace LineStyle

def name : LineStyle → String
  | solid => "solid"
  | dashed => "dashed"
  | dotted => "dotted"

def ofName? (name : String) : Option LineStyle :=
  [solid, dashed, dotted].find? (fun style => style.name = name)

/-- The lengths of a dash and of the gap after it; a solid line has none. -/
def dash : LineStyle → Option (Float × Float)
  | solid => none
  | dashed => some (6, 6)
  | dotted => some (3, 3)

end LineStyle

/-- What every element has. -/
structure Appearance where
  id : String
  color : String
  strokeWidth : Option Float
  style : LineStyle
  label : Option String

/-- A curve traced by two expressions over a parameter of its own. -/
structure Parametric where
  x : String
  y : String
  range : Option Interval
  steps : Option Nat
  variableName : Option String

/-- The coordinates of the two ends of a line. -/
structure Segment where
  x1 : String
  y1 : String
  x2 : String
  y2 : String
deriving DecidableEq

/-- What an element shows; all coordinates are texts of expressions. -/
inductive Shape where
  | function (expression : String)
  | parametric (curve : Parametric)
  | point (x y : String) (radius : Option Float)
  | line (ends : Segment)
  | vector (ends : Segment)
  | vLine (x : String)
  | hLine (y : String)
  | area (y1 y2 : String) (opacity : Option Float)
  | text (x y content : String) (fontSize : Option Float)

structure Element where
  appearance : Appearance
  shape : Shape

namespace Parametric

/-- One turn of a circle. -/
def defaultRange : Interval :=
  ⟨0, 6.28318530717958647692528676655900577⟩

def defaultSteps : Nat := 100

def curveRange (curve : Parametric) : Interval :=
  curve.range.getD defaultRange

def stepCount (curve : Parametric) : Nat :=
  curve.steps.getD defaultSteps

/-- The one name other than those of the interactive parameter that the two expressions use, if
there is exactly one and it can name a variable. -/
def inferredVariable (curve : Parametric) : Option String :=
  match variableNames curve.x, variableNames curve.y with
  | .ok inX, .ok inY =>
    let own := (inX ++ inY).eraseDups.filter fun name =>
      name ≠ Scope.parameter && name ≠ Scope.parameterAlways
    match own with
    | [name] => if isBindable name then some name else none
    | _ => none
  | _, _ => none

/-- The name of the parameter of the curve: the one given, else the inferred one, else `t`. -/
def curveVariable (curve : Parametric) : String :=
  match curve.variableName with
  | some name => name
  | none => curve.inferredVariable.getD Scope.parameter

end Parametric

namespace Shape

/-- The word for the kind of a shape. -/
def kind : Shape → String
  | function _ => "function"
  | parametric _ => "parametric"
  | point .. => "point"
  | line _ => "line"
  | vector _ => "vector"
  | vLine _ => "v-line"
  | hLine _ => "h-line"
  | area .. => "area"
  | text .. => "text"

def kinds : List String :=
  ["function", "parametric", "point", "line", "vector", "v-line", "h-line", "area", "text"]

/-- The names that the expressions of a shape may use. -/
def scope : Shape → Scope
  | function _ | area .. => Scope.function
  | parametric curve => Scope.curve curve.curveVariable
  | point .. | line _ | vector _ | vLine _ | hLine _ | text .. => Scope.parameterOnly

end Shape

namespace Segment

def expressions (ends : Segment) : List (String × String) :=
  [("x1", ends.x1), ("y1", ends.y1), ("x2", ends.x2), ("y2", ends.y2)]

end Segment

namespace Shape

/-- Every expression of a shape under the name of its field. -/
def expressions : Shape → List (String × String)
  | function expression => [("expression", expression)]
  | parametric curve => [("xExpression", curve.x), ("yExpression", curve.y)]
  | point x y _ => [("x", x), ("y", y)]
  | line ends | vector ends => ends.expressions
  | vLine x => [("x", x)]
  | hLine y => [("y", y)]
  | area y1 y2 _ => [("y1", y1), ("y2", y2)]
  | text x y _ _ => [("x", x), ("y", y)]

end Shape

namespace Element

def id (element : Element) : String :=
  element.appearance.id

end Element

end LessonPlot
