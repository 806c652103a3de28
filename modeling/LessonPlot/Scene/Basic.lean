import LessonPlot.Control
import LessonPlot.Element

namespace LessonPlot

/-- How a line is drawn: its color, width, and dashes unless it is solid. -/
structure Stroke where
  color : String
  width : Float
  dash : Option (Float × Float)

/-- How the values of a line are joined. -/
inductive Interpolation where
  | monotone
  | step
deriving DecidableEq, Repr

/-- The values of a curve or of a band, row for row with the abscissae; a gap is no value. -/
inductive SeriesValues where
  | line (interpolation : Interpolation) (values : List (Option Float))
  | band (opacity : Float) (values : List (Option (Float × Float)))

structure Series where
  id : String
  stroke : Stroke
  label : Option String
  values : SeriesValues

/-- All curves and bands, sampled at the same abscissae. -/
structure CurveTable where
  abscissae : List Float
  series : List Series

structure ParametricCurve where
  id : String
  stroke : Stroke
  label : Option String
  points : List (Float × Float)

/-- What is drawn at coordinates that are evaluated once. -/
inductive Mark where
  | point (color : String) (x y radius : Float) (label : Option String)
  | segment (stroke : Stroke) (tail tip : Float × Float) (arrow : Bool) (label : Option String)
  | vLine (stroke : Stroke) (x : Float) (label : Option String)
  | hLine (stroke : Stroke) (y : Float) (label : Option String)
  | text (color : String) (x y : Float) (content : String) (fontSize : Float)

structure PlacedMark where
  id : String
  mark : Mark

/-- A plot at one value of its parameter, with literal coordinates only. -/
structure Scene where
  parameter : Readout
  xDomain : Interval
  yDomain : Interval
  curves : CurveTable
  parametric : List ParametricCurve
  annotations : List PlacedMark

/-- Whether a text has a part somewhere in it. -/
def occursIn (part : List Char) : List Char → Bool
  | [] => part.isEmpty
  | c :: rest => part.isPrefixOf (c :: rest) || occursIn part rest

namespace Interpolation

def name : Interpolation → String
  | monotone => "monotone"
  | step => "step"

/-- The elements whose identifier says `step` somewhere are staircases. -/
def ofId (id : String) : Interpolation :=
  if occursIn "step".toList id.toList then step else monotone

end Interpolation

namespace SeriesValues

/-- The word for the kind of a series. -/
def kind : SeriesValues → String
  | line .. => "line"
  | band .. => "band"

end SeriesValues

namespace CurveTable

/-- The first series with a given identifier. -/
def find? (table : CurveTable) (id : String) : Option Series :=
  table.series.find? (fun series => series.id = id)

end CurveTable

end LessonPlot
