import LessonPlot.Configuration.Write
import LessonPlot.Scene.Basic

namespace LessonPlot

namespace Readout

def toJson (readout : Readout) : Json :=
  .object
    [("caption", .string readout.caption),
      ("value", Json.ofFloat readout.value),
      ("formatted", .string readout.formatted)]

end Readout

namespace Stroke

def toJson (stroke : Stroke) : Json :=
  .object
    ([("color", .string stroke.color), ("width", Json.ofFloat stroke.width)] ++
      Json.optional "dash" Json.ofPair stroke.dash)

end Stroke

namespace Json

/-- A value, or null where there is a gap. -/
def ofGap {β : Type} (write : β → Json) : Option β → Json
  | none => .null
  | some value => write value

end Json

namespace SeriesValues

def members : SeriesValues → List (String × Json)
  | line interpolation values =>
    [("kind", .string "line"), ("interpolation", .string interpolation.name),
      ("values", .array (values.map (Json.ofGap Json.ofFloat)))]
  | band opacity values =>
    [("kind", .string "band"), ("opacity", Json.ofFloat opacity),
      ("values", .array (values.map (Json.ofGap Json.ofPair)))]

end SeriesValues

namespace Series

def toJson (series : Series) : Json :=
  .object
    ([("id", .string series.id), ("stroke", series.stroke.toJson)] ++
      Json.optional "label" Json.string series.label ++ series.values.members)

end Series

namespace CurveTable

def toJson (table : CurveTable) : Json :=
  .object
    [("xs", .array (table.abscissae.map Json.ofFloat)),
      ("series", .array (table.series.map Series.toJson))]

end CurveTable

namespace ParametricCurve

def toJson (curve : ParametricCurve) : Json :=
  .object
    ([("id", .string curve.id), ("stroke", curve.stroke.toJson)] ++
      Json.optional "label" Json.string curve.label ++
      [("points", .array (curve.points.map Json.ofPair))])

end ParametricCurve

namespace Mark

/-- The word for the kind of a mark. -/
def kind : Mark → String
  | point .. => "point"
  | segment .. => "segment"
  | vLine .. => "v-line"
  | hLine .. => "h-line"
  | text .. => "text"

def members : Mark → List (String × Json)
  | point color x y radius label =>
    [("color", .string color), ("x", Json.ofFloat x), ("y", Json.ofFloat y),
      ("radius", Json.ofFloat radius)] ++ Json.optional "label" Json.string label
  | segment stroke tail tip arrow label =>
    [("stroke", stroke.toJson), ("from", Json.ofPair tail), ("to", Json.ofPair tip),
      ("arrow", .boolean arrow)] ++ Json.optional "label" Json.string label
  | vLine stroke x label =>
    [("stroke", stroke.toJson), ("x", Json.ofFloat x)] ++ Json.optional "label" Json.string label
  | hLine stroke y label =>
    [("stroke", stroke.toJson), ("y", Json.ofFloat y)] ++ Json.optional "label" Json.string label
  | text color x y content fontSize =>
    [("color", .string color), ("x", Json.ofFloat x), ("y", Json.ofFloat y),
      ("content", .string content), ("fontSize", Json.ofFloat fontSize)]

end Mark

namespace PlacedMark

def toJson (placed : PlacedMark) : Json :=
  .object
    ([("type", .string placed.mark.kind), ("id", .string placed.id)] ++
      placed.mark.members)

end PlacedMark

namespace Scene

def toJson (scene : Scene) : Json :=
  .object
    [("parameter", scene.parameter.toJson),
      ("xDomain", scene.xDomain.toJson),
      ("yDomain", scene.yDomain.toJson),
      ("curves", scene.curves.toJson),
      ("parametric", .array (scene.parametric.map ParametricCurve.toJson)),
      ("annotations", .array (scene.annotations.map PlacedMark.toJson))]

end Scene

end LessonPlot
