import LessonPlot.Element
import LessonPlot.Evaluation.Columns
import LessonPlot.Grid

namespace LessonPlot

/-- The two coordinates of a parametric curve, the curve variable in the first slot and the
interactive parameter in the second. -/
structure Curve where
  x : RealExpression Float
  y : RealExpression Float

namespace Curve

def compile (curve : Parametric) : Except ParseError Curve := do
  let scope := Scope.curve curve.curveVariable
  let x ← scope.compile curve.x
  let y ← scope.compile curve.y
  .ok ⟨x, y⟩

/-- The points of the curve along a range of its variable, those that are not finite left out. -/
def trace (curve : Curve) (range : Interval) (steps : Nat) (parameter : Float) :
    Except ColumnFault (List (Float × Float)) := do
  let along := grid range steps
  let columns := [along, List.replicate along.length parameter]
  let (xs, registers) ← curve.x.evaluate columns (Registers.new along.length)
  let (ys, _) ← curve.y.evaluate columns registers
  .ok ((List.zip xs ys).filter fun point => point.1.isFinite && point.2.isFinite)

end Curve

end LessonPlot
