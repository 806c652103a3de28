import LessonPlot.Evaluation.Columns
import LessonPlot.Grid
import LessonPlot.Scope

namespace LessonPlot

/-- A value if it is a finite number; anything else is a gap. -/
def finiteValue (value : Float) : Option Float :=
  if value.isFinite then some value else none

/-- Evaluates expressions of a function scope over one grid at one value of the interactive
parameter, with registers that all of them share. -/
structure Sampler where
  abscissae : List Float
  parameter : Float
  registers : Registers Float

namespace Sampler

def new (domain : Interval) (resolution : Nat) (parameter : Float) : Sampler :=
  let abscissae := grid domain resolution
  ⟨abscissae, parameter, Registers.new abscissae.length⟩

def columns (sampler : Sampler) : List (Column Float) :=
  [sampler.abscissae, List.replicate sampler.abscissae.length sampler.parameter]

/-- The values at every abscissa as they come out. -/
def evaluate (expression : RealExpression Float) (sampler : Sampler) :
    Except ColumnFault (Column Float × Sampler) := do
  let (values, registers) ← expression.evaluate sampler.columns sampler.registers
  .ok (values, { sampler with registers })

/-- The values at every abscissa with a gap for each that is not finite. -/
def values (expression : RealExpression Float) (sampler : Sampler) :
    Except ColumnFault (List (Option Float) × Sampler) := do
  let (raw, sampler) ← sampler.evaluate expression
  let registers := sampler.registers.recycleReal raw
  .ok (raw.map finiteValue, { sampler with registers })

/-- Each abscissa with its value or gap. -/
def sample (expression : RealExpression Float) (sampler : Sampler) :
    Except ColumnFault (List (Float × Option Float) × Sampler) := do
  let (values, sampler) ← sampler.values expression
  .ok (List.zip sampler.abscissae values, sampler)

/-- A column without any value. -/
def gaps (sampler : Sampler) : List (Option Float) :=
  List.replicate sampler.abscissae.length none

end Sampler

end LessonPlot
