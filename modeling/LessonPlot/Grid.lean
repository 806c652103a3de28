import LessonPlot.Interval

namespace LessonPlot

/-- The number of steps where none is asked for. -/
def defaultResolution : Nat := 150

/-- The largest number of samples of one element. -/
def maxSamples : Nat := 300

/-- The value `index` steps along an interval of which one step is a `steps`-th part. -/
def gridValue (range : Interval) (steps index : Nat) : Float :=
  if index = steps then range.max
  else if range.span.isFinite then
    range.min + range.span * Float.ofNat index / Float.ofNat steps
  else
    let fraction := Float.ofNat index / Float.ofNat steps
    range.min * (1 - fraction) + range.max * fraction

/-- The number of steps of a grid for which some number is asked. -/
def clampedSteps (steps : Nat) : Nat :=
  min (max steps 1) (maxSamples - 1)

/-- Evenly spaced values that cover an interval, both ends included: one value if the ends are
equal, none if one of them is not finite. -/
def grid (range : Interval) (steps : Nat) : List Float :=
  if !range.isFinite then []
  else if range.span == 0 then [range.min]
  else
    let steps := clampedSteps steps
    (List.range (steps + 1)).map (gridValue range steps)

end LessonPlot
