import LessonPlot.Decimal.Notation

namespace LessonPlot

/-- A closed interval, written `[min, max]`. -/
structure Interval where
  min : Float
  max : Float

namespace Interval

def span (range : Interval) : Float :=
  range.max - range.min

def isFinite (range : Interval) : Bool :=
  range.min.isFinite && range.max.isFinite

/-- Finite, and with more than one point. -/
def isProper (range : Interval) : Bool :=
  range.isFinite && range.min < range.max

def text (range : Interval) : String :=
  "[" ++ plainText range.min ++ ", " ++ plainText range.max ++ "]"

/-- Equal as numbers at both ends; an end that is no number equals nothing. -/
def agrees (a b : Interval) : Bool :=
  a.min == b.min && a.max == b.max

end Interval

end LessonPlot
