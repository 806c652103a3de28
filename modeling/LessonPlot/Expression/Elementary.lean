namespace LessonPlot

/-- The functions of one argument that an expression may call. -/
inductive Elementary where
  | sin
  | cos
  | tan
  | asin
  | acos
  | atan
  | abs
  | sqrt
  | cbrt
  | log
  | log2
  | log10
  | exp
  | floor
  | ceil
  | round
deriving DecidableEq, Repr

namespace Elementary

def all : List Elementary :=
  [sin, cos, tan, asin, acos, atan, abs, sqrt, cbrt, log, log2, log10, exp, floor, ceil, round]

def name : Elementary → String
  | sin => "sin"
  | cos => "cos"
  | tan => "tan"
  | asin => "asin"
  | acos => "acos"
  | atan => "atan"
  | abs => "abs"
  | sqrt => "sqrt"
  | cbrt => "cbrt"
  | log => "log"
  | log2 => "log2"
  | log10 => "log10"
  | exp => "exp"
  | floor => "floor"
  | ceil => "ceil"
  | round => "round"

def ofName? (name : String) : Option Elementary :=
  all.find? (fun f => f.name = name)

end Elementary

/-- The functions of two or more arguments. -/
inductive Extremum where
  | min
  | max
deriving DecidableEq, Repr

namespace Extremum

def name : Extremum → String
  | min => "min"
  | max => "max"

def ofName? (name : String) : Option Extremum :=
  [min, max].find? (fun f => f.name = name)

end Extremum

/-- The named numbers, which no variable can be called. -/
def constantNames : List String := ["PI", "E"]

end LessonPlot
