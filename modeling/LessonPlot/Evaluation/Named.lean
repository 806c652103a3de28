import LessonPlot.Evaluation.Columns
import LessonPlot.Scope

namespace LessonPlot

/-- The reasons for which a text has no value under given bindings. -/
inductive EvaluationError where
  | refused (error : ParseError)
  | faulty (fault : ColumnFault)
deriving DecidableEq, Repr

/-- Puts the value of a binding into the column of its name, if the name has a slot. -/
def fillColumn (scope : Scope) (binding : String × Float) (columns : List (Column Float)) :
    List (Column Float) :=
  match scope.slot? binding.1 with
  | some index => columns.set index [binding.2]
  | none => columns

/-- The columns of a scope, of one row each, as bindings fill them: from the last binding to the
first, so that of two bindings of a name the first one stays. -/
def filledColumns (scope : Scope) (bindings : List (String × Float)) : List (Column Float) :=
  bindings.foldr (fillColumn scope) (List.replicate scope.slots [Scalar.notANumber])

/-- The value of a text under bindings of names to numbers. -/
def tryEvaluate (text : String) (bindings : List (String × Float)) :
    Except EvaluationError Float := do
  let scope := Scope.ofNames (bindings.map Prod.fst)
  let expression ← (scope.compile text).mapError .refused
  let (output, _) ←
    (expression.evaluate (filledColumns scope bindings) (Registers.new 1)).mapError .faulty
  .ok (output.head?.getD Scalar.notANumber)

/-- As `tryEvaluate`, with no number where there is no value. -/
def evaluate (text : String) (bindings : List (String × Float)) : Float :=
  match tryEvaluate text bindings with
  | .ok value => value
  | .error _ => Scalar.notANumber

end LessonPlot
