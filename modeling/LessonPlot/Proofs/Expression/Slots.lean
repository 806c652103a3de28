import LessonPlot.Expression.Basic

namespace LessonPlot

variable {α : Type}

mutual

/-- The slots that an expression mentions, in the order of writing. -/
def RealExpression.slots : RealExpression α → List Nat
  | .literal _ => []
  | .slot index => [index]
  | .negate operand => operand.slots
  | .call _ argument => argument.slots
  | .binary _ left right => left.slots ++ right.slots
  | .select condition chosen otherwise =>
    condition.slots ++ chosen.slots ++ otherwise.slots

/-- The slots that an expression mentions, in the order of writing. -/
def BoolExpression.slots : BoolExpression α → List Nat
  | .compare _ left right => left.slots ++ right.slots
  | .connect _ left right => left.slots ++ right.slots
  | .not operand => operand.slots

end

end LessonPlot
