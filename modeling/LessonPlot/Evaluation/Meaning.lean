import LessonPlot.Expression.Basic
import LessonPlot.Scalar

namespace LessonPlot

variable {α : Type} [Scalar α]

def Arithmetic.apply : Arithmetic → α → α → α
  | .add => fun x y => x + y
  | .subtract => fun x y => x - y
  | .multiply => fun x y => x * y
  | .divide => fun x y => x / y
  | .power => Scalar.power
  | .extremum which => Scalar.extremum which

def Comparison.holds : Comparison → α → α → Bool
  | .equal => Scalar.equal
  | .notEqual => fun x y => !Scalar.equal x y
  | .less => Scalar.less
  | .lessEqual => Scalar.lessEqual
  | .greater => fun x y => Scalar.less y x
  | .greaterEqual => fun x y => Scalar.lessEqual y x

def Connective.apply : Connective → Bool → Bool → Bool
  | .and => fun a b => a && b
  | .or => fun a b => a || b

mutual

/-- The value of an expression in one row, given what each slot holds there. -/
def RealExpression.valueAt (row : Nat → α) : RealExpression α → α
  | .literal value => value
  | .slot index => row index
  | .negate operand => -operand.valueAt row
  | .call function argument => Scalar.apply function (argument.valueAt row)
  | .binary op left right => op.apply (left.valueAt row) (right.valueAt row)
  | .select condition chosen otherwise =>
    if condition.valueAt row then chosen.valueAt row else otherwise.valueAt row

/-- The truth value of an expression in one row, given what each slot holds there. -/
def BoolExpression.valueAt (row : Nat → α) : BoolExpression α → Bool
  | .compare op left right => op.holds (left.valueAt row) (right.valueAt row)
  | .connect op left right => op.apply (left.valueAt row) (right.valueAt row)
  | .not operand => !operand.valueAt row

end

end LessonPlot
