import LessonPlot.Expression.Elementary

namespace LessonPlot

inductive Arithmetic where
  | add
  | subtract
  | multiply
  | divide
  | power
  | extremum (which : Extremum)
deriving DecidableEq, Repr

inductive Comparison where
  | equal
  | notEqual
  | less
  | lessEqual
  | greater
  | greaterEqual
deriving DecidableEq, Repr

inductive Connective where
  | and
  | or
deriving DecidableEq, Repr

mutual

/-- An expression for a number; a variable is the slot that its values are in. -/
inductive RealExpression (α : Type) where
  | literal (value : α)
  | slot (index : Nat)
  | negate (operand : RealExpression α)
  | call (function : Elementary) (argument : RealExpression α)
  | binary (op : Arithmetic) (left right : RealExpression α)
  | select (condition : BoolExpression α) (chosen otherwise : RealExpression α)

/-- An expression for a truth value. -/
inductive BoolExpression (α : Type) where
  | compare (op : Comparison) (left right : RealExpression α)
  | connect (op : Connective) (left right : BoolExpression α)
  | not (operand : BoolExpression α)

end

inductive Expression (α : Type) where
  | real (expression : RealExpression α)
  | boolean (expression : BoolExpression α)

inductive ValueType where
  | real
  | boolean
deriving DecidableEq, Repr

namespace ValueType

def name : ValueType → String
  | real => "real"
  | boolean => "boolean"

end ValueType

namespace Expression

variable {α : Type}

def valueType : Expression α → ValueType
  | .real _ => .real
  | .boolean _ => .boolean

end Expression

end LessonPlot
