import LessonPlot.Formula.Basic

namespace LessonPlot

/-- Operands in a row as an `Operation` has them, with operands of any type. -/
inductive Row (α : Type) where
  | last (signs : List PrefixOp) (operand : α)
  | link (signs : List PrefixOp) (operand : α) (op : InfixOp) (rest : Row α)
deriving Repr

/-- A row of operands with every operator over what it applies to. -/
inductive Grouped (α : Type) where
  | operand (value : α)
  | signed (sign : PrefixOp) (inner : Grouped α)
  | joined (op : InfixOp) (left right : Grouped α)
deriving Repr

/-- How tightly an operator draws the operand on its left. -/
def InfixOp.leftPower : InfixOp → Nat
  | or => 10
  | and => 20
  | equal | notEqual => 30
  | less | lessEqual | greater | greaterEqual => 40
  | add | subtract => 50
  | multiply | divide => 60
  | power => 80

/-- How tightly an operator draws the operand on its right: powers nest to the right, all other
operators to the left. -/
def InfixOp.rightPower : InfixOp → Nat
  | power => 79
  | op => op.leftPower

/-- How tightly a prefix operator draws its operand: more than a product, less than a power. -/
def PrefixOp.rightPower (_ : PrefixOp) : Nat := 69

/-- An operator that waits for the operand on its right. -/
inductive Pending (α : Type) where
  | sign (op : PrefixOp)
  | operator (op : InfixOp) (left : Grouped α)

namespace Pending

variable {α : Type}

def power : Pending α → Nat
  | .sign op => op.rightPower
  | .operator op _ => op.rightPower

def close : Pending α → Grouped α → Grouped α
  | .sign op, right => .signed op right
  | .operator op left, right => .joined op left right

/-- Gives an operand to the pending operators that draw it at least as tightly as `power`. -/
def settle (power : Nat) (value : Grouped α) :
    List (Pending α) → Grouped α × List (Pending α)
  | [] => (value, [])
  | top :: below =>
    if top.power < power then (value, top :: below) else settle power (top.close value) below

/-- Gives an operand to all pending operators, the innermost first. -/
def closeAll (value : Grouped α) (pending : List (Pending α)) : Grouped α :=
  pending.foldl (fun value top => top.close value) value

end Pending

namespace Row

variable {α : Type}

/-- Groups a row under operators that are already pending, the innermost first. -/
def groupUnder (pending : List (Pending α)) : Row α → Grouped α
  | .last signs operand =>
    Pending.closeAll (.operand operand) (signs.reverse.map Pending.sign ++ pending)
  | .link signs operand op rest =>
    let (left, pending) :=
      Pending.settle op.leftPower (.operand operand) (signs.reverse.map Pending.sign ++ pending)
    rest.groupUnder (.operator op left :: pending)

/-- Groups a row by the binding powers of its operators. -/
def group (row : Row α) : Grouped α :=
  row.groupUnder []

end Row

end LessonPlot
