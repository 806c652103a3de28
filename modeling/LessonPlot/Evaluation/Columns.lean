import LessonPlot.Evaluation.Meaning
import LessonPlot.Evaluation.Registers

namespace LessonPlot

/-- What the columns given to an evaluation can lack. -/
inductive ColumnFault where
  | wrongLength (index : Nat)
  | missing (index : Nat)
deriving DecidableEq, Repr

/-- A step that works on a pool of registers and may meet a faulty column. -/
abbrev Evaluation (α β : Type) := Registers α → Except ColumnFault (β × Registers α)

/-- The column of a slot. -/
def columnOf {α : Type} (columns : List (Column α)) (index : Nat) :
    Except ColumnFault (Column α) :=
  match columns[index]? with
  | some column => .ok column
  | none => .error (.missing index)

/-- The values of an operand: a column of the input as it stands, or a register that is to be
handed back. -/
inductive Operand (α : Type) where
  | column (values : Column α)
  | register (values : Column α)

namespace Operand

variable {α : Type}

def values : Operand α → Column α
  | column values => values
  | register values => values

def recycle : Operand α → Registers α → Registers α
  | column _, pool => pool
  | register values, pool => pool.recycleReal values

/-- An expression as an operand: a variable is read where it stands, anything else is filled into a
register. -/
def of (columns : List (Column α)) (expression : RealExpression α)
    (fill : Evaluation α (Column α)) : Evaluation α (Operand α) := fun pool =>
  match expression with
  | .slot index => do
    let values ← columnOf columns index
    .ok (column values, pool)
  | _ => do
    let (values, pool) ← fill pool
    .ok (register values, pool)

end Operand

variable {α : Type} [Scalar α]

mutual

/-- The values of an expression in a register of the pool. A selection whose condition is the same
in every row reads only the side it takes. -/
def RealExpression.fill (columns : List (Column α)) : RealExpression α → Evaluation α (Column α)
  | .literal value, pool =>
    let (output, pool) := pool.takeReal
    .ok (output ++ List.replicate pool.length value, pool)
  | .slot index, pool => do
    let (output, pool) := pool.takeReal
    let values ← columnOf columns index
    .ok (output ++ values, pool)
  | .negate operand, pool => do
    let (operand, pool) ← Operand.of columns operand (operand.fill columns) pool
    let (output, pool) := pool.takeReal
    .ok (output ++ operand.values.map (fun x => -x), operand.recycle pool)
  | .call function argument, pool => do
    let (argument, pool) ← Operand.of columns argument (argument.fill columns) pool
    let (output, pool) := pool.takeReal
    .ok (output ++ argument.values.map (Scalar.apply function), argument.recycle pool)
  | .binary op left right, pool => do
    let (left, pool) ← Operand.of columns left (left.fill columns) pool
    let (right, pool) ← Operand.of columns right (right.fill columns) pool
    let (output, pool) := pool.takeReal
    let results := List.zipWith op.apply left.values right.values
    .ok (output ++ results, right.recycle (left.recycle pool))
  | .select condition chosen otherwise, pool => do
    let (mask, pool) ← condition.fill columns pool
    if mask.all id then chosen.fill columns (pool.recycleBoolean mask)
    else if !mask.any id then otherwise.fill columns (pool.recycleBoolean mask)
    else
      let (chosen, pool) ← Operand.of columns chosen (chosen.fill columns) pool
      let (otherwise, pool) ← Operand.of columns otherwise (otherwise.fill columns) pool
      let (output, pool) := pool.takeReal
      let pairs := List.zip chosen.values otherwise.values
      let results := List.zipWith (fun takes (pair : α × α) => if takes then pair.1 else pair.2)
        mask pairs
      .ok (output ++ results, otherwise.recycle (chosen.recycle (pool.recycleBoolean mask)))

/-- The truth values of an expression in a register of the pool. -/
def BoolExpression.fill (columns : List (Column α)) :
    BoolExpression α → Evaluation α (Column Bool)
  | .compare op left right, pool => do
    let (left, pool) ← Operand.of columns left (left.fill columns) pool
    let (right, pool) ← Operand.of columns right (right.fill columns) pool
    let (output, pool) := pool.takeBoolean
    let results := List.zipWith op.holds left.values right.values
    .ok (output ++ results, right.recycle (left.recycle pool))
  | .connect op left right, pool => do
    let (left, pool) ← left.fill columns pool
    let (right, pool) ← right.fill columns pool
    let (output, pool) := pool.takeBoolean
    let results := List.zipWith op.apply left right
    .ok (output ++ results, (pool.recycleBoolean left).recycleBoolean right)
  | .not operand, pool => do
    let (values, pool) ← operand.fill columns pool
    .ok (values.map (fun b => !b), pool)

end

/-- Refuses columns of which one has not the given length. -/
def checkLengths {β : Type} (length : Nat) (columns : List (Column β)) : Except ColumnFault Unit :=
  match columns.findIdx? (fun column => column.length ≠ length) with
  | some index => .error (.wrongLength index)
  | none => .ok ()

/-- The values of an expression in every row of the columns. -/
def RealExpression.evaluate (expression : RealExpression α) (columns : List (Column α)) :
    Evaluation α (Column α) := fun pool => do
  checkLengths pool.length columns
  expression.fill columns pool

/-- The values of an expression that reads no column. -/
def RealExpression.evaluateClosed (expression : RealExpression α) : Evaluation α (Column α) :=
  expression.evaluate []

/-- The truth values of an expression in every row of the columns. -/
def BoolExpression.evaluate (expression : BoolExpression α) (columns : List (Column α)) :
    Evaluation α (Column Bool) := fun pool => do
  checkLengths pool.length columns
  expression.fill columns pool

end LessonPlot
