import LessonPlot.Expression.Basic

namespace LessonPlot

variable {α : Type}

mutual

/-- The number of nodes on the longest path from the root to a leaf. -/
def RealExpression.depth : RealExpression α → Nat
  | .literal _ => 1
  | .slot _ => 1
  | .negate operand => operand.depth + 1
  | .call _ argument => argument.depth + 1
  | .binary _ left right => max left.depth right.depth + 1
  | .select condition chosen otherwise =>
    max condition.depth (max chosen.depth otherwise.depth) + 1

/-- The number of nodes on the longest path from the root to a leaf. -/
def BoolExpression.depth : BoolExpression α → Nat
  | .compare _ left right => max left.depth right.depth + 1
  | .connect _ left right => max left.depth right.depth + 1
  | .not operand => operand.depth + 1

end

mutual

def RealExpression.size : RealExpression α → Nat
  | .literal _ => 1
  | .slot _ => 1
  | .negate operand => operand.size + 1
  | .call _ argument => argument.size + 1
  | .binary _ left right => left.size + right.size + 1
  | .select condition chosen otherwise => condition.size + chosen.size + otherwise.size + 1

def BoolExpression.size : BoolExpression α → Nat
  | .compare _ left right => left.size + right.size + 1
  | .connect _ left right => left.size + right.size + 1
  | .not operand => operand.size + 1

end

namespace Expression

def depth : Expression α → Nat
  | .real expression => expression.depth
  | .boolean expression => expression.depth

def size : Expression α → Nat
  | .real expression => expression.size
  | .boolean expression => expression.size

/-- The expressions directly below the root. -/
def children : Expression α → List (Expression α)
  | .real (.literal _) => []
  | .real (.slot _) => []
  | .real (.negate operand) => [.real operand]
  | .real (.call _ argument) => [.real argument]
  | .real (.binary _ left right) => [.real right, .real left]
  | .real (.select condition chosen otherwise) =>
    [.real otherwise, .real chosen, .boolean condition]
  | .boolean (.compare _ left right) => [.real right, .real left]
  | .boolean (.connect _ left right) => [.boolean right, .boolean left]
  | .boolean (.not operand) => [.boolean operand]

/-- The nodes of all expressions that wait on a stack. -/
def waitingSize : List (Expression α × Nat) → Nat
  | [] => 0
  | (node, _) :: stack => node.size + waitingSize stack

theorem waitingSize_append (front back : List (Expression α × Nat)) :
    waitingSize (front ++ back) = waitingSize front + waitingSize back := by
  induction front with
  | nil => simp [waitingSize]
  | cons entry front ih => simp only [List.cons_append, waitingSize, ih]; omega

/-- What stands below the root is everything but the root. -/
theorem waitingSize_children (e : Expression α) (level : Nat) :
    waitingSize (e.children.map (·, level)) + 1 = e.size := by
  rcases e with (_ | _ | _ | _ | _ | _) | (_ | _ | _) <;>
    simp [children, waitingSize, size, RealExpression.size, BoolExpression.size] <;> omega

/-- The deepest level met by a walk over nodes that wait on a stack, each with its own level; it
takes no more room for a deep tree than for a wide one. -/
def deepestLevel (deepest : Nat) : List (Expression α × Nat) → Nat
  | [] => deepest
  | (node, level) :: stack =>
    deepestLevel (max deepest level) (node.children.map (·, level + 1) ++ stack)
termination_by stack => waitingSize stack
decreasing_by
  have h := waitingSize_children node (level + 1)
  rw [waitingSize_append, waitingSize]
  omega

/-- The depth as a walk with a stack finds it. -/
def walkedDepth (e : Expression α) : Nat :=
  deepestLevel 0 [(e, 1)]

end Expression

end LessonPlot
