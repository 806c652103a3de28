import LessonPlot.Decimal.Numeral
import LessonPlot.Expression.Error
import LessonPlot.Formula.Grouping

namespace LessonPlot

variable {α : Type}

namespace Expression

def toReal : Expression α → Except ParseError (RealExpression α)
  | .real expression => .ok expression
  | .boolean _ => .error (.typeMismatch .real .boolean)

def toBoolean : Expression α → Except ParseError (BoolExpression α)
  | .boolean expression => .ok expression
  | .real _ => .error (.typeMismatch .boolean .real)

/-- Two numbers under an operator that gives a number. -/
def arithmetic (op : Arithmetic) (left right : Expression α) :
    Except ParseError (Expression α) := do
  let left ← left.toReal
  let right ← right.toReal
  .ok (.real (.binary op left right))

/-- Two numbers under an operator that compares them. -/
def comparison (op : Comparison) (left right : Expression α) :
    Except ParseError (Expression α) := do
  let left ← left.toReal
  let right ← right.toReal
  .ok (.boolean (.compare op left right))

/-- Two truth values under an operator that connects them. -/
def connection (op : Connective) (left right : Expression α) :
    Except ParseError (Expression α) := do
  let left ← left.toBoolean
  let right ← right.toBoolean
  .ok (.boolean (.connect op left right))

def join : InfixOp → Expression α → Expression α → Except ParseError (Expression α)
  | .or => connection .or
  | .and => connection .and
  | .equal => comparison .equal
  | .notEqual => comparison .notEqual
  | .lessEqual => comparison .lessEqual
  | .greaterEqual => comparison .greaterEqual
  | .less => comparison .less
  | .greater => comparison .greater
  | .add => arithmetic .add
  | .subtract => arithmetic .subtract
  | .multiply => arithmetic .multiply
  | .divide => arithmetic .divide
  | .power => arithmetic .power

/-- An operand after a prefix operator; a plus leaves no node. -/
def sign (op : PrefixOp) (operand : Expression α) : Except ParseError (Expression α) :=
  match op with
  | .minus => do .ok (.real (.negate (← operand.toReal)))
  | .plus => do .ok (.real (← operand.toReal))
  | .not => do .ok (.boolean (.not (← operand.toBoolean)))

def choose (condition : BoolExpression α) (chosen otherwise : RealExpression α) : Expression α :=
  .real (.select condition chosen otherwise)

end Expression

/-- The expression of grouped operands, each of which is built or was refused; of two that were
refused the left one counts, and operands count before their operator. -/
def Grouped.build : Grouped (Except ParseError (Expression α)) → Except ParseError (Expression α)
  | .operand value => value
  | .signed op inner => do
    let inner ← inner.build
    Expression.sign op inner
  | .joined op left right => do
    let left ← left.build
    let right ← right.build
    Expression.join op left right

/-- What a name before an argument list stands for. -/
inductive Callee where
  | elementary (function : Elementary)
  | extremum (which : Extremum)
deriving DecidableEq, Repr

namespace Callee

def ofName? (name : String) : Option Callee :=
  match Elementary.ofName? name with
  | some function => some (elementary function)
  | none => (Extremum.ofName? name).map extremum

/-- A call; more than two arguments of an extremum nest to the left. -/
def apply (name : String) (arguments : List (RealExpression α)) :
    Callee → Except ParseError (Expression α)
  | elementary function =>
    match arguments with
    | [argument] => .ok (.real (.call function argument))
    | _ => .error (.arity name .one arguments.length)
  | extremum which =>
    match arguments with
    | first :: second :: rest =>
      .ok (.real ((second :: rest).foldl (.binary (.extremum which)) first))
    | _ => .error (.arity name .atLeastTwo arguments.length)

end Callee

variable [Scalar α]

/-- The value of a constant, or the slot of a variable. -/
def nameExpression (slotOf : String → Option Nat) (name : String) :
    Except ParseError (Expression α) :=
  if name = "PI" then .ok (.real (.literal Scalar.pi))
  else if name = "E" then .ok (.real (.literal Scalar.euler))
  else
    match slotOf name with
    | some index => .ok (.real (.slot index))
    | none => .error (.unboundVariable name)

def literalExpression (text : String) : Except ParseError (Expression α) :=
  match readScalar? text with
  | some value => .ok (.real (.literal value))
  | none => .error (.invalidLiteral text)

mutual

/-- The typed expression that a formula stands for, given the slots of its variables. -/
def Formula.build (slotOf : String → Option Nat) : Formula → Except ParseError (Expression α)
  | .operation operands => (operands.row slotOf).group.build
  | .choice condition chosen otherwise => do
    let condition ← (condition.row slotOf).group.build
    let condition ← condition.toBoolean
    let chosen ← chosen.build slotOf
    let chosen ← chosen.toReal
    let otherwise ← otherwise.build slotOf
    let otherwise ← otherwise.toReal
    .ok (Expression.choose condition chosen otherwise)

def Operation.row (slotOf : String → Option Nat) :
    Operation → Row (Except ParseError (Expression α))
  | .last signs operand => .last signs (operand.build slotOf)
  | .link signs operand op rest => .link signs (operand.build slotOf) op (rest.row slotOf)

def Primary.build (slotOf : String → Option Nat) : Primary → Except ParseError (Expression α)
  | .number text => literalExpression text
  | .name text => nameExpression slotOf text
  | .call callee arguments =>
    match Callee.ofName? callee with
    | none => .error (.unknownFunction callee)
    | some function => do
      let arguments ← arguments.build slotOf
      function.apply callee arguments
  | .group inner => inner.build slotOf

def Arguments.build (slotOf : String → Option Nat) :
    Arguments → Except ParseError (List (RealExpression α))
  | .none => .ok []
  | .cons first rest => do
    let first ← first.build slotOf
    let first ← first.toReal
    let rest ← rest.build slotOf
    .ok (first :: rest)

end

end LessonPlot
