import LessonPlot.Expression.Parse

namespace LessonPlot

/-- Where an expression finds the values of its variables: each name has a slot, and several names
may share one. -/
structure Scope where
  names : List (String × Nat)
  slots : Nat
deriving DecidableEq, Repr

namespace Scope

/-- The abscissa in functions and areas. -/
def abscissa : String := "x"

/-- The interactive parameter, except in a parametric curve whose own variable has this name. -/
def parameter : String := "t"

/-- The interactive parameter everywhere. -/
def parameterAlways : String := "T"

def slot? (scope : Scope) (name : String) : Option Nat :=
  scope.names.lookup name

/-- Adds a name for a slot unless the name is already taken. -/
def bind (scope : Scope) (name : String) (index : Nat) : Scope :=
  if (scope.slot? name).isSome then scope
  else { scope with names := scope.names ++ [(name, index)] }

def empty : Scope := ⟨[], 0⟩

/-- Adds one slot with all of its names. -/
def addSlot (scope : Scope) (aliases : List String) : Scope :=
  let bound := aliases.foldl (fun bound name => bound.bind name scope.slots) scope
  { bound with slots := scope.slots + 1 }

/-- The abscissa, then the interactive parameter. -/
def function : Scope :=
  (empty.addSlot [abscissa]).addSlot [parameter, parameterAlways]

/-- The interactive parameter alone. -/
def parameterOnly : Scope :=
  empty.addSlot [parameter, parameterAlways]

/-- The curve variable, then the interactive parameter under the names that are left for it. -/
def curve (curveVariable : String) : Scope :=
  if curveVariable = parameter then (empty.addSlot [parameter]).addSlot [parameterAlways]
  else (empty.addSlot [curveVariable]).addSlot [parameter, parameterAlways]

/-- One slot per name, in the order of first occurrence. -/
def ofNames (names : List String) : Scope :=
  names.foldl
    (fun scope name => if (scope.slot? name).isSome then scope else scope.addSlot [name]) empty

/-- The real expression that a text writes in this scope. -/
def compile {α : Type} [Scalar α] (scope : Scope) (text : String) :
    Except ParseError (RealExpression α) :=
  Expression.parseReal scope.slot? text

end Scope

/-- Whether a variable can have this name. -/
def isBindable (name : String) : Bool :=
  match name.toList with
  | [] => false
  | c :: rest =>
    isNameStart c && rest.all isNamePart && !constantNames.contains name &&
      (Callee.ofName? name).isNone

end LessonPlot
