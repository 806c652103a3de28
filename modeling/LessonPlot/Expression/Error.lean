import LessonPlot.Expression.Basic
import LessonPlot.Formula.Nesting
import LessonPlot.Text.Position

namespace LessonPlot

/-- The deepest tree of an accepted expression; a long flat sum has one level per term. -/
def maxDepth : Nat := 128

/-- A size that exceeds its limit. -/
inductive Excess where
  | bytes (found : Nat)
  | nesting (found : Nat)
  | depth (found : Nat)
deriving DecidableEq, Repr

/-- How many arguments a function takes. -/
inductive Arity where
  | one
  | atLeastTwo
deriving DecidableEq, Repr

/-- The reasons for which a text is no expression. -/
inductive ParseError where
  | empty
  | malformed (place : Position)
  | invalidLiteral (text : String)
  | unknownFunction (name : String)
  | arity (name : String) (expected : Arity) (found : Nat)
  | unboundVariable (name : String)
  | typeMismatch (expected found : ValueType)
  | tooComplex (excess : Excess)
deriving DecidableEq, Repr

namespace Excess

def message : Excess → String
  | bytes found => s!"{found} bytes exceeds {maxBytes}"
  | nesting found => s!"nesting depth {found} exceeds {maxNesting}"
  | depth found => s!"tree depth {found} exceeds {maxDepth}"

end Excess

namespace Arity

def phrase : Arity → String
  | one => "1"
  | atLeastTwo => "at least 2"

end Arity

/-- A name between two backquotes. -/
def backquoted (name : String) : String :=
  "`" ++ name ++ "`"

namespace ParseError

def message : ParseError → String
  | empty => "expression is empty"
  | malformed place => s!"syntax error: line {place.line}, column {place.column}"
  | invalidLiteral text => "invalid numeric literal " ++ backquoted text
  | unknownFunction name => "unknown function " ++ backquoted name
  | arity name expected found =>
    backquoted name ++ s!" expects {expected.phrase} argument(s), found {found}"
  | unboundVariable name => "unbound variable " ++ backquoted name
  | typeMismatch expected found =>
    s!"expected a {expected.name} expression, found a {found.name} expression"
  | tooComplex excess => "expression is too complex: " ++ excess.message

end ParseError

end LessonPlot
