import LessonPlot.Expression.Build
import LessonPlot.Expression.Depth
import LessonPlot.Formula.Recognise

namespace LessonPlot

/-- Refuses a text whose size or nesting is over its limit. -/
def checkLimits (text : String) : Except ParseError Unit :=
  if maxBytes < text.utf8ByteSize then .error (.tooComplex (.bytes text.utf8ByteSize))
  else
    let nesting := Nesting.of text.toList
    if maxNesting < nesting then .error (.tooComplex (.nesting nesting)) else .ok ()

/-- The formula that a text within the limits writes. -/
def Formula.read (text : String) : Except ParseError Formula := do
  checkLimits text
  match recognise text.toList with
  | .ok formula => .ok formula
  | .error stuck => .error (.malformed (Position.ofRest text.toList stuck.rest))

/-- The names that a text uses as variables, each once, in the order of their first use. -/
def variableNames (text : String) : Except ParseError (List String) := do
  let formula ← Formula.read text
  .ok (formula.names.filter (fun name => !constantNames.contains name)).eraseDups

variable {α : Type} [Scalar α]

namespace Expression

/-- The expression that a text writes, given the slots of its variables. -/
def parse (slotOf : String → Option Nat) (text : String) : Except ParseError (Expression α) :=
  if (trimSpace text.toList).isEmpty then .error .empty
  else do
    let formula ← Formula.read text
    let expression ← formula.build slotOf
    let depth := expression.walkedDepth
    if maxDepth < depth then .error (.tooComplex (.depth depth)) else .ok expression

def parseReal (slotOf : String → Option Nat) (text : String) :
    Except ParseError (RealExpression α) := do
  let expression ← parse slotOf text
  expression.toReal

end Expression

end LessonPlot
