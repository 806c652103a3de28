import LessonPlot.Expression.Build

namespace LessonPlot

/-- One word of a row of operands. -/
inductive Token (α : Type) where
  | sign (op : PrefixOp)
  | operand (value : α)
  | operator (op : InfixOp)

namespace Row

variable {α : Type}

/-- The words of a row in the order of writing. -/
def tokens : Row α → List (Token α)
  | .last signs operand => signs.map .sign ++ [.operand operand]
  | .link signs operand op rest =>
    signs.map .sign ++ .operand operand :: .operator op :: rest.tokens

end Row

mutual

/-- `unary := sign unary | power` -/
inductive Unary (α : Type) where
  | signed (sign : PrefixOp) (inner : Unary α)
  | power (inner : Power α)

/-- `power := primary ('^' unary)?` -/
inductive Power (α : Type) where
  | primary (operand : α)
  | raised (base : α) (exponent : Unary α)

end

/-- `part (op part)*` for some operators `op`; the list nests to the left. -/
inductive Chain (ops : List InfixOp) (β : Type) where
  | part (first : β)
  | next (init : Chain ops β) (op : InfixOp) (member : op ∈ ops) (right : β)

/-- `product := unary (('*' | '/') unary)*` -/
abbrev ProductPhrase (α : Type) := Chain [.multiply, .divide] (Unary α)

/-- `sum := product (('+' | '-') product)*` -/
abbrev SumPhrase (α : Type) := Chain [.add, .subtract] (ProductPhrase α)

/-- `relation := sum (('<' | '<=' | '>' | '>=') sum)*` -/
abbrev RelationPhrase (α : Type) :=
  Chain [.less, .lessEqual, .greater, .greaterEqual] (SumPhrase α)

/-- `equality := relation (('==' | '!=') relation)*` -/
abbrev EqualityPhrase (α : Type) := Chain [.equal, .notEqual] (RelationPhrase α)

/-- `and := equality ('&&' equality)*` -/
abbrev AndPhrase (α : Type) := Chain [.and] (EqualityPhrase α)

/-- `or := and ('||' and)*` -/
abbrev OrPhrase (α : Type) := Chain [.or] (AndPhrase α)

section Reading

variable {α β : Type} {ops : List InfixOp}

mutual

def Unary.tokens : Unary α → List (Token α)
  | .signed sign inner => .sign sign :: inner.tokens
  | .power inner => inner.tokens

def Power.tokens : Power α → List (Token α)
  | .primary operand => [.operand operand]
  | .raised base exponent => .operand base :: .operator .power :: exponent.tokens

end

def Chain.tokens (inner : β → List (Token α)) : Chain ops β → List (Token α)
  | .part first => inner first
  | .next init op _ right => init.tokens inner ++ .operator op :: inner right

/-- The words that a derivation derives. -/
def OrPhrase.tokens : OrPhrase α → List (Token α) :=
  Chain.tokens (Chain.tokens (Chain.tokens (Chain.tokens (Chain.tokens
    (Chain.tokens Unary.tokens)))))

end Reading

section Building

variable {α β : Type} {ops : List InfixOp}

mutual

def Unary.build : Unary (Except ParseError (Expression α)) → Except ParseError (Expression α)
  | .signed sign inner => do
    let inner ← inner.build
    Expression.sign sign inner
  | .power inner => inner.build

def Power.build : Power (Except ParseError (Expression α)) → Except ParseError (Expression α)
  | .primary operand => operand
  | .raised base exponent => do
    let base ← base
    let exponent ← exponent.build
    Expression.join .power base exponent

end

def Chain.build (inner : β → Except ParseError (Expression α)) :
    Chain ops β → Except ParseError (Expression α)
  | .part first => inner first
  | .next init op _ right => do
    let left ← init.build inner
    let right ← inner right
    Expression.join op left right

/-- The expression that a derivation builds from the operands up. -/
def OrPhrase.build :
    OrPhrase (Except ParseError (Expression α)) → Except ParseError (Expression α) :=
  Chain.build (Chain.build (Chain.build (Chain.build (Chain.build (Chain.build Unary.build)))))

end Building

end LessonPlot
