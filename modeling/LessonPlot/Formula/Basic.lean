namespace LessonPlot

/-- The operators that stand before an operand. -/
inductive PrefixOp where
  | minus
  | plus
  | not
deriving DecidableEq, Repr

/-- The operators that stand between two operands. -/
inductive InfixOp where
  | or
  | and
  | equal
  | notEqual
  | lessEqual
  | greaterEqual
  | less
  | greater
  | add
  | subtract
  | multiply
  | divide
  | power
deriving DecidableEq, Repr

mutual

/-- What a text says, operators still in the order of writing: operands in a row, or a choice
`a ? b : c`, which binds loosest and nests to the right. -/
inductive Formula where
  | operation (operands : Operation)
  | choice (condition : Operation) (chosen otherwise : Formula)

/-- Operands, each after its prefix operators, with an infix operator between any two. -/
inductive Operation where
  | last (signs : List PrefixOp) (operand : Primary)
  | link (signs : List PrefixOp) (operand : Primary) (op : InfixOp) (rest : Operation)

inductive Primary where
  | number (text : String)
  | name (text : String)
  | call (callee : String) (arguments : Arguments)
  | group (inner : Formula)

inductive Arguments where
  | none
  | cons (first : Formula) (rest : Arguments)

end

mutual

/-- The names in variable position, in the order of writing. -/
def Formula.names : Formula → List String
  | .operation operands => operands.names
  | .choice condition chosen otherwise => condition.names ++ chosen.names ++ otherwise.names

def Operation.names : Operation → List String
  | .last _ operand => operand.names
  | .link _ operand _ rest => operand.names ++ rest.names

def Primary.names : Primary → List String
  | .number _ => []
  | .name text => [text]
  | .call _ arguments => arguments.names
  | .group inner => inner.names

def Arguments.names : Arguments → List String
  | .none => []
  | .cons first rest => first.names ++ rest.names

end

end LessonPlot
