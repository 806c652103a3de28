namespace LessonPlot

/-- The values of an expression, one per row. -/
abbrev Column (α : Type) := List α

/-- Registers that evaluations fill and hand back. A pool counts the registers it had to make and
keeps those it can give out again, the last one handed back first. -/
structure Registers (α : Type) where
  allocations : Nat
  reals : List (Column α)
  booleans : List (Column Bool)
  length : Nat

namespace Registers

variable {α : Type}

/-- A pool with no register yet, for columns of a given length. -/
def new (length : Nat) : Registers α :=
  ⟨0, [], [], length⟩

/-- An empty register for numbers, a new one only if none is free. -/
def takeReal (pool : Registers α) : Column α × Registers α :=
  match pool.reals with
  | register :: rest => (register, { pool with reals := rest })
  | [] => ([], { pool with allocations := pool.allocations + 1 })

/-- An empty register for truth values, a new one only if none is free. -/
def takeBoolean (pool : Registers α) : Column Bool × Registers α :=
  match pool.booleans with
  | register :: rest => (register, { pool with booleans := rest })
  | [] => ([], { pool with allocations := pool.allocations + 1 })

/-- Hands back a register of numbers, emptied of what it held. -/
def recycleReal (_used : Column α) (pool : Registers α) : Registers α :=
  { pool with reals := [] :: pool.reals }

/-- Hands back a register of truth values, emptied of what it held. -/
def recycleBoolean (_used : Column Bool) (pool : Registers α) : Registers α :=
  { pool with booleans := [] :: pool.booleans }

end Registers

end LessonPlot
