import LessonPlot.Text.Space

namespace LessonPlot

/-- The largest number of bytes of an accepted text. -/
def maxBytes : Nat := 1024

/-- The deepest nesting of an accepted text. -/
def maxNesting : Nat := 32

/-- What is counted along a text: parentheses open now, selections and powers so far, the length of
the run of signs that ends here, and the largest sum of the four at any place. -/
structure Nesting where
  opened : Nat
  selections : Nat
  powers : Nat
  signs : Nat
  deepest : Nat

namespace Nesting

def none : Nesting := ⟨0, 0, 0, 0, 0⟩

def step (n : Nesting) (c : Char) : Nesting :=
  let opened := if c = '(' then n.opened + 1 else if c = ')' then n.opened - 1 else n.opened
  let selections := if c = '?' then n.selections + 1 else n.selections
  let powers := if c = '^' then n.powers + 1 else n.powers
  let signs :=
    if c = '-' || c = '+' || c = '!' then n.signs + 1 else if isSpace c then n.signs else 0
  ⟨opened, selections, powers, signs, max n.deepest (opened + selections + powers + signs)⟩

/-- An upper bound on how deeply the parts of a text can lie within each other, taken from its
characters alone. -/
def of (text : List Char) : Nat :=
  (text.foldl step none).deepest

end Nesting

end LessonPlot
