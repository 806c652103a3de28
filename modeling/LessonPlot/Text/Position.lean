namespace LessonPlot

/-- A place in a text, both counts from one. -/
structure Position where
  line : Nat
  column : Nat
deriving DecidableEq, Repr

namespace Position

def start : Position := ⟨1, 1⟩

/-- The place after some characters; a carriage return ends a line only before a line feed. -/
def advance (place : Position) : List Char → Position
  | [] => place
  | '\r' :: '\n' :: rest => advance ⟨place.line + 1, 1⟩ rest
  | '\n' :: rest => advance ⟨place.line + 1, 1⟩ rest
  | _ :: rest => advance ⟨place.line, place.column + 1⟩ rest

/-- The place in a text at which a given rest of it starts. -/
def ofRest (text rest : List Char) : Position :=
  start.advance (text.take (text.length - rest.length))

end Position

end LessonPlot
