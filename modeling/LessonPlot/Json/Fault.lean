namespace LessonPlot

/-- A step from a value to one of its parts. -/
inductive PathStep where
  | member (name : String)
  | item (index : Nat)
deriving DecidableEq, Repr

/-- What stops the reading of a document: a wrong character, the end of the text, or a value of the
wrong shape at the end of a path. -/
inductive Fault where
  | malformed
  | truncated
  | mismatch (path : List PathStep)
deriving DecidableEq, Repr

/-- The text of a path, a dot for the whole document. -/
def pathText : List PathStep → String
  | [] => "."
  | first :: rest => start first ++ String.join (rest.map continued)
where
  start : PathStep → String
    | .member name => name
    | .item index => s!"[{index}]"
  continued : PathStep → String
    | .member name => "." ++ name
    | .item index => s!"[{index}]"

/-- Reads something off the start of a text and returns what is left. -/
abbrev Reader (β : Type) := List Char → Except Fault (β × List Char)

namespace Fault

/-- The fault as it is seen from one level further out. -/
def under (step : PathStep) : Fault → Fault
  | mismatch path => mismatch (step :: path)
  | fault => fault

end Fault

namespace Reader

variable {β : Type}

/-- Reads a part that a step leads to. -/
def under (step : PathStep) (reader : Reader β) : Reader β := fun text =>
  (reader text).mapError (Fault.under step)

end Reader

end LessonPlot
