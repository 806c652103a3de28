import LessonPlot.Formula.Token

namespace LessonPlot

/-- What is left of a text from the place where no token that may stand there was found. -/
structure Stuck where
  rest : List Char

/-- Reads something off the start of a text and returns what is left. -/
abbrev Recogniser (α : Type) := List Char → Except Stuck (α × List Char)

namespace Recogniser

/-- The arguments of a call from the first of them to the closing parenthesis. -/
def arguments (inner : Recogniser Formula) : Nat → Recogniser Arguments
  | 0, text => .error ⟨text⟩
  | fuel + 1, text => do
    let (first, text) ← inner text
    match skipBlanks text with
    | ',' :: text =>
      let (rest, text) ← arguments inner fuel text
      .ok (.cons first rest, text)
    | ')' :: text => .ok (.cons first .none, text)
    | text => .error ⟨text⟩

/-- What follows the name of a call, from its opening parenthesis on, or the name as a variable. -/
def callOrName (inner : Recogniser Formula) (name : List Char) : Recogniser Primary := fun text =>
  match skipBlanks text with
  | '(' :: text =>
    match skipBlanks text with
    | ')' :: text => .ok (.call (String.ofList name) .none, text)
    | _ => do
      let (arguments, text) ← arguments inner (text.length + 1) text
      .ok (.call (String.ofList name) arguments, text)
  | _ => .ok (.name (String.ofList name), text)

/-- An operand that starts at the first character of the text. -/
def primary (inner : Recogniser Formula) : Recogniser Primary
  | '(' :: text => do
    let (formula, text) ← inner text
    match skipBlanks text with
    | ')' :: text => .ok (.group formula, text)
    | text => .error ⟨text⟩
  | text =>
    match takeNumber? text with
    | some (number, text) => .ok (.number (String.ofList number), text)
    | none =>
      match takeName? text with
      | some (name, text) => callOrName inner name text
      | none => .error ⟨text⟩

/-- Operands for as long as an infix operator follows. -/
def operation (inner : Recogniser Formula) : Nat → Recogniser Operation
  | 0, text => .error ⟨text⟩
  | fuel + 1, text => do
    let (signs, text) := takeSigns text
    let (operand, text) ← primary inner text
    match takeInfix? (skipBlanks text) with
    | some (op, text) =>
      let (rest, text) ← operation inner fuel text
      .ok (.link signs operand op rest, text)
    | none => .ok (.last signs operand, text)

/-- A formula whose inner formulas are read by a given recogniser. -/
def formulaOver (inner : Recogniser Formula) : Recogniser Formula := fun text => do
  let (head, text) ← operation inner (text.length + 1) text
  match skipBlanks text with
  | '?' :: text =>
    let (chosen, text) ← inner text
    match skipBlanks text with
    | ':' :: text =>
      let (otherwise, text) ← inner text
      .ok (.choice head chosen otherwise, text)
    | text => .error ⟨text⟩
  | _ => .ok (.operation head, text)

/-- A formula in which at most the given number of formulas lie within each other. -/
def formulaWithin : Nat → Recogniser Formula
  | 0, text => .error ⟨text⟩
  | depth + 1, text => formulaOver (formulaWithin depth) text

/-- A whole text as one formula of a bounded nesting. -/
def wholeWithin (depth : Nat) (text : List Char) : Except Stuck Formula := do
  let (formula, rest) ← formulaWithin depth text
  match skipBlanks rest with
  | [] => .ok formula
  | rest => .error ⟨rest⟩

end Recogniser

/-- The formula that a whole text writes; every level of nesting takes at least one character. -/
def recognise (text : List Char) : Except Stuck Formula :=
  Recogniser.wholeWithin (text.length + 1) text

end LessonPlot
