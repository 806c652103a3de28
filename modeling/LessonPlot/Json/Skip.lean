import LessonPlot.Json.Scan

namespace LessonPlot

namespace Json

/-- Passes over the rest of a string; an escape by number may name any unit. -/
def skipString : List Char → Except Fault (List Char)
  | [] => .error .truncated
  | '"' :: rest => .ok rest
  | ['\\'] => .error .truncated
  | '\\' :: 'u' :: a :: b :: c :: d :: rest =>
    if (hexCode? a b c d).isSome then skipString rest else .error .malformed
  | '\\' :: 'u' :: rest => .error (shortEscape rest)
  | '\\' :: mark :: rest =>
    if (escaped? mark).isSome then skipString rest else .error .malformed
  | c :: rest => if c.val < 0x20 then .error .malformed else skipString rest

/-- Passes over digits, of which there has to be one. -/
def skipDigits (text : List Char) : Except Fault (List Char) :=
  if (text.takeWhile Char.isDigit).isEmpty then .error .malformed
  else .ok (text.dropWhile Char.isDigit)

/-- Passes over an exponent if there is one. -/
def skipExponent : List Char → Except Fault (List Char)
  | [] => .ok []
  | mark :: rest =>
    if mark = 'e' || mark = 'E' then skipDigits (Numeral.sign rest).2 else .ok (mark :: rest)

/-- Passes over a number after its sign, whatever its size; one that ends too early is a wrong
number even at the end of the text. -/
def skipNumber (text : List Char) : Except Fault (List Char) := do
  let whole := text.takeWhile Char.isDigit
  if whole.isEmpty || (whole.head? = some '0' && 1 < whole.length) then .error .malformed
  else
    match text.dropWhile Char.isDigit with
    | '.' :: rest => skipExponent (← skipDigits rest)
    | rest => skipExponent rest

/-- Passes over a value that is neither array nor object. -/
def skipScalar : List Char → Except Fault (List Char)
  | [] => .error .truncated
  | 'n' :: rest => scanWord "ull".toList rest
  | 't' :: rest => scanWord "rue".toList rest
  | 'f' :: rest => scanWord "alse".toList rest
  | '"' :: rest => skipString rest
  | '-' :: rest => skipNumber rest
  | c :: rest => if c.isDigit then skipNumber (c :: rest) else .error .malformed

/-- Passes over the name of a member and the colon after it. -/
def skipName (text : List Char) : Except Fault (List Char) := do
  colon (← skipString text)

/-- Passes over what is left of a value, given the brackets that are open, the innermost first, and
whether the innermost has just been opened. -/
def skipOpen : Nat → Bool → List Char → List Char → Except Fault (List Char)
  | 0, _, _, _ => .error .malformed
  | _, _, [], text => .ok text
  | fuel + 1, first, bracket :: outer, text => do
    match ← if bracket = '[' then nextItem first text else nextMember first text with
    | .closed rest => skipOpen fuel false outer rest
    | .item text =>
      let text ← if bracket = '[' then .ok text else skipName text
      match skipBlanks text with
      | '[' :: rest => skipOpen fuel true ('[' :: bracket :: outer) rest
      | '{' :: rest => skipOpen fuel true ('{' :: bracket :: outer) rest
      | text => skipOpen fuel false (bracket :: outer) (← skipScalar text)

/-- Passes over a value of any depth. -/
def skipValue (text : List Char) : Except Fault (List Char) :=
  match skipBlanks text with
  | '[' :: rest => skipOpen (text.length + 1) true ['['] rest
  | '{' :: rest => skipOpen (text.length + 1) true ['{'] rest
  | text => skipScalar text

end Json

end LessonPlot
