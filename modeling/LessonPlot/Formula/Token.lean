import LessonPlot.Formula.Basic
import LessonPlot.Text.Space

namespace LessonPlot

namespace PrefixOp

def ofChar? : Char → Option PrefixOp
  | '-' => some minus
  | '+' => some plus
  | '!' => some not
  | _ => none

end PrefixOp

/-- Takes the prefix operators off a text and stops at the first character that is neither one of
them nor a blank. -/
def takeSigns : List Char → List PrefixOp × List Char
  | [] => ([], [])
  | c :: rest =>
    if isBlank c then takeSigns rest
    else
      match PrefixOp.ofChar? c with
      | some sign => (sign :: (takeSigns rest).1, (takeSigns rest).2)
      | none => ([], c :: rest)

/-- Takes an infix operator off the start of a text, the longer of two that fit. -/
def takeInfix? : List Char → Option (InfixOp × List Char)
  | '|' :: '|' :: rest => some (.or, rest)
  | '&' :: '&' :: rest => some (.and, rest)
  | '=' :: '=' :: rest => some (.equal, rest)
  | '!' :: '=' :: rest => some (.notEqual, rest)
  | '<' :: '=' :: rest => some (.lessEqual, rest)
  | '>' :: '=' :: rest => some (.greaterEqual, rest)
  | '<' :: rest => some (.less, rest)
  | '>' :: rest => some (.greater, rest)
  | '+' :: rest => some (.add, rest)
  | '-' :: rest => some (.subtract, rest)
  | '*' :: rest => some (.multiply, rest)
  | '/' :: rest => some (.divide, rest)
  | '^' :: rest => some (.power, rest)
  | _ => none

def isNameStart (c : Char) : Bool :=
  c.isAlpha || c = '_'

def isNamePart (c : Char) : Bool :=
  c.isAlphanum || c = '_'

/-- Takes a name off the start of a text. -/
def takeName? : List Char → Option (List Char × List Char)
  | [] => none
  | c :: rest =>
    if isNameStart c then some (c :: rest.takeWhile isNamePart, rest.dropWhile isNamePart)
    else none

/-- Digits with a point among them or at either end, at least one of them. -/
def takeMantissa? (text : List Char) : Option (List Char × List Char) :=
  let whole := text.takeWhile Char.isDigit
  match text.dropWhile Char.isDigit with
  | '.' :: rest =>
    let fraction := rest.takeWhile Char.isDigit
    if whole.isEmpty && fraction.isEmpty then none
    else some (whole ++ '.' :: fraction, rest.dropWhile Char.isDigit)
  | rest => if whole.isEmpty then none else some (whole, rest)

/-- An exponent with at least one digit, or nothing where there is none. -/
def takeExponent : List Char → List Char × List Char
  | [] => ([], [])
  | mark :: rest =>
    if mark = 'e' || mark = 'E' then
      let (sign, digits) :=
        match rest with
        | '+' :: digits => (['+'], digits)
        | '-' :: digits => (['-'], digits)
        | digits => ([], digits)
      if (digits.takeWhile Char.isDigit).isEmpty then ([], mark :: rest)
      else (mark :: sign ++ digits.takeWhile Char.isDigit, digits.dropWhile Char.isDigit)
    else ([], mark :: rest)

/-- Takes a number off the start of a text; a sign is no part of it. -/
def takeNumber? (text : List Char) : Option (List Char × List Char) :=
  (takeMantissa? text).map fun (mantissa, rest) =>
    (mantissa ++ (takeExponent rest).1, (takeExponent rest).2)

end LessonPlot
