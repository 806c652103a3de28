import LessonPlot.Scalar

namespace LessonPlot

/-- A number as it is written: what `inf`, `nan` and the decimal numerals stand for. -/
inductive Numeral where
  | notANumber (negative : Bool)
  | infinite (negative : Bool)
  | finite (negative : Bool) (magnitude : Decimal)
deriving DecidableEq, Repr

namespace Numeral

def digitValue (c : Char) : Nat :=
  c.toNat - '0'.toNat

/-- The number that a row of decimal digits writes. -/
def ofDigits (digits : List Char) : Nat :=
  digits.foldl (fun n c => 10 * n + digitValue c) 0

/-- Takes a leading sign off a text; `true` stands for a minus. -/
def sign : List Char → Bool × List Char
  | '-' :: rest => (true, rest)
  | '+' :: rest => (false, rest)
  | rest => (false, rest)

/-- An exponent part: nothing, or `e`, a sign or none, and at least one digit. -/
def exponent? : List Char → Option Int
  | [] => some 0
  | mark :: rest =>
    if mark = 'e' || mark = 'E' then
      let (negative, digits) := sign rest
      if !digits.isEmpty && digits.all Char.isDigit then
        some (if negative then -(ofDigits digits : Int) else ofDigits digits)
      else none
    else none

/-- Digits with a point among them or at either end, at least one digit, and an exponent part. -/
def decimal? (text : List Char) : Option Decimal :=
  let whole := text.takeWhile Char.isDigit
  let (fraction, rest) :=
    match text.dropWhile Char.isDigit with
    | '.' :: rest => (rest.takeWhile Char.isDigit, rest.dropWhile Char.isDigit)
    | rest => ([], rest)
  if whole.isEmpty && fraction.isEmpty then none
  else
    (exponent? rest).map fun exponent =>
      ⟨ofDigits (whole ++ fraction), exponent - fraction.length⟩

/-- Reads a whole text as a number; the words for the special values have any case. -/
def read? (text : List Char) : Option Numeral :=
  let (negative, rest) := sign text
  let word := String.ofList (rest.map Char.toLower)
  if word = "nan" then some (.notANumber negative)
  else if word = "inf" || word = "infinity" then some (.infinite negative)
  else (decimal? rest).map (.finite negative)

/-- The representable number nearest to what is written. -/
def toScalar {α : Type} [Scalar α] : Numeral → α
  | .notANumber _ => Scalar.notANumber
  | .infinite negative =>
    let infinity : α := Scalar.one / Scalar.zero
    if negative then -infinity else infinity
  | .finite negative magnitude =>
    let nearest : α := Scalar.ofDecimal magnitude
    if negative then -nearest else nearest

end Numeral

/-- The value of a text that is a number, in whichever floating-point type is asked for. -/
def readScalar? {α : Type} [Scalar α] (text : String) : Option α :=
  (Numeral.read? text.toList).map Numeral.toScalar

/-- A count written in decimal digits, a plus before them or none, up to `2 ^ 64 - 1`. -/
def readCount? (text : String) : Option Nat :=
  let digits :=
    match text.toList with
    | '+' :: rest => rest
    | rest => rest
  if !digits.isEmpty && digits.all Char.isDigit && Numeral.ofDigits digits < Nat.pow 2 64 then
    some (Numeral.ofDigits digits)
  else none

end LessonPlot
