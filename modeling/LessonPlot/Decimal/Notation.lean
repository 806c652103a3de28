import LessonPlot.Decimal.Shortest

namespace LessonPlot

/-- A text of digits with zeros before it up to a width. -/
def padZeros (width : Nat) (digits : List Char) : List Char :=
  List.replicate (width - digits.length) '0' ++ digits

namespace Decimal

def digits (d : Decimal) : List Char :=
  Nat.toDigits 10 d.coefficient

/-- The digits before and after the point when no exponent is written. -/
def positional (d : Decimal) : List Char × List Char :=
  if 0 ≤ d.exponent then
    (if d.coefficient = 0 then ['0'] else d.digits ++ List.replicate d.exponent.toNat '0', [])
  else
    let places := (-d.exponent).toNat
    let digits := padZeros (places + 1) d.digits
    (digits.take (digits.length - places), digits.drop (digits.length - places))

/-- The exponent of the leading digit. -/
def leadingExponent (d : Decimal) : Int :=
  d.exponent + (d.digits.length - 1 : Nat)

end Decimal

def signText (negative : Bool) : List Char :=
  if negative then ['-'] else []

/-- A number of either sign with a point only where digits follow it. -/
def joinPoint : List Char × List Char → List Char
  | (whole, []) => whole
  | (whole, fraction) => whole ++ '.' :: fraction

/-- What is written for a number with no finite value. -/
def specialText : FloatValue → Option String
  | .notANumber => some "NaN"
  | .infinite negative => some (if negative then "-inf" else "inf")
  | .finite _ => none

/-- Plain text: the shortest digits that read back, a tie going up, and never an exponent. -/
def plainText {α : Type} [Scalar α] (x : α) : String :=
  match Scalar.value x with
  | .finite y =>
    String.ofList (signText y.negative ++ joinPoint (shortest α .up y).positional)
  | special => (specialText special).getD ""

/-- Text with a given number of digits after the point, halves to even. -/
def fixedText {α : Type} [Scalar α] (places : Nat) (x : α) : String :=
  match Scalar.value x with
  | .finite y =>
    let digits := padZeros (places + 1) (Nat.toDigits 10 (y.roundedAt (-places)))
    let point := digits.length - places
    String.ofList (signText y.negative ++ joinPoint (digits.take point, digits.drop point))
  | special => (specialText special).getD ""

/-- The magnitude rounded to a number of significant digits, and the exponent of the first. -/
def Binary.significant (count : Nat) (x : Binary) : List Char × Int :=
  if x.significand = 0 then (List.replicate count '0', 0)
  else
    let rounded := x.roundedAt (x.leadingPlace - (count - 1 : Nat))
    let digits := Nat.toDigits 10 rounded
    (digits.take count, x.leadingPlace + (digits.length - count : Nat))

/-- Text with a given number of significant digits and always an exponent, halves to even. -/
def scientificText {α : Type} [Scalar α] (count : Nat) (x : α) : String :=
  match Scalar.value x with
  | .finite y =>
    let (digits, exponent) := y.significant count
    String.ofList (signText y.negative ++ joinPoint (digits.take 1, digits.drop 1)) ++
      "e" ++ toString exponent
  | special => (specialText special).getD ""

/-- Text in a document: the shortest digits that read back, a tie going to even, a point in every
number whose leading exponent is from -5 to 15, and a signed exponent in every other. -/
def documentText {α : Type} [Scalar α] (x : α) : Option String :=
  match Scalar.value x with
  | .finite y =>
    let d := shortest α .even y
    let exponent := d.leadingExponent
    if -5 ≤ exponent && exponent ≤ 15 then
      let (whole, fraction) := d.positional
      let fraction := if fraction.isEmpty then ['0'] else fraction
      some (String.ofList (signText y.negative ++ joinPoint (whole, fraction)))
    else
      let mark := if exponent < 0 then "e-" else "e+"
      some (String.ofList (signText y.negative ++ joinPoint (d.digits.take 1, d.digits.drop 1)) ++
        mark ++ toString exponent.natAbs)
  | _ => none

end LessonPlot
