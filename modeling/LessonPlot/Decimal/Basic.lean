namespace LessonPlot

/-- The non-negative number `coefficient * 10 ^ exponent`. -/
structure Decimal where
  coefficient : Nat
  exponent : Int
deriving DecidableEq, Repr

/-- The number `significand * 2 ^ exponent`, with a sign that zero has too. -/
structure Binary where
  negative : Bool
  significand : Nat
  exponent : Int
deriving DecidableEq, Repr

/-- What a bit pattern of a binary floating-point format stands for. -/
inductive FloatValue where
  | notANumber
  | infinite (negative : Bool)
  | finite (value : Binary)
deriving DecidableEq, Repr

/-- Reads a bit pattern with the given widths of its fraction and exponent fields. -/
def FloatValue.ofBits (fractionBits exponentBits bits : Nat) : FloatValue :=
  let fraction := bits % Nat.pow 2 fractionBits
  let biased := bits / Nat.pow 2 fractionBits % Nat.pow 2 exponentBits
  let negative := bits / Nat.pow 2 (fractionBits + exponentBits) % 2 = 1
  let least : Int := 2 - (Nat.pow 2 (exponentBits - 1) : Nat) - fractionBits
  if biased = Nat.pow 2 exponentBits - 1 then
    if fraction = 0 then .infinite negative else .notANumber
  else if biased = 0 then .finite ⟨negative, fraction, least⟩
  else .finite ⟨negative, Nat.pow 2 fractionBits + fraction, least + (biased - 1)⟩

/-- A quotient rounded to the nearest whole number, a half going to the even neighbour. -/
def roundHalfEven (numerator denominator : Nat) : Nat :=
  let floor := numerator / denominator
  let twice := 2 * (numerator % denominator)
  if twice < denominator then floor
  else if denominator < twice then floor + 1
  else floor + floor % 2

/-- The number of decimal digits of a whole number, one for zero. -/
def digitCount (n : Nat) : Nat :=
  (Nat.toDigits 10 n).length

namespace Binary

/-- More bits than the significand of any format has. -/
def keptBits : Nat := 64

/-- The same number with the bits beyond those kept brought together in one that says whether any
of them is set. It is rounded as the number itself. -/
def narrowed (x : Binary) : Binary :=
  let excess := x.significand.log2 - keptBits
  if excess = 0 then x
  else
    let unit := Nat.pow 2 excess
    let more := if x.significand % unit = 0 then 0 else 1
    ⟨x.negative, 2 * (x.significand / unit) + more, x.exponent + excess - 1⟩

/-- The places after the binary point that decide how a number is rounded: the finest unit is that
of place 1074, and the next place has its half. -/
def decidingPlaces : Nat := 1075

/-- A quotient up to the deciding places, with one bit more that says whether anything is left. It
is rounded as the quotient itself. -/
def ofQuotient (numerator denominator : Nat) : Binary :=
  let scaled := numerator * Nat.pow 2 decidingPlaces
  let more := if scaled % denominator = 0 then 0 else 1
  ⟨false, 2 * (scaled / denominator) + more, -(decidingPlaces + 1 : Nat)⟩

/-- The magnitude as a quotient in units of `10 ^ place`. -/
def quotientAt (x : Binary) (place : Int) : Nat × Nat :=
  (x.significand * Nat.pow 2 x.exponent.toNat * Nat.pow 10 (-place).toNat,
    Nat.pow 2 (-x.exponent).toNat * Nat.pow 10 place.toNat)

/-- The place of the leading decimal digit, which a magnitude other than zero has. -/
def leadingPlace (x : Binary) : Int :=
  let rough : Int := (x.exponent + x.significand.log2) * 30103 / 100000 - 3
  let (numerator, denominator) := x.quotientAt rough
  rough + (digitCount (numerator / denominator) - 1 : Nat)

/-- The magnitude rounded to `10 ^ place`, halves to even. -/
def roundedAt (x : Binary) (place : Int) : Nat :=
  let (numerator, denominator) := x.quotientAt place
  roundHalfEven numerator denominator

end Binary

namespace Decimal

/-- A power of ten beyond every format, and its inverse below half of every unit. -/
def placeLimit : Int := 400

/-- A binary number that is rounded as the decimal. -/
def toBinary (d : Decimal) : Binary :=
  let place := d.exponent + digitCount d.coefficient
  if d.coefficient = 0 then ⟨false, 0, 0⟩
  else if placeLimit < place then ⟨false, 1, 4 * placeLimit⟩
  else if place < -placeLimit then ⟨false, 1, -(4 * placeLimit)⟩
  else
    let numerator := d.coefficient * Nat.pow 10 d.exponent.toNat
    (Binary.ofQuotient numerator (Nat.pow 10 (-d.exponent).toNat)).narrowed

end Decimal

end LessonPlot
