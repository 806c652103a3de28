import LessonPlot.Scalar

namespace LessonPlot

/-- Which of two equally near decimals is written. -/
inductive Tie where
  | up
  | even
deriving DecidableEq, Repr

namespace Decimal

/-- The same number with no zero at the end of its coefficient. -/
def trimmed (d : Decimal) : Decimal :=
  let digits := Nat.toDigits 10 d.coefficient
  let zeros := (digits.reverse.takeWhile (· = '0')).length
  if d.coefficient = 0 then ⟨0, 0⟩ else ⟨d.coefficient / Nat.pow 10 zeros, d.exponent + zeros⟩

/-- The two neighbours of a magnitude among the multiples of `10 ^ place`, the nearer one first. -/
def neighbours (tie : Tie) (x : Binary) (place : Int) : List Decimal :=
  let (numerator, denominator) := x.quotientAt place
  let floor := numerator / denominator
  let twice := 2 * (numerator % denominator)
  let upper := denominator < twice ||
    (twice = denominator && (tie = .up || floor % 2 = 1))
  if upper then [⟨floor + 1, place⟩, ⟨floor, place⟩] else [⟨floor, place⟩, ⟨floor + 1, place⟩]

/-- The exact decimal expansion of a magnitude. -/
def exact (x : Binary) : Decimal :=
  ⟨x.significand * Nat.pow 2 x.exponent.toNat * Nat.pow 5 (-x.exponent).toNat, min x.exponent 0⟩

end Decimal

/-- Whether a decimal is read as the given magnitude. -/
def readsBack (α : Type) [Scalar α] (x : Binary) (d : Decimal) : Bool :=
  match Scalar.value (Scalar.ofDecimal d : α) with
  | .finite y => y.significand = x.significand && y.exponent = x.exponent
  | _ => false

/-- The fewest digits that read back, and among those the nearest to the magnitude. -/
def shortest (α : Type) [Scalar α] (tie : Tie) (x : Binary) : Decimal :=
  if x.significand = 0 then ⟨0, 0⟩
  else
    let found := (List.range 17).findSome? fun more : Nat =>
      (Decimal.neighbours tie x (x.leadingPlace - more)).find? (readsBack α x)
    (found.getD (Decimal.exact x)).trimmed

end LessonPlot
