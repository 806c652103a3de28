import LessonPlot.Decimal.CubeRoot
import LessonPlot.Expression.Elementary

namespace LessonPlot

/-- A binary floating-point type with the operations that expressions are made of. -/
class Scalar (α : Type) extends Add α, Sub α, Mul α, Div α, Neg α where
  power : α → α → α
  /-- The functions as the mathematical library gives them, `round` taking halves away from zero. -/
  library : Elementary → α → α
  equal : α → α → Bool
  less : α → α → Bool
  lessEqual : α → α → Bool
  notANumber : α
  isNaN : α → Bool
  /-- The representable number nearest to a binary one, halves to even and infinity if that is too
  large; a zero keeps its sign. -/
  ofBinary : Binary → α
  value : α → FloatValue

namespace Scalar

variable {α : Type} [Scalar α]

/-- The representable number nearest to a decimal, with halves to even, or infinity. -/
def ofDecimal (d : Decimal) : α :=
  ofBinary d.toBinary

def pi : α := ofDecimal ⟨314159265358979323846264338327950288, -35⟩

def euler : α := ofDecimal ⟨271828182845904523536028747135266250, -35⟩

def zero : α := ofDecimal ⟨0, 0⟩

def one : α := ofDecimal ⟨1, 0⟩

/-- The nearest whole number, a half going up. -/
def roundHalfUp (x : α) : α :=
  let rounded := library .round x
  if less x zero && equal (rounded - x) (-(one / (one + one))) then rounded + one else rounded

/-- The cube root rounded to nearest, whatever the library makes of it. -/
def cubeRoot (x : α) : α :=
  match value x with
  | .finite y => if y.significand = 0 then x else ofBinary y.cubeRoot
  | _ => x

def apply : Elementary → α → α
  | .round => roundHalfUp
  | .cbrt => cubeRoot
  | f => library f

/-- The smaller or larger of two numbers, the right one on a tie; no number if either is none. -/
def extremum (which : Extremum) (x y : α) : α :=
  if isNaN x || isNaN y then notANumber
  else
    match which with
    | .min => if less x y then x else y
    | .max => if less y x then x else y

end Scalar

/-- The nearest float as the model of a format has it. -/
def Binary.unpacked (format : Float.Model.Format) (x : Binary) : Float.Model.UnpackedFloat :=
  let sign : Float.Model.UnpackedFloat.Sign := if x.negative then .negative else .positive
  if x.significand = 0 then .zero sign else .round format sign x.significand x.exponent

instance : Scalar Float where
  power := Float.pow
  library
    | .sin => Float.sin
    | .cos => Float.cos
    | .tan => Float.tan
    | .asin => Float.asin
    | .acos => Float.acos
    | .atan => Float.atan
    | .abs => Float.abs
    | .sqrt => Float.sqrt
    | .cbrt => Float.cbrt
    | .log => Float.log
    | .log2 => Float.log2
    | .log10 => Float.log10
    | .exp => Float.exp
    | .floor => Float.floor
    | .ceil => Float.ceil
    | .round => Float.round
  equal := Float.beq
  less := Float.lt
  lessEqual := Float.le
  notANumber := 0 / 0
  isNaN := Float.isNaN
  ofBinary y := .ofModel (.pack (y.unpacked .binary64))
  value x := FloatValue.ofBits 52 11 x.toBits.toNat

instance : Scalar Float32 where
  power := Float32.pow
  library
    | .sin => Float32.sin
    | .cos => Float32.cos
    | .tan => Float32.tan
    | .asin => Float32.asin
    | .acos => Float32.acos
    | .atan => Float32.atan
    | .abs => Float32.abs
    | .sqrt => Float32.sqrt
    | .cbrt => Float32.cbrt
    | .log => Float32.log
    | .log2 => Float32.log2
    | .log10 => Float32.log10
    | .exp => Float32.exp
    | .floor => Float32.floor
    | .ceil => Float32.ceil
    | .round => Float32.round
  equal := Float32.beq
  less := Float32.lt
  lessEqual := Float32.le
  notANumber := 0 / 0
  isNaN := Float32.isNaN
  ofBinary y := .ofModel (.pack (y.unpacked .binary32))
  value x := FloatValue.ofBits 23 8 x.toBits.toNat

end LessonPlot
