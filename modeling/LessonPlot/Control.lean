import LessonPlot.Interval

namespace LessonPlot

/-- What is left of a magnitude after whole multiples of `modulus` are taken away. -/
def Binary.remainder (modulus : Nat) (x : Binary) : Binary :=
  if 0 ≤ x.exponent then
    { x with significand := x.significand * Nat.pow 2 x.exponent.toNat % modulus, exponent := 0 }
  else { x with significand := x.significand % (modulus * Nat.pow 2 (-x.exponent).toNat) }

/-- The exact remainder of a division toward zero, with the sign of the dividend. -/
def remainder (x : Float) (modulus : Nat) : Float :=
  match Scalar.value x with
  | .finite y => Scalar.ofBinary (y.remainder modulus)
  | _ => Scalar.notANumber

namespace Control

/-- The control runs from 0 to this value. -/
def highest : Nat := 100

/-- The nanoseconds of one tick of playback. -/
def tickNanoseconds : Nat := 50000000

/-- The control held between its ends; what is no number counts as 0. -/
def clamp (control : Float) : Float :=
  if control.isNaN then 0
  else if control < 0 then 0
  else if 100 < control then 100
  else control

/-- The parameter value of a control: the ends of the range at 0 and 100, linear between them. -/
def toParameter (control : Float) (range : Interval) : Float :=
  let control := clamp control
  if control == 100 then range.max else range.min + control / 100 * range.span

/-- The control moved on by some ticks, and back to the start at 100. -/
def forward (control ticks : Float) : Float :=
  let next := remainder (control + ticks) highest
  if next.isNaN || next < 0 then 0 else next

/-- The control after one tick of playback. -/
def advance (control : Float) : Float :=
  forward control 1

/-- The control after some time of playback, whole ticks only. -/
def advanceBy (control : Float) (nanoseconds : Nat) : Float :=
  let ticks := nanoseconds / tickNanoseconds
  if ticks = 0 then control else forward control (Float.ofNat (ticks % highest))

end Control

/-- What is shown of the parameter above a plot. -/
structure Readout where
  caption : String
  value : Float
  formatted : String

namespace Readout

/-- The second of the words between single spaces, which is the symbol after a description, or a
general word if there is none. -/
def captionOf (label : List Char) : List Char :=
  let afterFirst := (label.dropWhile (· ≠ ' ')).drop 1
  let word := afterFirst.takeWhile (· ≠ ' ')
  if word.isEmpty then "Parameter".toList else word

/-- The readout of a value, formatted with one digit after the point. -/
def of (label : String) (value : Float) : Readout :=
  ⟨String.ofList (captionOf label.toList), value, fixedText 1 value⟩

end Readout

end LessonPlot
