import LessonPlot.Configuration.Basic
import LessonPlot.Curve
import LessonPlot.Sampler
import LessonPlot.Scene.Basic

namespace LessonPlot

/-- The width of the curve of a function that gives none. -/
def functionStrokeWidth : Float := 4

/-- The width of every other line that gives none. -/
def otherStrokeWidth : Float := 2

/-- The radius of a point that gives none. -/
def pointRadius : Float := 6

/-- The size of a text that gives none. -/
def textSize : Float := 12

/-- The opacity of a band that gives none. -/
def bandOpacity : Float := 0.3

namespace Appearance

def stroke (appearance : Appearance) (defaultWidth : Float) : Stroke :=
  ⟨appearance.color, appearance.strokeWidth.getD defaultWidth, appearance.style.dash⟩

end Appearance

/-- The expressions of a shape, ready to be evaluated. -/
inductive CompiledShape where
  | function (expression : RealExpression Float)
  | area (lower upper : RealExpression Float)
  | curve (curve : Curve)
  | mark (coordinates : List (RealExpression Float))

/-- The first field of a shape that does not compile, and why. -/
structure CompileError where
  field : String
  error : ParseError

namespace Shape

def compileField (shape : Shape) (field source : String) :
    Except CompileError (RealExpression Float) :=
  (shape.scope.compile source).mapError (CompileError.mk field)

/-- Compiles the fields of an annotation in order. -/
def compileFields (shape : Shape) :
    List (String × String) → Except CompileError (List (RealExpression Float))
  | [] => .ok []
  | (field, source) :: rest => do
    let first ← shape.compileField field source
    let others ← shape.compileFields rest
    .ok (first :: others)

def compile (shape : Shape) : Except CompileError CompiledShape :=
  match shape with
  | function source => do
    let expression ← shape.compileField "expression" source
    .ok (.function expression)
  | area y1 y2 _ => do
    let lower ← shape.compileField "y1" y1
    let upper ← shape.compileField "y2" y2
    .ok (.area lower upper)
  | parametric curve => do
    let x ← shape.compileField "xExpression" curve.x
    let y ← shape.compileField "yExpression" curve.y
    .ok (.curve ⟨x, y⟩)
  | point .. | line _ | vector _ | vLine _ | hLine _ | text .. => do
    let coordinates ← shape.compileFields shape.expressions
    .ok (.mark coordinates)

end Shape

/-- What an annotation element draws at given coordinates; nothing if their number is wrong or the
element is no annotation. -/
def Element.mark? (element : Element) (coordinates : List Float) : Option Mark :=
  let appearance := element.appearance
  let stroke := appearance.stroke otherStrokeWidth
  match element.shape, coordinates with
  | .point _ _ radius, [x, y] =>
    some (.point appearance.color x y (radius.getD pointRadius) appearance.label)
  | .line _, [x1, y1, x2, y2] =>
    some (.segment stroke (x1, y1) (x2, y2) false appearance.label)
  | .vector _, [x1, y1, x2, y2] =>
    some (.segment stroke (x1, y1) (x2, y2) true appearance.label)
  | .vLine _, [x] => some (.vLine stroke x appearance.label)
  | .hLine _, [y] => some (.hLine stroke y appearance.label)
  | .text _ _ content fontSize, [x, y] =>
    some (.text appearance.color x y content (fontSize.getD textSize))
  | _, _ => none

/-- A configuration with every element compiled or given up. -/
structure Assembler where
  configuration : Configuration
  resolution : Nat
  compiled : List (Option CompiledShape)

namespace Assembler

def new (configuration : Configuration) (resolution : Nat) : Assembler :=
  ⟨configuration, resolution,
    configuration.elements.map fun element => element.shape.compile.toOption⟩

/-- What has been drawn so far, with the registers that the elements share. -/
structure Canvas where
  sampler : Sampler
  scalars : Registers Float
  series : List Series
  parametric : List ParametricCurve
  annotations : List PlacedMark

/-- The values of coordinates at a parameter value, one register each at a time. -/
def coordinateValues (parameter : Float) :
    List (RealExpression Float) → Evaluation Float (List Float)
  | [], registers => .ok ([], registers)
  | expression :: rest, registers => do
    let (output, registers) ← expression.evaluate [[parameter]] registers
    let registers := registers.recycleReal output
    let (values, registers) ← coordinateValues parameter rest registers
    .ok (output.head?.getD Scalar.notANumber :: values, registers)

namespace Canvas

/-- The canvas on which the first element of a configuration is drawn. -/
def blank (configuration : Configuration) (resolution : Nat) (control : Float) : Canvas :=
  ⟨Sampler.new configuration.xDomain resolution
    (Control.toParameter control configuration.parameterRange), Registers.new 1, [], [], []⟩

/-- Adds the curve of a function, all gaps if it did not compile. -/
def drawFunction (element : Element) (compiled : Option CompiledShape) (canvas : Canvas) :
    Except ColumnFault Canvas := do
  let (values, sampler) ←
    match compiled with
    | some (.function expression) => canvas.sampler.values expression
    | _ => .ok (canvas.sampler.gaps, canvas.sampler)
  let appearance := element.appearance
  let series : Series :=
    ⟨appearance.id, appearance.stroke functionStrokeWidth, appearance.label,
      .line (.ofId appearance.id) values⟩
  .ok { canvas with sampler, series := canvas.series ++ [series] }

/-- The two values of a band in one row, a gap if one of them is. -/
def pairValues : Option Float → Option Float → Option (Float × Float)
  | some lower, some upper => some (lower, upper)
  | _, _ => none

/-- Adds the band of an area, all gaps if it did not compile. -/
def drawArea (element : Element) (opacity : Option Float) (compiled : Option CompiledShape)
    (canvas : Canvas) : Except ColumnFault Canvas := do
  let (values, sampler) ←
    match compiled with
    | some (.area lower upper) => do
      let (lower, sampler) ← canvas.sampler.values lower
      let (upper, sampler) ← sampler.values upper
      .ok (List.zipWith pairValues lower upper, sampler)
    | _ => .ok (List.replicate canvas.sampler.abscissae.length none, canvas.sampler)
  let appearance := element.appearance
  let series : Series :=
    ⟨appearance.id, appearance.stroke otherStrokeWidth, appearance.label,
      .band (opacity.getD bandOpacity) values⟩
  .ok { canvas with sampler, series := canvas.series ++ [series] }

/-- Adds a parametric curve. -/
def drawCurve (element : Element) (source : Parametric) (curve : Curve) (canvas : Canvas) :
    Except ColumnFault Canvas := do
  let points ← curve.trace source.curveRange source.stepCount canvas.sampler.parameter
  let appearance := element.appearance
  let drawn : ParametricCurve :=
    ⟨appearance.id, appearance.stroke otherStrokeWidth, appearance.label, points⟩
  .ok { canvas with parametric := canvas.parametric ++ [drawn] }

/-- Adds an annotation if all of its coordinates are finite. -/
def drawMark (element : Element) (coordinates : List (RealExpression Float))
    (canvas : Canvas) : Except ColumnFault Canvas := do
  let (values, scalars) ←
    coordinateValues canvas.sampler.parameter coordinates canvas.scalars
  let mark := if values.all Float.isFinite then element.mark? values else none
  let drawn := (mark.map (PlacedMark.mk element.id)).toList
  .ok { canvas with scalars, annotations := canvas.annotations ++ drawn }

/-- Adds what an element shows. Functions and areas always have a series; anything else that did
not compile is left out. -/
def draw (canvas : Canvas) (element : Element) (compiled : Option CompiledShape) :
    Except ColumnFault Canvas :=
  match element.shape, compiled with
  | .function _, compiled => canvas.drawFunction element compiled
  | .area _ _ opacity, compiled => canvas.drawArea element opacity compiled
  | .parametric source, some (.curve curve) => canvas.drawCurve element source curve
  | _, some (.mark coordinates) => canvas.drawMark element coordinates
  | _, _ => .ok canvas

/-- Adds what some elements show, in order. -/
def drawAll (canvas : Canvas) : List (Element × Option CompiledShape) → Except ColumnFault Canvas
  | [] => .ok canvas
  | (element, compiled) :: rest => do
    let canvas ← canvas.draw element compiled
    canvas.drawAll rest

end Canvas

/-- The scene at a value of the control. -/
def assemble (assembler : Assembler) (control : Float) : Except ColumnFault Scene := do
  let configuration := assembler.configuration
  let blank := Canvas.blank configuration assembler.resolution control
  let canvas ← blank.drawAll (List.zip configuration.elements assembler.compiled)
  .ok
    { parameter := Readout.of configuration.parameterLabel blank.sampler.parameter
      xDomain := configuration.xDomain
      yDomain := configuration.yDomain
      curves := ⟨blank.sampler.abscissae, canvas.series⟩
      parametric := canvas.parametric
      annotations := canvas.annotations }

end Assembler

/-- The scene of a configuration at a value of the control. -/
def assemble (configuration : Configuration) (resolution : Nat) (control : Float) :
    Except ColumnFault Scene :=
  (Assembler.new configuration resolution).assemble control

end LessonPlot
