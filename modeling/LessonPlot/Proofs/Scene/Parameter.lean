import LessonPlot.Proofs.Expression.Names
import LessonPlot.Proofs.Scene.Isolation

namespace LessonPlot

open Assembler

namespace Shape

/-- The name that a parametric curve gives to its own variable. -/
def ownVariable? : Shape → Option String
  | parametric source => some source.curveVariable
  | _ => none

/-- The slot of the interactive parameter. -/
def parameterSlot : Shape → Nat
  | function _ | parametric _ | area .. => 1
  | point .. | line _ | vector _ | vLine _ | hLine _ | text .. => 0

/-- Both names of the interactive parameter lead to its slot, except for the one that is taken by the
variable of a curve. -/
theorem slot?_scope (shape : Shape) {name : String}
    (h : name = Scope.parameter ∨ name = Scope.parameterAlways) :
    shape.scope.slot? name =
      some (if shape.ownVariable? = some name then 0 else shape.parameterSlot) := by
  have notAbscissa : name ≠ Scope.abscissa := by
    rcases h with rfl | rfl <;> decide
  cases shape with
  | function _ | area _ _ _ =>
    rw [scope, Scope.slot?_function, if_neg notAbscissa, if_pos h]
    rfl
  | parametric source =>
    rw [scope, Scope.slot?_curve, if_pos h, ownVariable?]
    by_cases own : name = source.curveVariable
    · rw [if_pos own, own, if_pos rfl]
    · rw [if_neg own, if_neg fun taken => own (Option.some.inj taken).symm]
      rfl
  | point _ _ _ | line _ | vector _ | vLine _ | hLine _ | text _ _ _ _ =>
    rw [scope, Scope.slot?_parameterOnly, if_pos h]
    rfl

/-- A name that leads to the parameter's slot is not the variable of a curve. -/
theorem slot_eq_parameterSlot_iff (shape : Shape) (name : String) :
    (if shape.ownVariable? = some name then 0 else shape.parameterSlot) = shape.parameterSlot ↔
      ¬ ∃ source, shape = .parametric source ∧ source.curveVariable = name := by
  cases shape with
  | parametric source =>
    by_cases own : source.curveVariable = name
    · simp [ownVariable?, own, parameterSlot]
    · simp [ownVariable?, own]
  | function _ | area _ _ _ | point _ _ _ | line _ | vector _ | vLine _ | hLine _ | text _ _ _ _ =>
    simp [ownVariable?]

end Shape

/-- The name that is always the parameter's is that of a curve's variable only where the element
itself says so. -/
theorem Parametric.curveVariable_eq_parameterAlways_iff (source : Parametric) :
    source.curveVariable = Scope.parameterAlways ↔
      source.variableName = some Scope.parameterAlways := by
  unfold curveVariable
  cases source.variableName with
  | some name => simp
  | none =>
    have other : source.inferredVariable.getD Scope.parameter ≠ Scope.parameterAlways := by
      cases hi : source.inferredVariable with
      | none => decide
      | some name =>
        unfold inferredVariable at hi
        split at hi
        next inX inY _ _ =>
          dsimp only at hi
          split at hi
          next single =>
            split at hi
            next =>
              cases hi
              have hm : name ∈ (inX ++ inY).eraseDups.filter fun name =>
                  name ≠ Scope.parameter && name ≠ Scope.parameterAlways :=
                single ▸ List.mem_singleton_self _
              have kept := (List.mem_filter.mp hm).2
              simp only [Bool.and_eq_true, decide_eq_true_eq] at kept
              exact kept.2
            next => cases hi
          next => cases hi
        next => cases hi
    simp [other]

namespace Assembler.Canvas

/-- The columns over which the expressions of a shape are evaluated. -/
def columns (canvas : Canvas) : Shape → List (Column Float)
  | .function _ | .area .. => canvas.sampler.columns
  | .parametric source =>
    let along := grid source.curveRange source.stepCount
    [along, List.replicate along.length canvas.sampler.parameter]
  | .point .. | .line _ | .vector _ | .vLine _ | .hLine _ | .text .. =>
    [[canvas.sampler.parameter]]

/-- The slot of the interactive parameter holds it in every row. -/
theorem columns_parameterSlot (canvas : Canvas) (shape : Shape) : ∃ rows,
    (canvas.columns shape)[shape.parameterSlot]? =
      some (List.replicate rows canvas.sampler.parameter) := by
  cases shape with
  | function _ | area _ _ _ => exact ⟨canvas.sampler.abscissae.length, rfl⟩
  | parametric source => exact ⟨(grid source.curveRange source.stepCount).length, rfl⟩
  | point _ _ _ | line _ | vector _ | vLine _ | hLine _ | text _ _ _ _ => exact ⟨1, rfl⟩

end Assembler.Canvas

/-- Two expressions have the same values over given columns, with the same use of registers. -/
def RealExpression.AgreeOver (columns : List (Column Float)) (e e' : RealExpression Float) : Prop :=
  e.evaluate columns = e'.evaluate columns

/-- Two compiled shapes of one kind whose expressions have the same values over given columns. -/
inductive CompiledShape.AgreeOver (columns : List (Column Float)) :
    CompiledShape → CompiledShape → Prop where
  | function {e e' : RealExpression Float} (h : e.AgreeOver columns e') :
      AgreeOver columns (.function e) (.function e')
  | area {lower upper lower' upper' : RealExpression Float}
      (h : lower.AgreeOver columns lower') (h' : upper.AgreeOver columns upper') :
      AgreeOver columns (.area lower upper) (.area lower' upper')
  | curve {x y x' y' : RealExpression Float} (h : x.AgreeOver columns x')
      (h' : y.AgreeOver columns y') : AgreeOver columns (.curve ⟨x, y⟩) (.curve ⟨x', y'⟩)
  | mark {coordinates coordinates' : List (RealExpression Float)}
      (h : coordinates.map (·.evaluate columns) = coordinates'.map (·.evaluate columns)) :
      AgreeOver columns (.mark coordinates) (.mark coordinates')

namespace Sampler

variable {sampler : Sampler} {e e' : RealExpression Float}

theorem values_congr (h : e.AgreeOver sampler.columns e') : sampler.values e = sampler.values e' := by
  have same : e.evaluate sampler.columns = e'.evaluate sampler.columns := h
  simp only [values, evaluate, same]

theorem columns_of_values {values : List (Option Float)} {sampler' : Sampler}
    (h : sampler.values e = .ok (values, sampler')) : sampler'.columns = sampler.columns := by
  obtain ⟨⟨raw, evaluated⟩, he, h⟩ := bind_eq_ok_iff.mp h
  obtain ⟨⟨output, registers⟩, -, he⟩ := bind_eq_ok_iff.mp he
  cases he
  cases h
  rfl

end Sampler

theorem coordinateValues_congr {t : Float} {coordinates coordinates' : List (RealExpression Float)}
    (h : coordinates.map (·.evaluate [[t]]) = coordinates'.map (·.evaluate [[t]])) :
    coordinateValues t coordinates = coordinateValues t coordinates' := by
  induction coordinates generalizing coordinates' with
  | nil =>
    cases List.map_eq_nil_iff.mp h.symm
    rfl
  | cons first rest ih =>
    obtain ⟨first', rest', rfl, hf, hr⟩ := List.map_eq_cons_iff.mp h.symm
    funext registers
    simp only [coordinateValues, hf, ih hr.symm]

namespace Assembler.Canvas

variable {canvas : Canvas} {element : Element} {compiled compiled' : CompiledShape}

/-- What an element draws depends on its expressions only through their values over the columns of
its shape. -/
theorem draw_congr (hc : element.shape.compile = .ok compiled)
    (h : compiled.AgreeOver (canvas.columns element.shape) compiled') :
    canvas.draw element (some compiled) = canvas.draw element (some compiled') := by
  rw [draw.eq_def, draw.eq_def]
  generalize element.shape = shape at hc h
  cases shape with
  | function source =>
    obtain ⟨e, -, hc⟩ := bind_eq_ok_iff.mp hc
    cases hc
    cases h with
    | function h => simp only [drawFunction, Sampler.values_congr h]
  | area y1 y2 opacity =>
    obtain ⟨lower, -, hc⟩ := bind_eq_ok_iff.mp hc
    obtain ⟨upper, -, hc⟩ := bind_eq_ok_iff.mp hc
    cases hc
    cases h with
    | area h h' =>
      simp only [drawArea, ← Sampler.values_congr h]
      cases hv : canvas.sampler.values lower with
      | error fault => rfl
      | ok result =>
        -- the band's upper edge is sampled over the columns that the lower edge was sampled over
        rw [columns, ← Sampler.columns_of_values hv] at h'
        simp only [bind, Except.bind, Sampler.values_congr h']
  | parametric source =>
    obtain ⟨x, -, hc⟩ := bind_eq_ok_iff.mp hc
    obtain ⟨y, -, hc⟩ := bind_eq_ok_iff.mp hc
    cases hc
    cases h with
    | @curve _ _ x' y' h h' =>
      have traced : Curve.trace ⟨x, y⟩ source.curveRange source.stepCount canvas.sampler.parameter =
          Curve.trace ⟨x', y'⟩ source.curveRange source.stepCount canvas.sampler.parameter := by
        unfold RealExpression.AgreeOver columns at h h'
        simp only [Curve.trace, h, h']
      simp only [drawCurve, traced]
  | point _ _ _ | line _ | vector _ | vLine _ | hLine _ | text _ _ _ _ =>
    obtain ⟨coordinates, -, hc⟩ := bind_eq_ok_iff.mp hc
    cases hc
    cases h with
    | mark h => simp only [drawMark, coordinateValues_congr h]

end Assembler.Canvas

/-- On the canvas that an element is drawn on, the interactive parameter fills a slot of its own, and
each occurrence of `T` or `t` in a text that compiles refers to that slot, except where a parametric
curve has given the name to its own variable: `T` only if its element says so. -/
theorem parameter_occurrences (configuration : Configuration) (resolution : Nat) (control : Float)
    (place : Fin configuration.elements.length) :
    let element := configuration.elements[place]
    ∃ canvas : Canvas, (Canvas.blank configuration resolution control).drawAll
        ((configuration.elements.take place).map fun e => (e, e.shape.compile.toOption)) =
          .ok canvas ∧
      (∀ compiled compiled', element.shape.compile = .ok compiled →
        compiled.AgreeOver (canvas.columns element.shape) compiled' →
        canvas.draw element (some compiled) = canvas.draw element (some compiled')) ∧
      (∃ rows, (canvas.columns element.shape)[element.shape.parameterSlot]? = some
        (List.replicate rows (Control.toParameter control configuration.parameterRange))) ∧
      ∀ (text : String) (e : RealExpression Float), element.shape.scope.compile text = .ok e →
        ∃ formula, Formula.read text = .ok formula ∧
          e.slots.length = (freeNames formula.names).length ∧
          ∀ occurrence : Nat,
            ((freeNames formula.names)[occurrence]? = some Scope.parameterAlways →
              (e.slots[occurrence]? = some element.shape.parameterSlot ↔
                ¬ ∃ source, element.shape = .parametric source ∧
                  source.variableName = some Scope.parameterAlways)) ∧
            ((freeNames formula.names)[occurrence]? = some Scope.parameter →
              (e.slots[occurrence]? = some element.shape.parameterSlot ↔
                ¬ ∃ source, element.shape = .parametric source ∧
                  source.curveVariable = Scope.parameter)) := by
  intro element
  have ready := Canvas.ready_blank configuration resolution control
  obtain ⟨canvas, drawn, shows⟩ :=
    Canvas.drawAll_shows ready (configuration.elements.take place)
  obtain ⟨rows, filled⟩ := canvas.columns_parameterSlot element.shape
  rw [shows.ready.sampler.parameter] at filled
  refine ⟨canvas, drawn, fun _ _ hc h => Canvas.draw_congr hc h, ⟨rows, filled⟩, ?_⟩
  intro text e compiled
  obtain ⟨formula, read, resolves⟩ := Scope.compile_resolves compiled
  refine ⟨formula, read, resolves.length_eq, fun occurrence => ⟨fun hn => ?_, fun hn => ?_⟩⟩
  · obtain ⟨index, hi, hs⟩ := resolves.getElem? hn
    rw [element.shape.slot?_scope (.inr rfl)] at hs
    rw [hi, ← hs, Option.some.injEq, element.shape.slot_eq_parameterSlot_iff]
    simp only [Parametric.curveVariable_eq_parameterAlways_iff]
  · obtain ⟨index, hi, hs⟩ := resolves.getElem? hn
    rw [element.shape.slot?_scope (.inl rfl)] at hs
    rw [hi, ← hs, Option.some.injEq, element.shape.slot_eq_parameterSlot_iff]

/-- A curve that calls its own variable `T` takes that name away from the interactive parameter: the
one occurrence of `T` refers to the column of the curve's own values. -/
theorem exists_parameterAlways_not_parameter :
    let source : Parametric := ⟨"T", "0", some ⟨0, 1⟩, some 1, some Scope.parameterAlways⟩
    let element : Element := ⟨⟨"c", "black", none, .solid, none⟩, .parametric source⟩
    let configuration : Configuration := ⟨⟨0, 1⟩, ⟨0, 1⟩, ⟨0, 10⟩, "", [element]⟩
    Control.toParameter 50 configuration.parameterRange = 5 ∧
      (∃ formula, Formula.read "T" = .ok formula ∧
        freeNames formula.names = [Scope.parameterAlways]) ∧
      element.shape.scope.compile (α := Float) "T" = .ok (.slot 0) ∧
      (Canvas.blank configuration 1 50).columns element.shape = [[0, 1], [5, 5]] := by
  intro source element configuration
  have parameter : Control.toParameter 50 configuration.parameterRange = 5 := by decide +kernel
  have along : grid source.curveRange source.stepCount = [0, 1] := by decide +kernel
  have read : Formula.read "T" = .ok (.operation (.last [] (.name "T"))) := by rfl
  have flat : (.real (.slot 0) : Expression Float).walkedDepth ≤ maxDepth := by
    simp [Expression.walkedDepth, Expression.deepestLevel, Expression.children, maxDepth]
  have parsed : Expression.parse (Scope.curve "T").slot? "T" =
      .ok (.real (.slot 0) : Expression Float) :=
    Expression.parse_of_build (by decide) read rfl flat
  have compiled : element.shape.scope.compile (α := Float) "T" = .ok (.slot 0) := by
    change Expression.parseReal (Scope.curve "T").slot? "T" = _
    rw [Expression.parseReal, parsed]
    rfl
  refine ⟨parameter, ⟨.operation (.last [] (.name "T")), read, by decide⟩, compiled, ?_⟩
  change [grid source.curveRange source.stepCount, List.replicate
    (grid source.curveRange source.stepCount).length
    (Control.toParameter 50 configuration.parameterRange)] = [[0, 1], [5, 5]]
  rw [along, parameter]
  rfl

end LessonPlot
