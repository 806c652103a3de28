import LessonPlot.Proofs.Scene.Sampling

namespace LessonPlot

open Assembler

variable {t : Float} {xs : List Float}

/-- The elements of a configuration, each with what it was compiled to. -/
theorem Assembler.zip_compiled (configuration : Configuration) (resolution : Nat) :
    List.zip configuration.elements (Assembler.new configuration resolution).compiled =
      configuration.elements.map fun element => (element, element.shape.compile.toOption) := by
  have zipped := List.zip_map' (f := id)
    (g := fun element : Element => element.shape.compile.toOption) (l := configuration.elements)
  rwa [List.map_id] at zipped

namespace Assembler.Canvas

variable {canvas : Canvas} {element : Element}

/-- What holds of a canvas between any two elements that are drawn. -/
structure Ready (canvas : Canvas) (xs : List Float) (t : Float) : Prop where
  sampler : canvas.sampler.Ready xs t
  scalars : canvas.scalars.Clean 1

/-- What some elements show has been added to a canvas, and nothing else. -/
structure Shows (canvas : Canvas) (xs : List Float) (t : Float) (elements : List Element)
    (canvas' : Canvas) : Prop where
  ready : canvas'.Ready xs t
  series : canvas'.series = canvas.series ++ elements.filterMap (Element.series? xs t)
  parametric : canvas'.parametric = canvas.parametric ++ elements.filterMap (Element.curve? t)
  annotations :
    canvas'.annotations = canvas.annotations ++ elements.filterMap (Element.placedMark? t)

/-- An element that shows nothing but a series. -/
theorem shows_series (ready : canvas.Ready xs t) {series : Series} {sampler : Sampler}
    (hs : element.series? xs t = some series) (hc : element.curve? t = none)
    (hm : element.placedMark? t = none) (hr : sampler.Ready xs t) :
    canvas.Shows xs t [element] { canvas with sampler, series := canvas.series ++ [series] } := by
  refine ⟨⟨hr, ready.scalars⟩, ?_, ?_, ?_⟩
  · simp [hs]
  · simp [hc]
  · simp [hm]

theorem drawFunction_shows (ready : canvas.Ready xs t) {expression : String}
    (hs : element.shape = .function expression) :
    ∃ canvas', canvas.drawFunction element element.shape.compile.toOption = .ok canvas' ∧
      canvas.Shows xs t [element] canvas' := by
  have series : element.series? xs t = some ⟨element.appearance.id,
      element.appearance.stroke functionStrokeWidth, element.appearance.label,
      .line (.ofId element.appearance.id)
        (xs.map fun x => finiteAt expression (variableBindings Scope.abscissa t x))⟩ := by
    rw [Element.series?, hs]
  have curve : element.curve? t = none := by rw [Element.curve?, hs]
  have mark : element.placedMark? t = none := by
    rw [Element.placedMark?, Element.namedMark?, hs]
    rfl
  have compiled : element.shape.compile.toOption =
      (Scope.function.compile expression).toOption.map .function := by
    rw [hs, Shape.compile, Shape.compileField, Shape.scope]
    cases Scope.function.compile (α := Float) expression <;> rfl
  rw [compiled]
  cases hc : Scope.function.compile (α := Float) expression with
  | error error =>
    refine ⟨_, ?_, shows_series ready series curve mark ready.sampler⟩
    simp [drawFunction, Except.toOption, finiteAt_eq (agree_function t _), hc, bind, Except.bind,
      Sampler.gaps, ready.sampler.abscissae, List.map_const']
  | ok e =>
    obtain ⟨sampler, hv, hr⟩ := ready.sampler.values hc
    refine ⟨_, ?_, shows_series ready series curve mark hr⟩
    simp [drawFunction, bind, Except.bind, Except.toOption, hv]

theorem drawArea_shows (ready : canvas.Ready xs t) {y1 y2 : String} {opacity : Option Float}
    (hs : element.shape = .area y1 y2 opacity) :
    ∃ canvas', canvas.drawArea element opacity element.shape.compile.toOption = .ok canvas' ∧
      canvas.Shows xs t [element] canvas' := by
  have series : element.series? xs t = some ⟨element.appearance.id,
      element.appearance.stroke otherStrokeWidth, element.appearance.label,
      .band (opacity.getD bandOpacity)
        (xs.map fun x => finitePairAt y1 y2 (variableBindings Scope.abscissa t x))⟩ := by
    rw [Element.series?, hs]
  have curve : element.curve? t = none := by rw [Element.curve?, hs]
  have mark : element.placedMark? t = none := by
    rw [Element.placedMark?, Element.namedMark?, hs]
    rfl
  have compiled : element.shape.compile.toOption =
      (Scope.function.compile y1).toOption.bind fun lower =>
        (Scope.function.compile y2).toOption.map fun upper => .area lower upper := by
    rw [hs, Shape.compile, Shape.compileField, Shape.compileField, Shape.scope]
    cases Scope.function.compile (α := Float) y1 <;>
      cases Scope.function.compile (α := Float) y2 <;> rfl
  rw [compiled]
  have refused (h : ∀ x, finitePairAt y1 y2 (variableBindings Scope.abscissa t x) = none) :
      ∃ canvas', canvas.drawArea element opacity none = .ok canvas' ∧
        canvas.Shows xs t [element] canvas' := by
    refine ⟨_, ?_, shows_series ready series curve mark ready.sampler⟩
    simp [drawArea, bind, Except.bind, h, ready.sampler.abscissae, List.map_const']
  cases hl : Scope.function.compile (α := Float) y1 with
  | error error =>
    refine refused fun x => ?_
    simp [finitePairAt, finiteAt_eq (agree_function t x) y1, hl, Except.toOption]
  | ok lower =>
    cases hu : Scope.function.compile (α := Float) y2 with
    | error error =>
      refine refused fun x => ?_
      simp [finitePairAt, finiteAt_eq (agree_function t x) y2, hu, Except.toOption]
    | ok upper =>
      obtain ⟨sampler, hv, hr⟩ := ready.sampler.values hl
      obtain ⟨sampler', hv', hr'⟩ := hr.values hu
      refine ⟨_, ?_, shows_series ready series curve mark hr'⟩
      simp [drawArea, bind, Except.bind, Except.toOption, hv, hv', List.zipWith_map,
        List.zipWith_self, finitePairAt_eq]

theorem drawCurve_shows (ready : canvas.Ready xs t) {source : Parametric}
    (hs : element.shape = .parametric source) :
    ∃ canvas', canvas.draw element element.shape.compile.toOption = .ok canvas' ∧
      canvas.Shows xs t [element] canvas' := by
  have series : element.series? xs t = none := by rw [Element.series?, hs]
  have mark : element.placedMark? t = none := by
    rw [Element.placedMark?, Element.namedMark?, hs]
    rfl
  have compiled : element.shape.compile.toOption =
      (Curve.compile source).toOption.map .curve := by
    rw [hs, Shape.compile, Shape.compileField, Shape.compileField, Shape.scope, Curve.compile]
    cases (Scope.curve source.curveVariable).compile (α := Float) source.x <;>
      cases (Scope.curve source.curveVariable).compile (α := Float) source.y <;> rfl
  rw [compiled, draw.eq_def, hs]
  cases hc : Curve.compile source with
  | error error =>
    have curve : element.curve? t = none := by simp [Element.curve?, hs, hc]
    exact ⟨canvas, rfl, ready, by simp [series], by simp [curve], by simp [mark]⟩
  | ok curve =>
    have traced := Curve.trace_eq hc t
    let drawn : ParametricCurve := ⟨element.appearance.id,
      element.appearance.stroke otherStrokeWidth, element.appearance.label, source.points t⟩
    refine ⟨{ canvas with parametric := canvas.parametric ++ [drawn] }, ?_,
      ⟨ready.sampler, ready.scalars⟩, by simp [series], ?_, by simp [mark]⟩
    · simp only [Except.toOption, Option.map_some, drawCurve, ready.sampler.parameter, traced, bind,
        Except.bind, drawn]
    · simp [Element.curve?, hs, hc, drawn]

theorem draw_annotation (h : element.shape.isAnnotation = true) (canvas : Canvas) :
    canvas.draw element none = .ok canvas ∧
      ∀ coordinates, canvas.draw element (some (.mark coordinates)) =
        canvas.drawMark element coordinates := by
  unfold draw
  generalize element.shape = shape at h ⊢
  cases shape with
  | function _ | parametric _ | area _ _ _ => cases h
  | point _ _ _ | line _ | vector _ | vLine _ | hLine _ | text _ _ _ _ => exact ⟨rfl, fun _ => rfl⟩

theorem drawMark_shows (ready : canvas.Ready xs t) (h : element.shape.isAnnotation = true) :
    ∃ canvas', canvas.draw element element.shape.compile.toOption = .ok canvas' ∧
      canvas.Shows xs t [element] canvas' := by
  have series := Element.series?_of_isAnnotation h xs t
  have curve := Element.curve?_of_isAnnotation h t
  have scope := Shape.scope_of_isAnnotation h
  obtain ⟨undrawn, drawn⟩ := draw_annotation h canvas
  rw [Shape.compile_of_isAnnotation h]
  cases hc : element.shape.compileFields element.shape.expressions with
  | error error =>
    have mark : element.placedMark? t = none := by
      rw [Element.placedMark?, Element.namedMark?_eq h, mapM_of_refused scope hc t]
      rfl
    exact ⟨canvas, undrawn, ready, by simp [series], by simp [curve], by simp [mark]⟩
  | ok coordinates =>
    obtain ⟨values, scalars, hv, hr, hm⟩ :=
      coordinateValues_of_clean scope hc ready.scalars t
    have placed : element.placedMark? t =
        (if values.all Float.isFinite then element.mark? values else none).map
          (PlacedMark.mk element.id) := by
      rw [Element.placedMark?, Element.namedMark?_eq h, hm]
      cases values.all Float.isFinite <;> rfl
    refine ⟨{ canvas with
      scalars, annotations := canvas.annotations ++ (element.placedMark? t).toList }, ?_,
      ⟨ready.sampler, hr⟩, by simp [series], by simp [curve], ?_⟩
    · simp only [Except.map, Except.toOption, drawn, drawMark, ready.sampler.parameter, hv, bind,
        Except.bind, placed]
    · cases hp : element.placedMark? t <;> simp [hp]

/-- Each element adds what it shows when it is evaluated by names. -/
theorem draw_shows (ready : canvas.Ready xs t) (element : Element) :
    ∃ canvas', canvas.draw element element.shape.compile.toOption = .ok canvas' ∧
      canvas.Shows xs t [element] canvas' := by
  cases hs : element.shape with
  | function expression =>
    have drawn := drawFunction_shows ready hs
    rw [hs] at drawn
    simpa [draw.eq_def, hs] using drawn
  | area y1 y2 opacity =>
    have drawn := drawArea_shows ready hs
    rw [hs] at drawn
    simpa [draw.eq_def, hs] using drawn
  | parametric source => exact hs ▸ drawCurve_shows ready hs
  | point x y radius => exact hs ▸ drawMark_shows ready (hs ▸ rfl)
  | line ends => exact hs ▸ drawMark_shows ready (hs ▸ rfl)
  | vector ends => exact hs ▸ drawMark_shows ready (hs ▸ rfl)
  | vLine x => exact hs ▸ drawMark_shows ready (hs ▸ rfl)
  | hLine y => exact hs ▸ drawMark_shows ready (hs ▸ rfl)
  | text x y content size => exact hs ▸ drawMark_shows ready (hs ▸ rfl)

theorem Shows.trans {canvas' canvas'' : Canvas} {elements others : List Element}
    (h : canvas.Shows xs t elements canvas') (h' : canvas'.Shows xs t others canvas'') :
    canvas.Shows xs t (elements ++ others) canvas'' := by
  refine ⟨h'.ready, ?_, ?_, ?_⟩
  · rw [h'.series, h.series, List.filterMap_append, List.append_assoc]
  · rw [h'.parametric, h.parametric, List.filterMap_append, List.append_assoc]
  · rw [h'.annotations, h.annotations, List.filterMap_append, List.append_assoc]

theorem drawAll_shows (ready : canvas.Ready xs t) (elements : List Element) :
    ∃ canvas', canvas.drawAll
        (elements.map fun element => (element, element.shape.compile.toOption)) = .ok canvas' ∧
      canvas.Shows xs t elements canvas' := by
  induction elements generalizing canvas with
  | nil => exact ⟨canvas, rfl, ready, by simp, by simp, by simp⟩
  | cons element elements ih =>
    obtain ⟨canvas', hd, shows⟩ := draw_shows ready element
    obtain ⟨canvas'', hr, shows'⟩ := ih shows.ready
    exact ⟨canvas'', bind_eq_ok_iff.mpr ⟨canvas', hd, hr⟩, shows.trans shows'⟩

section Blank

variable (configuration : Configuration) (resolution : Nat) (control : Float)

theorem ready_blank : (blank configuration resolution control).Ready
    (grid configuration.xDomain resolution)
    (Control.toParameter control configuration.parameterRange) :=
  ⟨Sampler.ready_new _ _ _, Registers.clean_new 1⟩

/-- The scene of a configuration once everything has been drawn on a canvas. -/
def scene (canvas : Canvas) : Scene :=
  { parameter := Readout.of configuration.parameterLabel
      (Control.toParameter control configuration.parameterRange)
    xDomain := configuration.xDomain
    yDomain := configuration.yDomain
    curves := ⟨grid configuration.xDomain resolution, canvas.series⟩
    parametric := canvas.parametric
    annotations := canvas.annotations }

/-- Every element finds the registers of the ones before it clean, so that a scene is what its
elements show, each by itself. -/
theorem assemble_shows : ∃ canvas,
    (blank configuration resolution control).Shows (grid configuration.xDomain resolution)
      (Control.toParameter control configuration.parameterRange) configuration.elements canvas ∧
    LessonPlot.assemble configuration resolution control =
      .ok (canvas.scene configuration resolution control) := by
  obtain ⟨canvas, drawn, shows⟩ :=
    drawAll_shows (ready_blank configuration resolution control) configuration.elements
  rw [← zip_compiled configuration resolution] at drawn
  exact ⟨canvas, shows, bind_eq_ok_iff.mpr ⟨canvas, drawn, rfl⟩⟩

end Blank

end Assembler.Canvas

/-- What is compiled once and evaluated in columns is what is evaluated value by value, by names:
every configuration has a scene, and it is the one in which each text is read anew for each value;
and a parametric curve that compiles is traced through the same points. -/
theorem assemble_eq_namedScene (configuration : Configuration) (resolution : Nat)
    (control : Float) :
    assemble configuration resolution control =
        .ok (configuration.namedScene resolution control) ∧
      ∀ source t, (Curve.compile source).map (fun curve =>
          curve.trace source.curveRange source.stepCount t) =
        (Curve.compile source).map fun _ => .ok (source.points t) := by
  have traced (source : Parametric) (t : Float) : (Curve.compile source).map (fun curve =>
      curve.trace source.curveRange source.stepCount t) =
        (Curve.compile source).map fun _ => .ok (source.points t) := by
    cases h : Curve.compile source with
    | error error => rfl
    | ok curve => rw [Except.map, Except.map, Curve.trace_eq h t]
  refine ⟨?_, traced⟩
  obtain ⟨canvas, shows, assembled⟩ := Canvas.assemble_shows configuration resolution control
  rw [assembled, Canvas.scene, shows.series, shows.parametric, shows.annotations]
  rfl

end LessonPlot
