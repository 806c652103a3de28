import LessonPlot.Proofs.Scene.Reference

namespace LessonPlot

open Assembler

variable {t : Float} {xs : List Float}

/-- What holds of a sampler between any two of its evaluations. -/
structure Sampler.Ready (sampler : Sampler) (xs : List Float) (t : Float) : Prop where
  abscissae : sampler.abscissae = xs
  parameter : sampler.parameter = t
  registers : sampler.registers.Clean xs.length

theorem Sampler.ready_new (domain : Interval) (resolution : Nat) (t : Float) :
    (Sampler.new domain resolution t).Ready (grid domain resolution) t :=
  ⟨rfl, rfl, Registers.clean_new _⟩

/-- A sampled column has in each row what the text has in the bindings of that row. -/
theorem Sampler.Ready.values {sampler : Sampler} (ready : sampler.Ready xs t) {text : String}
    {e : RealExpression Float} (h : Scope.function.compile text = .ok e) :
    ∃ sampler', sampler.values e =
      .ok (xs.map fun x => finiteAt text (variableBindings Scope.abscissa t x), sampler') ∧
        sampler'.Ready xs t := by
  obtain ⟨rfl, rfl, clean⟩ := ready
  have covered := Scope.bounded_function.slots_lt h
  obtain ⟨pool', hr, hc⟩ := evaluate_two (t := sampler.parameter) clean covered
  have named (x : Float) : finiteAt text (variableBindings Scope.abscissa sampler.parameter x) =
      finiteValue (e.valueAt (rowAt [[x], [sampler.parameter]] 0)) := by
    rw [finiteAt_eq (agree_function sampler.parameter x), h]
    rfl
  let raw := sampler.abscissae.map fun x => e.valueAt (rowAt [[x], [sampler.parameter]] 0)
  refine ⟨{ sampler with registers := pool'.recycleReal raw }, ?_, rfl, rfl, hc.recycleReal raw⟩
  simp only [Sampler.values, Sampler.evaluate, Sampler.columns, hr, bind, Except.bind,
    List.map_map, named]
  rfl

theorem finitePairAt_eq (first second : String) (bindings : List (String × Float)) :
    finitePairAt first second bindings =
      Canvas.pairValues (finiteAt first bindings) (finiteAt second bindings) := by
  unfold finitePairAt
  cases finiteAt first bindings <;> cases finiteAt second bindings <;> rfl

theorem filter_zip_finite (xs : List Float) (f g : Float → Float) :
    (List.zip (xs.map f) (xs.map g)).filter (fun point => point.1.isFinite && point.2.isFinite) =
      xs.filterMap fun x => Canvas.pairValues (finiteValue (f x)) (finiteValue (g x)) := by
  induction xs with
  | nil => rfl
  | cons x xs ih =>
    simp only [List.map_cons, List.zip_cons_cons, List.filter_cons, List.filterMap_cons, ih,
      finiteValue]
    cases (f x).isFinite <;> cases (g x).isFinite <;> rfl

/-- The traced points are those that are evaluated by names. -/
theorem Curve.trace_eq {source : Parametric} {curve : Curve} (h : Curve.compile source = .ok curve)
    (t : Float) : curve.trace source.curveRange source.stepCount t = .ok (source.points t) := by
  obtain ⟨x, hx, h⟩ := bind_eq_ok_iff.mp h
  obtain ⟨y, hy, h⟩ := bind_eq_ok_iff.mp h
  cases h
  have bounded := Scope.bounded_curve source.curveVariable
  have coveredX := bounded.slots_lt hx
  have coveredY := bounded.slots_lt hy
  rw [Scope.slots_curve] at coveredX coveredY
  have clean := Registers.clean_new (α := Float) (grid source.curveRange source.stepCount).length
  obtain ⟨pool', hrx, hc⟩ := evaluate_two (t := t) clean coveredX
  obtain ⟨pool'', hry, -⟩ := evaluate_two (t := t) hc coveredY
  have named (text : String) (e : RealExpression Float)
      (he : (Scope.curve source.curveVariable).compile text = .ok e) (p : Float) :
      finiteAt text (variableBindings source.curveVariable t p) =
        finiteValue (e.valueAt (rowAt [[p], [t]] 0)) := by
    rw [finiteAt_eq (agree_curve source.curveVariable t p), he]
    rfl
  simp only [Curve.trace, hrx, hry, bind, Except.bind, filter_zip_finite, Parametric.points,
    finitePairAt_eq, named source.x x hx, named source.y y hy]

theorem evaluate_one {scalars : Registers Float} (clean : scalars.Clean 1)
    {e : RealExpression Float} (covered : ∀ index ∈ e.slots, index < 1) :
    ∃ scalars', e.evaluate [[t]] scalars = .ok ([e.valueAt (rowAt [[t]] 0)], scalars') ∧
      scalars'.Clean 1 := by
  have lengths : ∀ column ∈ [[t]], column.length = 1 := by simp
  obtain ⟨scalars', hr, hc⟩ := e.evaluate_of_clean clean lengths covered
  exact ⟨scalars', hr, hc⟩

section Coordinates

variable {shape : Shape} {fields : List (String × String)}

theorem Shape.compileField_eq_ok_iff {field source : String} {e : RealExpression Float} :
    shape.compileField field source = .ok e ↔ shape.scope.compile source = .ok e := by
  unfold compileField
  cases shape.scope.compile (α := Float) source <;> simp

/-- The coordinates of an annotation are those that are evaluated by names. -/
theorem coordinateValues_of_clean (hs : shape.scope = Scope.parameterOnly)
    {coordinates : List (RealExpression Float)}
    (h : shape.compileFields fields = .ok coordinates) {scalars : Registers Float}
    (clean : scalars.Clean 1) (t : Float) :
    ∃ values scalars', coordinateValues t coordinates scalars = .ok (values, scalars') ∧
      scalars'.Clean 1 ∧
      (fields.mapM fun entry => finiteAt entry.2 (parameterBindings t)) =
        if values.all Float.isFinite then some values else none := by
  induction fields generalizing coordinates scalars with
  | nil =>
    cases h
    exact ⟨[], scalars, rfl, clean, rfl⟩
  | cons entry fields ih =>
    obtain ⟨field, source⟩ := entry
    obtain ⟨first, hf, h⟩ := bind_eq_ok_iff.mp h
    obtain ⟨others, ho, h⟩ := bind_eq_ok_iff.mp h
    cases h
    rw [Shape.compileField_eq_ok_iff, hs] at hf
    have covered := Scope.bounded_parameterOnly.slots_lt hf
    obtain ⟨pool, hr, hc⟩ := evaluate_one (t := t) clean covered
    obtain ⟨values, scalars', hv, hc', hm⟩ :=
      ih ho (hc.recycleReal [first.valueAt (rowAt [[t]] 0)])
    have named : finiteAt source (parameterBindings t) =
        finiteValue (first.valueAt (rowAt [[t]] 0)) := by
      rw [finiteAt_eq (agree_parameterOnly t), hf]
      rfl
    refine ⟨first.valueAt (rowAt [[t]] 0) :: values, scalars', ?_, hc', ?_⟩
    · simp only [coordinateValues, hr, hv, bind, Except.bind, List.head?_cons, Option.getD_some]
    · generalize first.valueAt (rowAt [[t]] 0) = value at named ⊢
      rw [List.mapM_cons, hm]
      by_cases hf : value.isFinite = true
      · cases ha : values.all Float.isFinite <;> simp [named, finiteValue, hf, ha]
      · simp [named, finiteValue, hf]

theorem mapM_of_refused (hs : shape.scope = Scope.parameterOnly) {error : CompileError}
    (h : shape.compileFields fields = .error error) (t : Float) :
    (fields.mapM fun entry => finiteAt entry.2 (parameterBindings t)) = none := by
  induction fields with
  | nil => cases h
  | cons entry fields ih =>
    obtain ⟨field, source⟩ := entry
    cases hc : shape.scope.compile (α := Float) source with
    | error refused =>
      have named : finiteAt source (parameterBindings t) = none := by
        rw [finiteAt_eq (agree_parameterOnly t), ← hs, hc]
        rfl
      simp only [List.mapM_cons, named]
      rfl
    | ok first =>
      have hf : shape.compileField field source = .ok first := Shape.compileField_eq_ok_iff.mpr hc
      have hr : shape.compileFields fields = .error error := by
        simp only [Shape.compileFields, hf, bind, Except.bind] at h
        split at h
        next refused hr => rw [hr, ← h]
        next => cases h
      simp only [List.mapM_cons, ih hr]
      cases finiteAt source (parameterBindings t) <;> rfl

end Coordinates

end LessonPlot
