import LessonPlot.Proofs.Evaluation.Named
import LessonPlot.Scene.Assemble

namespace LessonPlot

/-- The bindings of the texts of a curve, band or parametric curve at one value of its variable. -/
def variableBindings (variableName : String) (t value : Float) : List (String × Float) :=
  [(variableName, value), (Scope.parameter, t), (Scope.parameterAlways, t)]

/-- The bindings of the texts of annotations. -/
def parameterBindings (t : Float) : List (String × Float) :=
  [(Scope.parameter, t), (Scope.parameterAlways, t)]

/-- The value of a text under bindings, if it has one and that is finite. -/
def finiteAt (text : String) (bindings : List (String × Float)) : Option Float :=
  (tryEvaluate text bindings).toOption.filter Float.isFinite

/-- The two values of a pair of texts under bindings, if both have one and those are finite. -/
def finitePairAt (first second : String) (bindings : List (String × Float)) :
    Option (Float × Float) := do
  let a ← finiteAt first bindings
  let b ← finiteAt second bindings
  some (a, b)

/-- The points of a parametric curve, each evaluated by names on its own. -/
def Parametric.points (source : Parametric) (t : Float) : List (Float × Float) :=
  (grid source.curveRange source.stepCount).filterMap fun p =>
    finitePairAt source.x source.y (variableBindings source.curveVariable t p)

namespace Element

/-- The series of a function or an area, each of its rows evaluated by names on its own. -/
def series? (xs : List Float) (t : Float) (element : Element) : Option Series :=
  let appearance := element.appearance
  match element.shape with
  | .function expression =>
    some ⟨appearance.id, appearance.stroke functionStrokeWidth, appearance.label,
      .line (.ofId appearance.id)
        (xs.map fun x => finiteAt expression (variableBindings Scope.abscissa t x))⟩
  | .area y1 y2 opacity =>
    some ⟨appearance.id, appearance.stroke otherStrokeWidth, appearance.label,
      .band (opacity.getD bandOpacity)
        (xs.map fun x => finitePairAt y1 y2 (variableBindings Scope.abscissa t x))⟩
  | _ => none

/-- The curve of a parametric element of which both expressions compile. -/
def curve? (t : Float) (element : Element) : Option ParametricCurve :=
  let appearance := element.appearance
  match element.shape with
  | .parametric source =>
    match Curve.compile source with
    | .ok _ => some ⟨appearance.id, appearance.stroke otherStrokeWidth, appearance.label,
        source.points t⟩
    | .error _ => none
  | _ => none

/-- What an annotation draws, each of its coordinates evaluated by names and finite. -/
def namedMark? (t : Float) (element : Element) : Option Mark :=
  let appearance := element.appearance
  let stroke := appearance.stroke otherStrokeWidth
  let value (source : String) := finiteAt source (parameterBindings t)
  match element.shape with
  | .point x y radius => do
    let x ← value x
    let y ← value y
    some (.point appearance.color x y (radius.getD pointRadius) appearance.label)
  | .line ends => do
    let x1 ← value ends.x1
    let y1 ← value ends.y1
    let x2 ← value ends.x2
    let y2 ← value ends.y2
    some (.segment stroke (x1, y1) (x2, y2) false appearance.label)
  | .vector ends => do
    let x1 ← value ends.x1
    let y1 ← value ends.y1
    let x2 ← value ends.x2
    let y2 ← value ends.y2
    some (.segment stroke (x1, y1) (x2, y2) true appearance.label)
  | .vLine x => do
    let x ← value x
    some (.vLine stroke x appearance.label)
  | .hLine y => do
    let y ← value y
    some (.hLine stroke y appearance.label)
  | .text x y content fontSize => do
    let x ← value x
    let y ← value y
    some (.text appearance.color x y content (fontSize.getD textSize))
  | .function _ | .parametric _ | .area .. => none

def placedMark? (t : Float) (element : Element) : Option PlacedMark :=
  (element.namedMark? t).map (PlacedMark.mk element.id)

end Element

/-- The scene of a configuration in which every text is read and evaluated anew, by names, for each
value that is shown. -/
def Configuration.namedScene (configuration : Configuration) (resolution : Nat)
    (control : Float) : Scene :=
  let t := Control.toParameter control configuration.parameterRange
  let xs := grid configuration.xDomain resolution
  { parameter := Readout.of configuration.parameterLabel t
    xDomain := configuration.xDomain
    yDomain := configuration.yDomain
    curves := ⟨xs, configuration.elements.filterMap (Element.series? xs t)⟩
    parametric := configuration.elements.filterMap (Element.curve? t)
    annotations := configuration.elements.filterMap (Element.placedMark? t) }

/-- The shapes that are drawn at coordinates which depend on the interactive parameter alone. -/
def Shape.isAnnotation : Shape → Bool
  | function _ | parametric _ | area .. => false
  | point .. | line _ | vector _ | vLine _ | hLine _ | text .. => true

theorem Shape.scope_of_isAnnotation {shape : Shape} (h : shape.isAnnotation = true) :
    shape.scope = Scope.parameterOnly := by
  cases shape with
  | function _ | parametric _ | area _ _ _ => cases h
  | point _ _ _ | line _ | vector _ | vLine _ | hLine _ | text _ _ _ _ => rfl

theorem Shape.compile_of_isAnnotation {shape : Shape} (h : shape.isAnnotation = true) :
    shape.compile = (shape.compileFields shape.expressions).map .mark := by
  cases shape with
  | function _ | parametric _ | area _ _ _ => cases h
  | point _ _ _ | line _ | vector _ | vLine _ | hLine _ | text _ _ _ _ => rfl

namespace Element

variable {element : Element} (h : element.shape.isAnnotation = true)

include h

theorem series?_of_isAnnotation (xs : List Float) (t : Float) : element.series? xs t = none := by
  unfold series?
  generalize element.shape = shape at h ⊢
  cases shape with
  | function _ | parametric _ | area _ _ _ => cases h
  | point _ _ _ | line _ | vector _ | vLine _ | hLine _ | text _ _ _ _ => rfl

theorem curve?_of_isAnnotation (t : Float) : element.curve? t = none := by
  unfold curve?
  generalize element.shape = shape at h ⊢
  cases shape with
  | function _ | parametric _ | area _ _ _ => cases h
  | point _ _ _ | line _ | vector _ | vLine _ | hLine _ | text _ _ _ _ => rfl

/-- The coordinates of an annotation in order are those of what it draws. -/
theorem namedMark?_eq (t : Float) :
    element.namedMark? t =
      (element.shape.expressions.mapM fun entry =>
        finiteAt entry.2 (parameterBindings t)).bind element.mark? := by
  unfold namedMark?
  cases hs : element.shape with
  | function _ | parametric _ | area _ _ _ =>
    rw [hs] at h
    cases h
  | point x y radius => simp [Shape.expressions, mark?, hs, Option.bind_assoc]
  | line ends => simp [Shape.expressions, Segment.expressions, mark?, hs, Option.bind_assoc]
  | vector ends => simp [Shape.expressions, Segment.expressions, mark?, hs, Option.bind_assoc]
  | vLine x => simp [Shape.expressions, mark?, hs, Option.bind_assoc]
  | hLine y => simp [Shape.expressions, mark?, hs, Option.bind_assoc]
  | text x y content size => simp [Shape.expressions, mark?, hs, Option.bind_assoc]

end Element

theorem agree_curve (variableName : String) (t value : Float) :
    Agree (Scope.curve variableName) (rowAt [[value], [t]] 0)
      (variableBindings variableName t value) := by
  intro name
  simp only [Scope.slot?_curve, variableBindings, lookup_cons_eq_ite, List.lookup_nil]
  by_cases hv : name = variableName
  · simp [hv, rowAt]
  · by_cases hp : name = Scope.parameter
    · simp only [if_neg hv, if_pos hp, if_pos (Or.inl hp)]
      rfl
    · by_cases ha : name = Scope.parameterAlways
      · simp only [if_neg hv, if_neg hp, if_pos ha, if_pos (Or.inr ha)]
        rfl
      · simp [hv, hp, ha]

theorem agree_function (t x : Float) :
    Agree Scope.function (rowAt [[x], [t]] 0) (variableBindings Scope.abscissa t x) := by
  intro name
  rw [Scope.slot?_function, ← Scope.slot?_curve]
  exact agree_curve Scope.abscissa t x name

theorem agree_parameterOnly (t : Float) :
    Agree Scope.parameterOnly (rowAt [[t]] 0) (parameterBindings t) := by
  intro name
  simp only [Scope.slot?_parameterOnly, parameterBindings, lookup_cons_eq_ite, List.lookup_nil]
  by_cases hp : name = Scope.parameter
  · simp only [if_pos hp, if_pos (Or.inl hp)]
    rfl
  · by_cases ha : name = Scope.parameterAlways
    · simp only [if_neg hp, if_pos ha, if_pos (Or.inr ha)]
      rfl
    · simp [hp, ha]

/-- The finite value of a text is that of its expression in a row that agrees with the bindings. -/
theorem finiteAt_eq {scope : Scope} {row : Nat → Float} {bindings : List (String × Float)}
    (agree : Agree scope row bindings) (text : String) :
    finiteAt text bindings =
      (scope.compile text).toOption.bind fun e => finiteValue (e.valueAt row) := by
  rw [finiteAt, tryEvaluate_eq agree]
  cases scope.compile (α := Float) text with
  | error error => rfl
  | ok e =>
    simp only [mapError_ok, Except.map, Except.toOption, Option.bind_some, finiteValue,
      Option.filter_some]

section Columns

variable {scope : Scope} {text : String} {e : RealExpression Float} {t : Float}
  {values : List Float} {pool : Registers Float}

theorem Scope.Bounded.slots_lt (bounded : scope.Bounded) (h : scope.compile text = .ok e) :
    ∀ index ∈ e.slots, index < scope.slots := by
  intro index hm
  obtain ⟨name, hn⟩ := Expression.slotOf_of_mem_slots h hm
  exact bounded name index hn

theorem rowAt_two {row : Nat} (h : row < values.length) :
    rowAt [values, List.replicate values.length t] row = rowAt [[values[row]], [t]] 0 := by
  funext index
  rcases index with _ | _ | index
  · simp [rowAt, h]
  · simp [rowAt, h]
  · simp [rowAt]

/-- Two columns, the second the same in every row, are evaluated value by value of the first. -/
theorem evaluate_two (clean : pool.Clean values.length) (covered : ∀ index ∈ e.slots, index < 2) :
    ∃ pool', e.evaluate [values, List.replicate values.length t] pool =
      .ok (values.map fun value => e.valueAt (rowAt [[value], [t]] 0), pool') ∧
        pool'.Clean values.length := by
  have lengths : ∀ column ∈ [values, List.replicate values.length t],
      column.length = values.length := by simp
  obtain ⟨pool', hr, hc⟩ := e.evaluate_of_clean clean lengths covered
  have lanes : e.lanes [values, List.replicate values.length t] values.length =
      values.map fun value => e.valueAt (rowAt [[value], [t]] 0) := by
    apply List.ext_getElem (by simp [RealExpression.lanes])
    intro row hl hl'
    have h : row < values.length := by simpa using hl'
    simp only [RealExpression.lanes, List.getElem_map, List.getElem_range, rowAt_two h]
  exact ⟨pool', lanes ▸ hr, hc⟩

end Columns

end LessonPlot
