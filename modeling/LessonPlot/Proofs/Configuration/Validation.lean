import LessonPlot.Configuration.Issues
import LessonPlot.Proofs.Scene.Sampling

namespace LessonPlot

namespace Shape

variable {shape : Shape} {fields : List (String × String)}

/-- Whatever the kind of a shape, its expressions are compiled in order up to the first that is
refused. -/
theorem compile_eq_compileFields (shape : Shape) :
    shape.compile.map (fun _ => ()) =
      (shape.compileFields shape.expressions).map (fun _ => ()) := by
  cases shape with
  | function source =>
    simp only [compile, expressions, compileFields]
    cases (function source).compileField "expression" source <;> rfl
  | area y1 y2 opacity =>
    simp only [compile, expressions, compileFields]
    cases (area y1 y2 opacity).compileField "y1" y1
    · rfl
    · cases (area y1 y2 opacity).compileField "y2" y2 <;> rfl
  | parametric curve =>
    simp only [compile, expressions, compileFields]
    cases (parametric curve).compileField "xExpression" curve.x
    · rfl
    · cases (parametric curve).compileField "yExpression" curve.y <;> rfl
  | point | line | vector | vLine | hLine | text =>
    simp only [compile]
    generalize compileFields _ _ = outcome
    cases outcome <;> rfl

theorem compileField_eq_error_iff {field source : String} {error : CompileError} :
    shape.compileField field source = .error error ↔
      field = error.field ∧ shape.scope.compile (α := Float) source = .error error.error := by
  obtain ⟨name, reason⟩ := error
  unfold compileField
  cases shape.scope.compile (α := Float) source <;> simp

theorem compileFields_eq_error {error : CompileError}
    (h : shape.compileFields fields = .error error) :
    ∃ source, (error.field, source) ∈ fields ∧
      shape.scope.compile (α := Float) source = .error error.error := by
  induction fields with
  | nil => cases h
  | cons entry fields ih =>
    obtain ⟨field, source⟩ := entry
    cases hf : shape.compileField field source with
    | error refused =>
      simp only [compileFields, hf, bind, Except.bind, Except.error.injEq] at h
      obtain ⟨rfl, hs⟩ := compileField_eq_error_iff.mp (h ▸ hf)
      exact ⟨source, List.mem_cons_self, hs⟩
    | ok first =>
      cases hr : shape.compileFields fields with
      | error refused =>
        simp only [compileFields, hf, hr, bind, Except.bind, Except.error.injEq] at h
        obtain ⟨source, hm, hs⟩ := ih (h ▸ hr)
        exact ⟨source, List.mem_cons_of_mem _ hm, hs⟩
      | ok others => simp [compileFields, hf, hr, bind, Except.bind] at h

theorem compileFields_eq_ok {coordinates : List (RealExpression Float)}
    (h : shape.compileFields fields = .ok coordinates) :
    ∀ entry ∈ fields, ∃ e, shape.scope.compile (α := Float) entry.2 = .ok e := by
  induction fields generalizing coordinates with
  | nil => nofun
  | cons entry fields ih =>
    obtain ⟨first, hf, h⟩ := bind_eq_ok_iff.mp h
    obtain ⟨others, hr, -⟩ := bind_eq_ok_iff.mp h
    intro entry' hm
    rcases List.mem_cons.mp hm with rfl | hm
    · exact ⟨first, compileField_eq_ok_iff.mp hf⟩
    · exact ih hr entry' hm

end Shape

theorem unless_eq_nil_iff {p : Prop} [Decidable p] {issue : Issue} :
    (if p then [] else [issue]) = [] ↔ p := by
  by_cases h : p <;> simp [h]

/-- What a parametric element needs beside expressions that compile. -/
structure Parametric.Sound (curve : Parametric) : Prop where
  bindable : isBindable curve.curveVariable = true
  named : curve.curveVariable ≠ Scope.parameterAlways
  steps : 1 ≤ curve.stepCount
  range : curve.curveRange.isFinite = true

namespace Element

variable {element : Element} {earlier : List String} {elements : List Element}

theorem compile_eq_error {error : CompileError} (h : element.shape.compile = .error error) :
    ∃ source, (error.field, source) ∈ element.shape.expressions ∧
      element.shape.scope.compile (α := Float) source = .error error.error := by
  have same := element.shape.compile_eq_compileFields
  rw [h] at same
  cases hf : element.shape.compileFields element.shape.expressions with
  | error refused =>
    rw [hf] at same
    cases same
    exact Shape.compileFields_eq_error hf
  | ok coordinates =>
    rw [hf] at same
    cases same

theorem compile_eq_ok {compiled : CompiledShape} (h : element.shape.compile = .ok compiled) :
    ∀ entry ∈ element.shape.expressions,
      ∃ e, element.shape.scope.compile (α := Float) entry.2 = .ok e := by
  have same := element.shape.compile_eq_compileFields
  rw [h] at same
  cases hf : element.shape.compileFields element.shape.expressions with
  | error refused =>
    rw [hf] at same
    cases same
  | ok coordinates => exact Shape.compileFields_eq_ok hf

theorem mem_expressionIssues {field source : String} {error : ParseError}
    (hm : (field, source) ∈ element.shape.expressions)
    (h : element.shape.scope.compile (α := Float) source = .error error) :
    .expression element.id field source error ∈ element.expressionIssues := by
  refine List.mem_filterMap.mpr ⟨(field, source), hm, ?_⟩
  simp only [h]

theorem expressionIssues_eq_nil_iff :
    element.expressionIssues = [] ↔ ∃ compiled, element.shape.compile = .ok compiled := by
  constructor
  · intro hn
    cases h : element.shape.compile with
    | error error =>
      obtain ⟨source, hm, hs⟩ := compile_eq_error h
      have issue := mem_expressionIssues hm hs
      rw [hn] at issue
      cases issue
    | ok compiled => exact ⟨compiled, rfl⟩
  · rintro ⟨compiled, h⟩
    refine List.filterMap_eq_nil_iff.mpr fun entry hm => ?_
    obtain ⟨e, he⟩ := compile_eq_ok h entry hm
    simp only [he]

/-- A refused expression is an issue of its element, unless the curve variable is one. -/
theorem exists_issue_of_refused {error : CompileError} (h : element.shape.compile = .error error) :
    (∃ source, (error.field, source) ∈ element.shape.expressions ∧
      .expression element.id error.field source error.error ∈ element.shapeIssues) ∨
    ∃ curve, element.shape = .parametric curve ∧
      .invalidCurveVariable element.id curve.curveVariable ∈ element.shapeIssues := by
  obtain ⟨source, hm, hs⟩ := compile_eq_error h
  have issue := mem_expressionIssues hm hs
  unfold shapeIssues
  split
  next curve hc =>
    split
    · exact .inr ⟨curve, hc, by simp⟩
    · exact .inl ⟨source, hm, List.mem_append_right _ issue⟩
  next => exact .inl ⟨source, hm, issue⟩

theorem shapeIssues_of_curve {curve : Parametric} (h : element.shape = .parametric curve) :
    element.shapeIssues = [] ↔ curve.Sound ∧ element.expressionIssues = [] := by
  simp only [shapeIssues, h]
  by_cases hv : isCurveVariable curve.curveVariable = true
  · have steps : (if curve.stepCount = 0 then [Issue.zeroSteps element.id] else []) = [] ↔
        1 ≤ curve.stepCount := by
      by_cases hs : curve.stepCount = 0 <;> simp [hs]
      omega
    obtain ⟨bindable, named⟩ : isBindable curve.curveVariable = true ∧
        curve.curveVariable ≠ Scope.parameterAlways := by
      simpa [isCurveVariable] using hv
    rw [if_neg (by simp [hv]), List.append_eq_nil_iff, List.append_eq_nil_iff, steps,
      unless_eq_nil_iff]
    constructor
    · rintro ⟨⟨hs, hr⟩, he⟩
      exact ⟨⟨bindable, named, hs, hr⟩, he⟩
    · rintro ⟨sound, he⟩
      exact ⟨⟨sound.steps, sound.range⟩, he⟩
  · rw [if_pos (by simpa using hv)]
    constructor
    · nofun
    · rintro ⟨sound, -⟩
      simp [isCurveVariable, sound.bindable, sound.named] at hv

theorem shapeIssues_eq_nil_iff : element.shapeIssues = [] ↔
    (∀ curve, element.shape = .parametric curve → curve.Sound) ∧
      ∃ compiled, element.shape.compile = .ok compiled := by
  rw [← expressionIssues_eq_nil_iff]
  cases hs : element.shape with
  | parametric curve => simp [shapeIssues_of_curve hs]
  | _ => simp [shapeIssues, hs]

theorem idIssues_eq_nil_iff {index : Nat} :
    element.idIssues index earlier = [] ↔ element.id ≠ "" ∧ element.id ∉ earlier := by
  unfold idIssues
  by_cases he : element.id = ""
  · simp [he]
  · by_cases hm : element.id ∈ earlier <;> simp [he, hm]

theorem mem_issuesFrom {issue : Issue} (hm : element ∈ elements)
    (hi : issue ∈ element.shapeIssues) : issue ∈ issuesFrom earlier elements := by
  induction elements generalizing earlier with
  | nil => cases hm
  | cons first rest ih =>
    rw [issuesFrom]
    rcases List.mem_cons.mp hm with rfl | hm
    · exact List.mem_append_left _ (List.mem_append_right _ hi)
    · exact List.mem_append_right _ (ih hm)

/-- The identifiers seen so far are those of the elements before. -/
theorem issuesFrom_eq_nil_iff : issuesFrom earlier elements = [] ↔
    (∀ element ∈ elements, element.id ≠ "" ∧ element.id ∉ earlier ∧ element.shapeIssues = []) ∧
      (elements.map id).Nodup := by
  induction elements generalizing earlier with
  | nil => simp [issuesFrom]
  | cons first rest ih =>
    rw [issuesFrom, List.append_eq_nil_iff, List.append_eq_nil_iff, idIssues_eq_nil_iff, ih]
    simp only [List.mem_append, List.mem_singleton, not_or, List.forall_mem_cons, List.map_cons,
      List.nodup_cons, List.mem_map, not_exists, not_and]
    constructor
    · rintro ⟨⟨⟨named, fresh⟩, sound⟩, others, distinct⟩
      exact ⟨⟨⟨named, fresh, sound⟩, fun e hm => ⟨(others e hm).1, (others e hm).2.1.1,
        (others e hm).2.2⟩⟩, fun e hm => (others e hm).2.1.2, distinct⟩
    · rintro ⟨⟨⟨named, fresh, sound⟩, others⟩, unlike, distinct⟩
      exact ⟨⟨⟨named, fresh⟩, sound⟩, fun e hm => ⟨(others e hm).1, ⟨(others e hm).2.1,
        unlike e hm⟩, (others e hm).2.2⟩, distinct⟩

end Element

namespace Configuration

/-- What a configuration has to be for all of it to be drawn as it says. -/
structure Sound (configuration : Configuration) : Prop where
  xDomain : configuration.xDomain.isFinite = true ∧
    configuration.xDomain.min < configuration.xDomain.max
  yDomain : configuration.yDomain.isFinite = true ∧
    configuration.yDomain.min < configuration.yDomain.max
  parameterRange : configuration.parameterRange.isFinite = true
  named : ∀ element ∈ configuration.elements, element.id ≠ ""
  distinct : (configuration.elements.map Element.id).Nodup
  curves : ∀ element ∈ configuration.elements, ∀ curve, element.shape = .parametric curve →
    curve.Sound
  compiles : ∀ element ∈ configuration.elements,
    ∃ compiled, element.shape.compile = .ok compiled

theorem domainIssues_eq_nil_iff {axis : String} {range : Interval} :
    domainIssues axis range = [] ↔ range.isFinite = true ∧ range.min < range.max := by
  rw [domainIssues, unless_eq_nil_iff, Interval.isProper, Bool.and_eq_true, decide_eq_true_iff]

theorem issues_eq_nil_iff {configuration : Configuration} :
    configuration.issues = [] ↔ configuration.Sound := by
  rw [issues, List.append_eq_nil_iff, List.append_eq_nil_iff, List.append_eq_nil_iff,
    domainIssues_eq_nil_iff, domainIssues_eq_nil_iff, unless_eq_nil_iff,
    Element.issuesFrom_eq_nil_iff]
  simp only [Element.shapeIssues_eq_nil_iff, List.not_mem_nil, not_false_eq_true, true_and]
  constructor
  · rintro ⟨⟨⟨x, y⟩, parameter⟩, elements, distinct⟩
    exact ⟨x, y, parameter, fun e hm => (elements e hm).1, distinct,
      fun e hm => (elements e hm).2.1, fun e hm => (elements e hm).2.2⟩
  · intro sound
    exact ⟨⟨⟨sound.xDomain, sound.yDomain⟩, sound.parameterRange⟩, fun e hm =>
      ⟨sound.named e hm, sound.curves e hm, sound.compiles e hm⟩, sound.distinct⟩

/-- A configuration is accepted exactly if it is sound, which takes in that every element compiles.
Where one does not, the issues have the field at which it stopped, with its text and the reason,
unless the curve variable of that element is an issue. -/
theorem validate_eq_ok_iff (configuration : Configuration) :
    (configuration.validate = .ok () ↔ configuration.Sound) ∧
      ∀ element ∈ configuration.elements, ∀ error, element.shape.compile = .error error →
        ∃ issue ∈ element.shapeIssues, issue ∈ configuration.issues ∧
          ((∃ source, (error.field, source) ∈ element.shape.expressions ∧
              issue = .expression element.id error.field source error.error) ∨
            ∃ curve, element.shape = .parametric curve ∧
              issue = .invalidCurveVariable element.id curve.curveVariable) := by
  constructor
  · rw [← issues_eq_nil_iff, validate]
    cases configuration.issues <;> simp
  · intro element hm error h
    have kept {issue : Issue} (hi : issue ∈ element.shapeIssues) :
        issue ∈ configuration.issues :=
      List.mem_append_right _ (Element.mem_issuesFrom hm hi)
    rcases Element.exists_issue_of_refused h with ⟨source, hs, hi⟩ | ⟨curve, hc, hi⟩
    · exact ⟨_, hi, kept hi, .inl ⟨source, hs, rfl⟩⟩
    · exact ⟨_, hi, kept hi, .inr ⟨curve, hc, rfl⟩⟩

end Configuration

end LessonPlot
