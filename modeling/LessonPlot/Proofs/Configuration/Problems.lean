import LessonPlot.Proofs.Configuration.Validation

namespace LessonPlot

/-- The variable of a curve has a name that an expression can use for it. -/
def Parametric.Named (curve : Parametric) : Prop :=
  isBindable curve.curveVariable = true ∧ curve.curveVariable ≠ Scope.parameterAlways

namespace Element

/-- The problems of an element, alone and beside those before it, each as the issue that tells of
it. -/
inductive Problem (element : Element) (earlier : List Element) : Issue → Prop where
  | emptyId (unnamed : element.id = "") : Problem element earlier (.emptyId earlier.length)
  | duplicateId (named : element.id ≠ "") (taken : element.id ∈ earlier.map id) :
      Problem element earlier (.duplicateId element.id)
  | curveVariable {curve : Parametric} (shape : element.shape = .parametric curve)
      (unusable : ¬ curve.Named) :
      Problem element earlier (.invalidCurveVariable element.id curve.curveVariable)
  | steps {curve : Parametric} (shape : element.shape = .parametric curve)
      (none : curve.stepCount = 0) : Problem element earlier (.zeroSteps element.id)
  | curveRange {curve : Parametric} (shape : element.shape = .parametric curve)
      (unbounded : curve.curveRange.isFinite = false) :
      Problem element earlier (.invalidCurveRange element.id curve.curveRange)
  | expression {field text : String} {error : ParseError}
      (field_mem : (field, text) ∈ element.shape.expressions)
      (refused : element.shape.scope.compile (α := Float) text = .error error) :
      Problem element earlier (.expression element.id field text error)

/-- A curve whose variable has no usable name. -/
def Misnamed (element : Element) : Prop :=
  ∃ curve, element.shape = .parametric curve ∧ ¬ curve.Named

/-- The issues of an element that comes after some others. -/
def issuesAfter (element : Element) (earlier : List Element) : List Issue :=
  element.idIssues earlier.length (earlier.map id) ++ element.shapeIssues

end Element

namespace Configuration

/-- The issues of the domains and of the parameter range. -/
def rangeIssues (configuration : Configuration) : List Issue :=
  domainIssues "xDomain" configuration.xDomain ++ domainIssues "yDomain" configuration.yDomain ++
    (if configuration.parameterRange.isFinite then []
      else [.invalidParameterRange configuration.parameterRange])

end Configuration

namespace Issue

/-- Whether an issue is about an identifier. -/
def concernsId : Issue → Bool
  | .emptyId _ | .duplicateId _ => true
  | _ => false

/-- Whether an issue is about how a curve is sampled or about what an expression says. -/
def concernsDrawing : Issue → Bool
  | .zeroSteps _ | .invalidCurveRange .. | .expression .. => true
  | _ => false

end Issue

namespace Element

variable {element : Element} {earlier : List Element} {issue : Issue}

theorem isCurveVariable_iff {curve : Parametric} :
    isCurveVariable curve.curveVariable = true ↔ curve.Named := by
  simp [isCurveVariable, Parametric.Named]

theorem mem_idIssues_iff : issue ∈ element.idIssues earlier.length (earlier.map id) ↔
    element.Problem earlier issue ∧ issue.concernsId = true := by
  simp only [idIssues, String.isEmpty_iff, List.contains_iff_mem]
  constructor
  · intro reported
    split at reported
    next unnamed =>
      obtain rfl := List.mem_singleton.mp reported
      exact ⟨.emptyId unnamed, rfl⟩
    next named =>
      split at reported
      next taken =>
        obtain rfl := List.mem_singleton.mp reported
        exact ⟨.duplicateId named taken, rfl⟩
      next => cases reported
  · rintro ⟨problem, concern⟩
    cases problem with
    | emptyId unnamed => simp [unnamed]
    | duplicateId named taken => simp [named, taken]
    | curveVariable | steps | curveRange | expression => cases concern

variable (earlier) in
theorem mem_expressionIssues_iff : issue ∈ element.expressionIssues ↔
    element.Problem earlier issue ∧
      ∃ field text error, issue = .expression element.id field text error := by
  constructor
  · intro reported
    obtain ⟨⟨field, text⟩, field_mem, h⟩ := List.mem_filterMap.mp reported
    cases refused : element.shape.scope.compile (α := Float) text with
    | ok compiled => simp [refused] at h
    | error error =>
      obtain rfl : .expression element.id field text error = issue := by simpa [refused] using h
      exact ⟨.expression field_mem refused, field, text, error, rfl⟩
  · rintro ⟨problem, field, text, error, rfl⟩
    cases problem with
    | expression field_mem refused => exact mem_expressionIssues field_mem refused

theorem shapeIssues_of_misnamed {curve : Parametric} (shape : element.shape = .parametric curve)
    (unusable : ¬ curve.Named) :
    element.shapeIssues = [.invalidCurveVariable element.id curve.curveVariable] := by
  rw [← isCurveVariable_iff, Bool.not_eq_true] at unusable
  simp [shapeIssues, shape, unusable]

theorem mem_shapeIssues_of_named (named : ¬ element.Misnamed) : issue ∈ element.shapeIssues ↔
    (∃ curve, element.shape = .parametric curve ∧
      (curve.stepCount = 0 ∧ issue = .zeroSteps element.id ∨
        curve.curveRange.isFinite = false ∧
          issue = .invalidCurveRange element.id curve.curveRange)) ∨
      issue ∈ element.expressionIssues := by
  unfold shapeIssues
  split
  next curve shape =>
    have usable : curve.Named := Classical.not_not.mp fun unusable => named ⟨curve, shape, unusable⟩
    rw [if_neg (by simp [isCurveVariable_iff.mpr usable]), List.mem_append, List.mem_append]
    refine or_congr_left ?_
    simp only [shape, Shape.parametric.injEq, exists_eq_left']
    by_cases steps : curve.stepCount = 0 <;>
      cases range : curve.curveRange.isFinite <;> simp [steps]
  next other =>
    refine (or_iff_right ?_).symm
    rintro ⟨curve, shape, -⟩
    exact other curve shape

variable (earlier) in
/-- Beside a curve variable without a name no other problem of the shape is told of. -/
theorem mem_shapeIssues_iff : issue ∈ element.shapeIssues ↔
    element.Problem earlier issue ∧ issue.concernsId = false ∧
      (issue.concernsDrawing = true → ¬ element.Misnamed) := by
  by_cases misnamed : element.Misnamed
  · obtain ⟨curve, shape, unusable⟩ := misnamed
    rw [shapeIssues_of_misnamed shape unusable, List.mem_singleton]
    constructor
    · rintro rfl
      exact ⟨.curveVariable shape unusable, rfl, nofun⟩
    · rintro ⟨problem, other, drawn⟩
      cases problem with
      | emptyId | duplicateId => cases other
      | curveVariable same =>
        cases shape.symm.trans same
        rfl
      | steps | curveRange | expression => exact (drawn rfl ⟨curve, shape, unusable⟩).elim
  · rw [mem_shapeIssues_of_named misnamed, mem_expressionIssues_iff earlier]
    constructor
    · rintro (⟨curve, shape, ⟨none, rfl⟩ | ⟨unbounded, rfl⟩⟩ | ⟨problem, field, text, error, rfl⟩)
      · exact ⟨.steps shape none, rfl, fun _ => misnamed⟩
      · exact ⟨.curveRange shape unbounded, rfl, fun _ => misnamed⟩
      · exact ⟨problem, rfl, fun _ => misnamed⟩
    · rintro ⟨problem, other, -⟩
      cases problem with
      | emptyId | duplicateId => cases other
      | curveVariable shape unusable => exact (misnamed ⟨_, shape, unusable⟩).elim
      | steps shape none => exact .inl ⟨_, shape, .inl ⟨none, rfl⟩⟩
      | curveRange shape unbounded => exact .inl ⟨_, shape, .inr ⟨unbounded, rfl⟩⟩
      | expression field_mem refused =>
        exact .inr ⟨.expression field_mem refused, _, _, _, rfl⟩

theorem mem_issuesAfter_iff : issue ∈ element.issuesAfter earlier ↔
    element.Problem earlier issue ∧ (issue.concernsDrawing = true → ¬ element.Misnamed) := by
  rw [issuesAfter, List.mem_append, mem_idIssues_iff, mem_shapeIssues_iff earlier]
  cases issue <;> simp [Issue.concernsId, Issue.concernsDrawing]

/-- The identifiers that the walk keeps are those of the elements it has passed. -/
theorem issuesFrom_eq_flatten (passed rest : List Element) :
    issuesFrom (passed.map id) rest =
      (rest.mapIdx fun i element => element.issuesAfter (passed ++ rest.take i)).flatten := by
  induction rest generalizing passed with
  | nil => rfl
  | cons first rest ih =>
    have step := ih (passed ++ [first])
    simp only [List.map_append, List.map_cons, List.map_nil, List.append_assoc,
      List.singleton_append] at step
    rw [issuesFrom, step, List.mapIdx_cons, List.flatten_cons, issuesAfter]
    simp

end Element

namespace Configuration

/-- The issues of a configuration come in one block for each element, in the order of the elements,
after those of the three ranges. A block has exactly the problems of its element beside the
elements before it, but for this: the block of a curve whose variable has no usable name leaves out
how the curve is sampled and what its expressions say. -/
theorem issues_in_blocks (configuration : Configuration) :
    ∃ blocks : List (List Issue),
      configuration.issues = configuration.rangeIssues ++ blocks.flatten ∧
      blocks.length = configuration.elements.length ∧
      ∀ (i : Nat) (element : Element), configuration.elements[i]? = some element →
        ∃ block, blocks[i]? = some block ∧ ∀ issue : Issue, issue ∈ block ↔
          element.Problem (configuration.elements.take i) issue ∧
            (issue.concernsDrawing = true → ¬ element.Misnamed) := by
  refine ⟨configuration.elements.mapIdx fun i element =>
    element.issuesAfter (configuration.elements.take i), ?_, List.length_mapIdx, ?_⟩
  · exact congrArg _ (Element.issuesFrom_eq_flatten [] configuration.elements)
  · intro i element at_i
    exact ⟨element.issuesAfter (configuration.elements.take i), by simp [at_i],
      fun issue => Element.mem_issuesAfter_iff⟩

/-- A curve in no steps over a variable that has no name. -/
def unnamedCurve : Element where
  appearance := ⟨"c", "", none, .solid, none⟩
  shape := .parametric ⟨"0", "0", none, some 0, some "1"⟩

/-- The number of its steps is no issue, as the variable is one. -/
theorem exists_zeroSteps_not_issue : ¬ ∀ (configuration : Configuration) (element : Element)
    (curve : Parametric), element ∈ configuration.elements → element.shape = .parametric curve →
    curve.stepCount = 0 → Issue.zeroSteps element.id ∈ configuration.issues := by
  intro always
  have domain {axis : String} : domainIssues axis ⟨0, 1⟩ = [] := by
    rw [domainIssues_eq_nil_iff]
    decide +kernel
  have range : Interval.isFinite ⟨0, 1⟩ = true := by decide +kernel
  have named : unnamedCurve.idIssues 0 [] = [] :=
    Element.idIssues_eq_nil_iff.mpr (by decide +kernel)
  have unnamed : ¬ Parametric.Named ⟨"0", "0", none, some 0, some "1"⟩ := by
    rw [← Element.isCurveVariable_iff]
    decide +kernel
  have only : unnamedCurve.shapeIssues = [.invalidCurveVariable "c" "1"] :=
    Element.shapeIssues_of_misnamed rfl unnamed
  have reported := always ⟨⟨0, 1⟩, ⟨0, 1⟩, ⟨0, 1⟩, "", [unnamedCurve]⟩ unnamedCurve _
    List.mem_cons_self rfl rfl
  simp [issues, domain, range, Element.issuesFrom, named, only] at reported

end Configuration

end LessonPlot
