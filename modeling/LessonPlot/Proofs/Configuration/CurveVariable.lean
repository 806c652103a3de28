import LessonPlot.Element
import LessonPlot.Proofs.Evaluation.Bindings

namespace LessonPlot

/-- A name that stands for a variable somewhere in a text. -/
def OccursFree (name text : String) : Prop :=
  ∃ formula, Formula.read text = .ok formula ∧ name ∈ freeNames formula.names

theorem mem_variableNames {name text : String} {names : List String}
    (h : variableNames text = .ok names) : name ∈ names ↔ OccursFree name text := by
  obtain ⟨formula, read, rfl⟩ := variableNames_eq_ok_iff.mp h
  simp [OccursFree, read, List.mem_eraseDups]

namespace Scope

variable {scope other : Scope} {name text : String}

/-- A text is a real expression with the names of a scope. -/
def Compiles (scope : Scope) (text : String) : Prop :=
  ∃ e : RealExpression Float, scope.compile text = .ok e

theorem compiles_of_parse {e : RealExpression Float}
    (parsed : Expression.parse scope.slot? text = .ok (.real e)) : scope.Compiles text := by
  refine ⟨e, ?_⟩
  rw [compile, Expression.parseReal, parsed]
  rfl

theorem isSome_slot?_curve {variableName : String} :
    ((curve variableName).slot? name).isSome = true ↔
      name = variableName ∨ name = parameter ∨ name = parameterAlways := by
  rw [slot?_curve]
  by_cases own : name = variableName
  · simp [own]
  · by_cases shared : name = parameter ∨ name = parameterAlways <;> simp [own, shared]

theorem Compiles.exists_names (compiles : scope.Compiles text) :
    ∃ names, variableNames text = .ok names := by
  obtain ⟨e, he⟩ := compiles
  obtain ⟨formula, read, -⟩ := compile_resolves he
  exact ⟨_, variableNames_eq_ok_iff.mpr ⟨formula, read, rfl⟩⟩

theorem Compiles.bound (compiles : scope.Compiles text) (free : OccursFree name text) :
    (scope.slot? name).isSome = true := by
  obtain ⟨e, he⟩ := compiles
  obtain ⟨formula, read, resolves⟩ := compile_resolves he
  obtain ⟨same, read', hm⟩ := free
  cases Except.ok.inj (read.symm.trans read')
  exact resolves.isSome hm

/-- Whether a text compiles depends on which names have slots, not on the slots. -/
theorem Compiles.of_bound (compiles : scope.Compiles text)
    (bound : ∀ name, OccursFree name text → (other.slot? name).isSome = true) :
    other.Compiles text := by
  have agree : ∀ names, variableNames text = .ok names → ∀ name ∈ names,
      (scope.slot? name).map (fun _ => (0 : Float)) = (other.slot? name).map fun _ => 0 := by
    intro names hn name hm
    have free := (mem_variableNames hn).mp hm
    obtain ⟨index, hi⟩ := Option.isSome_iff_exists.mp (compiles.bound free)
    obtain ⟨index', hi'⟩ := Option.isSome_iff_exists.mp (bound name free)
    rw [hi, hi']
    rfl
  obtain ⟨e, he⟩ := compiles
  have valued := compile_value_congr agree
  rw [he] at valued
  obtain ⟨e', he', -⟩ := map_eq_ok_iff.mp valued.symm
  exact ⟨e', he'⟩

theorem compile_ne_unboundVariable
    (bound : ∀ name, OccursFree name text → (scope.slot? name).isSome = true) (name : String) :
    scope.compile (α := Float) text ≠ .error (.unboundVariable name) := by
  intro refused
  rcases bind_eq_error_iff.mp refused with refused | ⟨tree, -, refused⟩
  · cases blank : (trimSpace text.toList).isEmpty with
    | true => simp [Expression.parse, blank] at refused
    | false =>
      rcases Expression.parse_eq_error blank refused with unread | ⟨formula, read, arises | depth⟩
      · cases Formula.read_error unread
      · obtain ⟨hm, unbound⟩ := arises
        have isBound := bound name ⟨formula, read, hm⟩
        rw [unbound] at isBound
        cases isBound
      · obtain ⟨_, depth⟩ := depth
        cases depth
  · obtain ⟨_, _, mismatch⟩ := Expression.toReal_error refused
    cases mismatch

end Scope

theorem nodup_eraseDups (names : List String) : names.eraseDups.Nodup := by
  induction h : names.length using Nat.strong_induction_on generalizing names with
  | _ n ih =>
    cases names with
    | nil => simp
    | cons first rest =>
      rw [List.eraseDups_cons, List.nodup_cons, List.mem_eraseDups]
      have shorter : (rest.filter fun name => !name == first).length < n := by
        have := List.length_filter_le (fun name => !name == first) rest
        rw [List.length_cons] at h
        omega
      exact ⟨by simp, ih _ shorter _ rfl⟩

theorem eq_singleton_iff_of_nodup {names : List String} {name : String} (nodup : names.Nodup) :
    names = [name] ↔ ∀ other, other ∈ names ↔ other = name := by
  rw [← List.perm_singleton, List.perm_ext_iff_of_nodup nodup (by simp)]
  simp only [List.mem_singleton]

namespace Parametric

variable {curve : Parametric} {name : String}

/-- A name other than those of the interactive parameter that an expression of a curve uses. -/
def Uses (curve : Parametric) (name : String) : Prop :=
  (OccursFree name curve.x ∨ OccursFree name curve.y) ∧
    name ≠ Scope.parameter ∧ name ≠ Scope.parameterAlways

/-- A name is inferred if the two expressions can be read and it is the one name that they use. -/
theorem inferredVariable_eq_some_iff : curve.inferredVariable = some name ↔
    (∃ inX, variableNames curve.x = .ok inX) ∧ (∃ inY, variableNames curve.y = .ok inY) ∧
      isBindable name = true ∧ ∀ other, curve.Uses other ↔ other = name := by
  unfold inferredVariable
  split
  next inX inY hx hy =>
    have single (name : String) : ((inX ++ inY).eraseDups.filter fun name =>
        name ≠ Scope.parameter && name ≠ Scope.parameterAlways) = [name] ↔
          ∀ other, curve.Uses other ↔ other = name := by
      rw [eq_singleton_iff_of_nodup ((nodup_eraseDups _).filter _)]
      simp only [List.mem_filter, List.mem_eraseDups, List.mem_append, mem_variableNames hx,
        mem_variableNames hy, Uses, Bool.and_eq_true, decide_eq_true_iff, ne_eq]
    simp only [hx, hy, Except.ok.injEq, exists_eq', true_and, ← single]
    split
    next sole own =>
      rw [own, List.singleton_inj, Option.ite_none_right_eq_some, Option.some.injEq]
      exact and_congr_left fun same => by rw [same]
    next several =>
      constructor
      · intro h
        cases h
      · rintro ⟨-, own⟩
        exact (several name own).elim
  next unread =>
    constructor
    · intro h
      cases h
    · rintro ⟨⟨inX, hx⟩, ⟨inY, hy⟩, -⟩
      exact (unread inX inY hx hy).elim

theorem curveVariable_of_implicit (implicit : curve.variableName = none) :
    curve.curveVariable = curve.inferredVariable.getD Scope.parameter := by
  rw [curveVariable, implicit]

/-- Both expressions compile when the variable has a given name. -/
def CompilesOver (curve : Parametric) (name : String) : Prop :=
  (Scope.curve name).Compiles curve.x ∧ (Scope.curve name).Compiles curve.y

theorem CompilesOver.eq_of_uses (compiles : curve.CompilesOver name) {other : String}
    (uses : curve.Uses other) : other = name := by
  obtain ⟨free, notParameter, notAlways⟩ := uses
  have bound : ((Scope.curve name).slot? other).isSome = true :=
    free.elim compiles.1.bound compiles.2.bound
  rcases Scope.isSome_slot?_curve.mp bound with same | parameter | always
  · exact same
  · exact (notParameter parameter).elim
  · exact (notAlways always).elim

theorem CompilesOver.inferred (compiles : curve.CompilesOver name)
    (bindable : isBindable name = true) (uses : curve.Uses name) :
    curve.inferredVariable = some name := by
  refine inferredVariable_eq_some_iff.mpr
    ⟨compiles.1.exists_names, compiles.2.exists_names, bindable, fun other => ?_⟩
  constructor
  · exact compiles.eq_of_uses
  · rintro rfl
    exact uses

/-- A variable that neither expression uses may have any other name. -/
theorem CompilesOver.of_not_uses (compiles : curve.CompilesOver name)
    (unused : ¬ curve.Uses name) (other : String) : curve.CompilesOver other := by
  have bound (used : String) (free : OccursFree used curve.x ∨ OccursFree used curve.y) :
      ((Scope.curve other).slot? used).isSome = true := by
    refine Scope.isSome_slot?_curve.mpr (.inr ?_)
    by_contra own
    have uses : curve.Uses used := ⟨free, not_or.mp own⟩
    exact unused (compiles.eq_of_uses uses ▸ uses)
  exact ⟨compiles.1.of_bound fun used free => bound used (.inl free),
    compiles.2.of_bound fun used free => bound used (.inr free)⟩

/-- A curve whose variable is not named compiles over the variable that is chosen for it if it
compiles over any. One other than `t` is the only name beside those of the interactive parameter in
either expression, so none of their names is unbound. -/
theorem inference_complete (curve : Parametric) (implicit : curve.variableName = none) :
    ((∃ name, isBindable name = true ∧ curve.CompilesOver name) →
      ∀ entry ∈ (Shape.parametric curve).expressions,
        (Shape.parametric curve).scope.Compiles entry.2) ∧
    (curve.curveVariable ≠ Scope.parameter →
      isBindable curve.curveVariable = true ∧ curve.curveVariable ≠ Scope.parameterAlways ∧
      (OccursFree curve.curveVariable curve.x ∨ OccursFree curve.curveVariable curve.y) ∧
      (∀ name, OccursFree name curve.x ∨ OccursFree name curve.y →
        name = curve.curveVariable ∨ name = Scope.parameter ∨ name = Scope.parameterAlways) ∧
      ∀ entry ∈ (Shape.parametric curve).expressions, ∀ name,
        (Shape.parametric curve).scope.compile (α := Float) entry.2 ≠
          .error (.unboundVariable name)) := by
  constructor
  · rintro ⟨name, bindable, compiles⟩
    have chosen : curve.CompilesOver curve.curveVariable := by
      by_cases uses : curve.Uses name
      · rw [curveVariable_of_implicit implicit, compiles.inferred bindable uses]
        exact compiles
      · exact compiles.of_not_uses uses curve.curveVariable
    intro entry hm
    rcases List.mem_pair.mp hm with rfl | rfl
    · exact chosen.1
    · exact chosen.2
  · intro own
    have inferred : curve.inferredVariable = some curve.curveVariable := by
      rw [curveVariable_of_implicit implicit] at own ⊢
      cases hi : curve.inferredVariable with
      | none => rw [hi] at own; exact (own rfl).elim
      | some name => rfl
    obtain ⟨-, -, bindable, sole⟩ := inferredVariable_eq_some_iff.mp inferred
    obtain ⟨free, -, notAlways⟩ := (sole curve.curveVariable).mpr rfl
    have covered (name : String) (free : OccursFree name curve.x ∨ OccursFree name curve.y) :
        name = curve.curveVariable ∨ name = Scope.parameter ∨ name = Scope.parameterAlways := by
      by_contra other
      obtain ⟨notOwn, others⟩ := not_or.mp other
      exact notOwn ((sole name).mp ⟨free, not_or.mp others⟩)
    refine ⟨bindable, notAlways, free, covered, ?_⟩
    intro entry hm
    refine Scope.compile_ne_unboundVariable fun name occurs => ?_
    refine Scope.isSome_slot?_curve.mpr (covered name ?_)
    rcases List.mem_pair.mp hm with rfl | rfl
    · exact .inl occurs
    · exact .inr occurs

/-- A line over a variable `u`, with the interactive parameter as its slope. -/
def sloped : Parametric := ⟨"u", "u * T", none, none, none⟩

theorem inference_complete_sloped :
    sloped.variableName = none ∧ sloped.curveVariable = "u" ∧
      (∃ name, isBindable name = true ∧ sloped.CompilesOver name) ∧
      (∀ entry ∈ (Shape.parametric sloped).expressions,
        (Shape.parametric sloped).scope.Compiles entry.2) ∧
      ∀ name, OccursFree name "u" ∨ OccursFree name "u * T" →
        name = "u" ∨ name = Scope.parameter ∨ name = Scope.parameterAlways := by
  have readX : Formula.read "u" = .ok (.operation (.last [] (.name "u"))) := by rfl
  have readY : Formula.read "u * T" =
      .ok (.operation (.link [] (.name "u") .multiply (.last [] (.name "T")))) :=
    Formula.read_eq_ok_iff.mpr ⟨by decide +kernel, by rfl⟩
  have flatX : (.real (.slot 0) : Expression Float).walkedDepth ≤ maxDepth := by
    simp [Expression.walkedDepth, Expression.deepestLevel, Expression.children, maxDepth]
  have flatY : (.real (.binary .multiply (.slot 0) (.slot 1)) : Expression Float).walkedDepth ≤
      maxDepth := by
    simp [Expression.walkedDepth, Expression.deepestLevel, Expression.children, maxDepth]
  have compiles : sloped.CompilesOver "u" :=
    ⟨Scope.compiles_of_parse (Expression.parse_of_build (by decide) readX rfl flatX),
      Scope.compiles_of_parse (Expression.parse_of_build (by decide) readY rfl flatY)⟩
  have bindable : isBindable "u" = true := by decide +kernel
  have uses : sloped.Uses "u" := by
    refine ⟨.inl ⟨_, readX, ?_⟩, ?_, ?_⟩ <;> decide
  have chosen : sloped.curveVariable = "u" := by
    rw [curveVariable_of_implicit rfl, compiles.inferred bindable uses]
    rfl
  obtain ⟨complete, own⟩ := inference_complete sloped rfl
  obtain ⟨-, -, -, covered, -⟩ := own (by rw [chosen]; decide)
  rw [chosen] at covered
  exact ⟨rfl, chosen, ⟨"u", bindable, compiles⟩, complete ⟨"u", bindable, compiles⟩, covered⟩

end Parametric

end LessonPlot
