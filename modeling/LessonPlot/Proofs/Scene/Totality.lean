import LessonPlot.Proofs.Expression.ParseTree
import LessonPlot.Proofs.Scene.Isolation

namespace LessonPlot

open Assembler

/-- An expression reads no slot but those of so many columns. -/
def RealExpression.Within {α : Type} (e : RealExpression α) (columns : Nat) : Prop :=
  ∀ index ∈ e.slots, index < columns

/-- A compiled shape reads only slots for which it is given a column: two where it is drawn along
an axis or a curve, one where it gives coordinates. -/
def CompiledShape.Covered : CompiledShape → Prop
  | .function e => e.Within 2
  | .area lower upper => lower.Within 2 ∧ upper.Within 2
  | .curve traced => traced.x.Within 2 ∧ traced.y.Within 2
  | .mark coordinates => ∀ e ∈ coordinates, e.Within 1

namespace Shape

variable {shape : Shape}

theorem compileField_within (bounded : shape.scope.Bounded) {field source : String}
    {e : RealExpression Float} (h : shape.compileField field source = .ok e) :
    e.Within shape.scope.slots :=
  bounded.slots_lt (compileField_eq_ok_iff.mp h)

theorem compileFields_within (bounded : shape.scope.Bounded) {fields : List (String × String)}
    {coordinates : List (RealExpression Float)}
    (h : shape.compileFields fields = .ok coordinates) :
    ∀ e ∈ coordinates, e.Within shape.scope.slots := by
  induction fields generalizing coordinates with
  | nil =>
    cases h
    simp
  | cons entry fields ih =>
    obtain ⟨first, hf, h⟩ := bind_eq_ok_iff.mp h
    obtain ⟨others, ho, h⟩ := bind_eq_ok_iff.mp h
    cases h
    exact List.forall_mem_cons.mpr ⟨compileField_within bounded hf, ih ho⟩

theorem bounded_scope (shape : Shape) : shape.scope.Bounded := by
  cases shape with
  | function | area => exact Scope.bounded_function
  | parametric curve => exact Scope.bounded_curve curve.curveVariable
  | point | line | vector | vLine | hLine | text => exact Scope.bounded_parameterOnly

/-- A shape is compiled in the scope that its evaluation has columns for. -/
theorem compile_covered {compiled : CompiledShape} (h : shape.compile = .ok compiled) :
    compiled.Covered := by
  have bounded := shape.bounded_scope
  cases shape with
  | function source =>
    obtain ⟨e, he, h⟩ := bind_eq_ok_iff.mp h
    cases h
    exact compileField_within bounded he
  | area y1 y2 opacity =>
    obtain ⟨lower, hl, h⟩ := bind_eq_ok_iff.mp h
    obtain ⟨upper, hu, h⟩ := bind_eq_ok_iff.mp h
    cases h
    exact ⟨compileField_within bounded hl, compileField_within bounded hu⟩
  | parametric curve =>
    have slots := Scope.slots_curve curve.curveVariable
    obtain ⟨x, hx, h⟩ := bind_eq_ok_iff.mp h
    obtain ⟨y, hy, h⟩ := bind_eq_ok_iff.mp h
    cases h
    exact ⟨slots ▸ compileField_within bounded hx, slots ▸ compileField_within bounded hy⟩
  | point | line | vector | vLine | hLine | text =>
    obtain ⟨coordinates, hc, h⟩ := bind_eq_ok_iff.mp h
    cases h
    exact compileFields_within bounded hc

end Shape

namespace Assembler

variable {t : Float}

theorem coordinateValues_total {coordinates : List (RealExpression Float)}
    (covered : ∀ e ∈ coordinates, e.Within 1) {scalars : Registers Float}
    (clean : scalars.Clean 1) :
    ∃ values scalars', coordinateValues t coordinates scalars = .ok (values, scalars') ∧
      scalars'.Clean 1 := by
  induction coordinates generalizing scalars with
  | nil => exact ⟨[], scalars, rfl, clean⟩
  | cons first rest ih =>
    obtain ⟨within, covered⟩ := List.forall_mem_cons.mp covered
    obtain ⟨pool, hr, hc⟩ := evaluate_one (t := t) clean within
    obtain ⟨values, scalars', hv, hc'⟩ :=
      ih covered (hc.recycleReal [first.valueAt (rowAt [[t]] 0)])
    refine ⟨first.valueAt (rowAt [[t]] 0) :: values, scalars', ?_, hc'⟩
    simp only [coordinateValues, hr, hv, bind, Except.bind, List.head?_cons, Option.getD_some]

/-- What a canvas grants to the element that is drawn on it next. Every coordinate of a mark has
a value when its turn comes. -/
structure Canvas.Serves (canvas : Canvas) (element : Element) : Prop where
  drawn : ∃ canvas', canvas.draw element element.shape.compile.toOption = .ok canvas'
  covered : ∀ compiled, element.shape.compile = .ok compiled → compiled.Covered
  columns : canvas.sampler.columns.length = 2
  lengths : ∀ column ∈ canvas.sampler.columns, column.length = canvas.sampler.registers.length
  traced : ∀ source curve, element.shape = .parametric source →
    Curve.compile source = .ok curve → ∃ points,
      curve.trace source.curveRange source.stepCount canvas.sampler.parameter = .ok points
  scalar : canvas.scalars.length = 1
  outputs : ∀ first e rest, element.shape.compile = .ok (.mark (first ++ e :: rest)) →
    ∃ values scalars value scalars',
      coordinateValues canvas.sampler.parameter first canvas.scalars = .ok (values, scalars) ∧
        e.evaluate [[canvas.sampler.parameter]] scalars = .ok ([value], scalars')

theorem Canvas.Ready.serves {canvas : Canvas} {xs : List Float} (ready : canvas.Ready xs t)
    (element : Element) : canvas.Serves element := by
  obtain ⟨abscissae, -, registers⟩ := ready.sampler
  refine ⟨?_, fun _ => Shape.compile_covered, rfl, ?_, ?_, ready.scalars.length_eq, ?_⟩
  · obtain ⟨canvas', drawn, -⟩ := draw_shows ready element
    exact ⟨canvas', drawn⟩
  · have length : canvas.sampler.registers.length = canvas.sampler.abscissae.length := by
      rw [registers.length_eq, abscissae]
    simp [Sampler.columns, length]
  · intro source curve _ h
    exact ⟨_, Curve.trace_eq h canvas.sampler.parameter⟩
  · intro first e rest h
    have covered : ∀ e' ∈ first ++ e :: rest, e'.Within 1 := Shape.compile_covered h
    obtain ⟨before, after⟩ := List.forall_mem_append.mp covered
    have within : e.Within 1 := after e List.mem_cons_self
    obtain ⟨values, scalars, hv, clean⟩ := coordinateValues_total before ready.scalars
    obtain ⟨scalars', hr, -⟩ := evaluate_one clean within
    exact ⟨values, scalars, _, scalars', hv, hr⟩

end Assembler

/-- What an evaluation by names is given fits to what it evaluates. -/
structure Scope.Fits (scope : Scope) (columns : List (Column Float)) (text : String) : Prop where
  counted : columns.length = scope.slots
  lengths : ∀ column ∈ columns, column.length = 1
  placed : ∀ name index, scope.slot? name = some index → index < columns.length
  evaluated : ∀ e, scope.compile text = .ok e → e.Within scope.slots ∧
    ∃ value pool, e.evaluate columns (Registers.new 1) = .ok ([value], pool)

theorem Scope.fits_filledColumns (text : String) (bindings : List (String × Float)) :
    let scope := Scope.ofNames (bindings.map Prod.fst)
    scope.Fits (filledColumns scope bindings) text := by
  intro scope
  have numbered : scope.Numbered := Scope.numbered_ofNames (bindings.map Prod.fst)
  have columns := length_filledColumns scope bindings
  have lengths : ∀ column ∈ filledColumns scope bindings, column.length = 1 := by
    rw [filledColumns_ofNames]
    exact fun _ => length_of_mem_boundColumns
  have bounded : scope.Bounded := by
    intro name index hs
    have filled := numbered.getElem?_filledColumns bindings hs
    obtain ⟨hlt, -⟩ := List.getElem?_eq_some_iff.mp filled
    rwa [columns] at hlt
  refine ⟨columns, lengths, fun name index hs => columns ▸ bounded name index hs, ?_⟩
  intro e he
  have within := bounded.slots_lt he
  obtain ⟨pool, hr, -⟩ := e.evaluate_of_clean (Registers.clean_new 1) lengths (columns ▸ within)
  exact ⟨within, _, pool, hr⟩

theorem tryEvaluate_ne_faulty (text : String) (bindings : List (String × Float))
    (fault : ColumnFault) : tryEvaluate text bindings ≠ .error (.faulty fault) := by
  have fits := Scope.fits_filledColumns text bindings
  unfold tryEvaluate
  generalize Scope.ofNames (bindings.map Prod.fst) = scope at fits ⊢
  cases he : scope.compile (α := Float) text with
  | error error => simp [he, bind, Except.bind]
  | ok e =>
    obtain ⟨-, value, pool, hr⟩ := fits.evaluated e he
    simp [he, hr, bind, Except.bind]

/-- No input stops the program at a place where it gives up. Every configuration has a scene at
every value of the control, and each of its elements finds a canvas that serves it; bindings of
names are given in columns that fit; and what the grammar matches has the shape that building an
expression relies on. -/
theorem never_stuck :
    (∀ (configuration : Configuration) (resolution : Nat) (control : Float),
      (∃ scene, assemble configuration resolution control = .ok scene) ∧
      ∀ before element after, configuration.elements = before ++ element :: after →
        ∃ canvas : Canvas, (Canvas.blank configuration resolution control).drawAll
            (before.map fun e => (e, e.shape.compile.toOption)) = .ok canvas ∧
          canvas.Serves element) ∧
    (∀ (text : String) (bindings : List (String × Float)),
      (∀ fault, tryEvaluate text bindings ≠ .error (.faulty fault)) ∧
      let scope := Scope.ofNames (bindings.map Prod.fst)
      scope.Fits (filledColumns scope bindings) text) ∧
    ∀ (text : List Char) (pairs : List Pair) (rest : List Char),
      Runs .calculation text (some (pairs, rest)) → ∃ pair formula, pairs = [pair] ∧
        recognise text = .ok formula ∧ ∀ slotOf : String → Option Nat,
          pair.expression slotOf = .of (formula.build (α := Float) slotOf) := by
  refine ⟨?_, ?_, ?_⟩
  · intro configuration resolution control
    constructor
    · obtain ⟨canvas, -, assembled⟩ := Canvas.assemble_shows configuration resolution control
      exact ⟨_, assembled⟩
    · intro before element after _
      have ready := Canvas.ready_blank configuration resolution control
      obtain ⟨canvas, drawn, shows⟩ := Canvas.drawAll_shows ready before
      exact ⟨canvas, drawn, shows.ready.serves element⟩
  · intro text bindings
    exact ⟨tryEvaluate_ne_faulty text bindings, Scope.fits_filledColumns text bindings⟩
  · intro text pairs rest matched
    obtain ⟨spelled, ht, derives⟩ := matched.derives _ rfl
    have ended := matched.calculation_rest
    simp only [ended, List.append_nil] at ht
    obtain ⟨formula, hf, hp⟩ := recognise_of_derives (ht ▸ derives)
    exact ⟨formula.pair, formula, hp, hf, fun slotOf => formula.expression_pair slotOf⟩

end LessonPlot
