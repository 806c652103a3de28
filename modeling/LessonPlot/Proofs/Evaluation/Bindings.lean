import LessonPlot.Proofs.Evaluation.Named
import LessonPlot.Proofs.Expression.FreeNames

namespace LessonPlot

namespace Scope

variable {scope other : Scope} {row row' : Nat → Float} {text : String}

/-- A text has the same value in two scopes, or is refused in both for the same reason, if each of
its free names has the same value in both or has none in either. -/
theorem compile_value_congr
    (agree : ∀ names, variableNames text = .ok names → ∀ name ∈ names,
      (scope.slot? name).map row = (other.slot? name).map row') :
    (scope.compile text).map (fun e => e.valueAt row) =
      (other.compile text).map fun e => e.valueAt row' := by
  cases hn : variableNames text with
  | error error =>
    have same : scope.compile (α := Float) text = other.compile text := by
      rw [compile, compile, Expression.parseReal, Expression.parseReal,
        Expression.parse_congr fun names h => by rw [hn] at h; cases h]
    rw [same]
    cases hc : other.compile (α := Float) text with
    | error error => rfl
    | ok e =>
      obtain ⟨formula, hf, -⟩ := compile_resolves hc
      rw [variableNames_eq_ok_iff.mpr ⟨formula, hf, rfl⟩] at hn
      cases hn
  | ok names =>
    have agree := agree names hn
    -- both scopes are renamings of one that numbers the bound free names of the text
    let numbering : String → Option Nat := fun name =>
      if name ∈ names ∧ (scope.slot? name).isSome then some (names.idxOf name) else none
    let place (scope : Scope) : Nat → Nat := fun index =>
      ((names[index]?).bind scope.slot?).getD 0
    have renamed (s : Scope) (bound : ∀ name ∈ names, (s.slot? name).isSome =
        (scope.slot? name).isSome) :
        s.compile (α := Float) text =
          (Expression.parseReal numbering text).map (.rename (place s)) := by
      rw [compile, ← Expression.parseReal_rename, Expression.parseReal, Expression.parseReal]
      rw [Expression.parse_congr fun names' h => ?_]
      cases Except.ok.inj (hn.symm.trans h)
      intro name hm
      have hb := bound name hm
      cases hs : s.slot? name with
      | none =>
        rw [hs] at hb
        simp [numbering, ← hb]
      | some index =>
        rw [hs] at hb
        simp [numbering, place, hm, ← hb, hs]
    have bound (name : String) (hm : name ∈ names) :
        (other.slot? name).isSome = (scope.slot? name).isSome := by
      have h := congrArg Option.isSome (agree name hm)
      simpa using h.symm
    rw [renamed scope fun _ _ => rfl, renamed other bound]
    cases he : Expression.parseReal (α := Float) numbering text with
    | error error => rfl
    | ok e =>
      have same : ∀ index ∈ e.slots, row (place scope index) = row' (place other index) := by
        intro index hi
        obtain ⟨name, hs⟩ := Expression.slotOf_of_mem_slots he hi
        simp only [numbering, Option.ite_none_right_eq_some, Option.some.injEq] at hs
        obtain ⟨⟨hm, hb⟩, rfl⟩ := hs
        obtain ⟨own, ho⟩ := Option.isSome_iff_exists.mp hb
        have ha := agree name hm
        rw [ho] at ha
        obtain ⟨index, hi, hv⟩ := Option.map_eq_some_iff.mp ha.symm
        simp [place, hm, ho, hi, hv]
      have value := RealExpression.valueAt_rename (place scope) e same
      have value' : (e.rename (place other)).valueAt row' = _ :=
        RealExpression.valueAt_rename (place other) e fun _ _ => rfl
      simp only [Except.map, value, value']

end Scope

section Columns

variable {scope : Scope} {bindings : List (String × Float)} {name : String} {index : Nat}

/-- The slots of bound names hold what the names are bound to. -/
theorem agree_ofNames (bindings : List (String × Float)) :
    Agree (Scope.ofNames (bindings.map Prod.fst))
      (rowAt (boundColumns (Scope.ofNames (bindings.map Prod.fst)) bindings) 0) bindings := by
  intro name
  have numbered := Scope.numbered_ofNames (bindings.map Prod.fst)
  have bound := Scope.isSome_slot?_ofNames (bindings.map Prod.fst) name
  cases hs : (Scope.ofNames (bindings.map Prod.fst)).slot? name with
  | none =>
    rw [hs] at bound
    have unbound : ¬ (bindings.lookup name).isSome := by
      intro hl
      have hm : name ∈ bindings.map Prod.fst := by simpa using hl
      cases bound.mpr hm
    rw [Option.not_isSome_iff_eq_none.mp unbound]
    rfl
  | some index =>
    rw [hs] at bound
    have isBound : (bindings.lookup name).isSome := by simpa using bound.mp rfl
    obtain ⟨value, hv⟩ := Option.isSome_iff_exists.mp isBound
    simp [rowAt, boundColumns, numbered.getElem?_of_slot? hs, hv]

end Columns

theorem map_mapError {ε ε' β γ : Type} (x : Except ε β) (f : ε → ε') (g : β → γ) :
    (x.mapError f).map g = (x.map g).mapError f := by
  cases x <;> rfl

variable {text : String} {bindings others : List (String × Float)}

/-- The value of a text, or the error, is the same for all bindings that give its free names the
same first values. -/
theorem tryEvaluate_congr
    (agree : ∀ names, variableNames text = .ok names → ∀ name ∈ names,
      bindings.lookup name = others.lookup name) :
    tryEvaluate text bindings = tryEvaluate text others := by
  have own := agree_ofNames bindings
  have own' := agree_ofNames others
  rw [tryEvaluate_eq own, tryEvaluate_eq own', map_mapError, map_mapError]
  rw [Scope.compile_value_congr fun names hn name hm => ?_]
  rw [own name, own' name, agree names hn name hm]

theorem lookup_insert_of_ne {name key : String} (h : name ≠ key) (value : Float)
    (front back : List (String × Float)) :
    (front ++ (key, value) :: back).lookup name = (front ++ back).lookup name := by
  rw [List.lookup_append, List.lookup_append, lookup_cons_eq_ite, if_neg h]

/-- What a text comes to under bindings of names depends on the first value bound to each of its
free names and on nothing else: the value or the error is the same for any other bindings with those
first values, every slot that the expression reads is filled with one of them, however the bindings
are ordered, and a binding of a constant changes nothing wherever it stands. -/
theorem tryEvaluate_first_values (text : String) (bindings : List (String × Float)) :
    let scope := Scope.ofNames (bindings.map Prod.fst)
    (∀ others : List (String × Float),
      (∀ names, variableNames text = .ok names → ∀ name ∈ names,
        bindings.lookup name = others.lookup name) →
      tryEvaluate text bindings = tryEvaluate text others) ∧
    filledColumns scope bindings = boundColumns scope bindings ∧
    (∀ e : RealExpression Float, scope.compile text = .ok e → ∀ index ∈ e.slots,
      ∃ names name value, variableNames text = .ok names ∧ name ∈ names ∧
        bindings.lookup name = some value ∧
        (filledColumns scope bindings)[index]? = some [value]) ∧
    ∀ front back name value, bindings = front ++ (name, value) :: back → name ∈ constantNames →
      tryEvaluate text bindings = tryEvaluate text (front ++ back) := by
  refine ⟨fun others agree => tryEvaluate_congr agree, filledColumns_ofNames _ bindings, ?_, ?_⟩
  · intro e he index hi
    have numbered := Scope.numbered_ofNames (bindings.map Prod.fst)
    obtain ⟨formula, hf, resolves⟩ := Scope.compile_resolves he
    obtain ⟨name, hm, hs⟩ := (resolves.mem_iff index).mp hi
    have bound := (Scope.isSome_slot?_ofNames (bindings.map Prod.fst) name).mp (by rw [hs]; rfl)
    have isBound : (bindings.lookup name).isSome := by simpa using bound
    obtain ⟨value, hv⟩ := Option.isSome_iff_exists.mp isBound
    refine ⟨_, name, value, variableNames_eq_ok_iff.mpr ⟨formula, hf, rfl⟩,
      List.mem_eraseDups.mpr hm, hv, ?_⟩
    rw [numbered.getElem?_filledColumns bindings hs, hv]
    rfl
  · rintro front back key value rfl constant
    refine tryEvaluate_congr fun names hn name hm => ?_
    obtain ⟨formula, -, rfl⟩ := variableNames_eq_ok_iff.mp hn
    obtain ⟨-, free⟩ := mem_freeNames.mp (List.mem_eraseDups.mp hm)
    have apart : name ≠ key := by
      rintro rfl
      exact free constant
    exact lookup_insert_of_ne apart value front back

/-- Two bindings of one name, of which the second does not count, and one of a constant. -/
theorem tryEvaluate_first_values_sum :
    let text := "x + E * x"
    let bindings : List (String × Float) := [("x", 1), ("E", 5), ("x", 2)]
    let others : List (String × Float) := [("y", 3), ("x", 1)]
    let scope := Scope.ofNames ["x", "E", "x"]
    let e : RealExpression Float :=
      .binary .add (.slot 0) (.binary .multiply (.literal Scalar.euler) (.slot 0))
    variableNames text = .ok ["x"] ∧ tryEvaluate text bindings = tryEvaluate text others ∧
      scope.compile text = .ok e ∧ filledColumns scope bindings = boundColumns scope bindings ∧
      (∀ index ∈ e.slots, ∃ names name value, variableNames text = .ok names ∧ name ∈ names ∧
        bindings.lookup name = some value ∧
        (filledColumns scope bindings)[index]? = some [value]) ∧
      tryEvaluate text bindings = tryEvaluate text [("x", 1), ("x", 2)] := by
  intro text bindings others scope e
  let formula : Formula :=
    .operation (.link [] (.name "x") .add (.link [] (.name "E") .multiply (.last [] (.name "x"))))
  have recognised : recognise "x + E * x".toList = .ok formula := by rfl
  have read : Formula.read text = .ok formula :=
    Formula.read_eq_ok_iff.mpr ⟨by decide +kernel, recognised⟩
  have names : variableNames text = .ok ["x"] :=
    variableNames_eq_ok_iff.mpr ⟨formula, read, by decide⟩
  have flat : (Expression.real e).walkedDepth ≤ maxDepth := by
    simp [e, Expression.walkedDepth, Expression.deepestLevel, Expression.children, maxDepth]
  have parsed : Expression.parse scope.slot? text = .ok (.real e) :=
    Expression.parse_of_build (by decide) read rfl flat
  have compiled : scope.compile text = .ok e := by
    rw [Scope.compile, Expression.parseReal, parsed]
    rfl
  have first : ∀ names, variableNames text = .ok names → ∀ name ∈ names,
      bindings.lookup name = others.lookup name := by
    intro names' h name hm
    cases Except.ok.inj (names.symm.trans h)
    cases List.mem_singleton.mp hm
    rfl
  obtain ⟨same, filled, slots, constants⟩ := tryEvaluate_first_values text bindings
  exact ⟨names, same others first, compiled, filled, slots e compiled,
    constants [("x", 1)] [("x", 2)] "E" 5 rfl (by decide)⟩

end LessonPlot
