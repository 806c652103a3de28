import LessonPlot.Evaluation.Named
import LessonPlot.Proofs.Evaluation.Refinement
import LessonPlot.Proofs.Except
import LessonPlot.Proofs.Expression.Naturality
import LessonPlot.Proofs.Scope

namespace LessonPlot

variable {bindings : List (String × Float)} {scope : Scope} {row : Nat → Float}

section Columns

variable {columns : List (Column Float)} {name : String} {index : Nat}

/-- One column of one row per slot, holding the first value bound to the name of the slot. -/
def boundColumns (scope : Scope) (bindings : List (String × Float)) : List (Column Float) :=
  scope.names.map fun entry => [(bindings.lookup entry.1).getD Scalar.notANumber]

theorem length_of_mem_boundColumns {column : Column Float}
    (h : column ∈ boundColumns scope bindings) : column.length = 1 := by
  obtain ⟨entry, -, rfl⟩ := List.mem_map.mp h
  rfl

theorem length_fillColumn (scope : Scope) (binding : String × Float)
    (columns : List (Column Float)) :
    (fillColumn scope binding columns).length = columns.length := by
  unfold fillColumn
  split
  next => exact List.length_set
  next => rfl

theorem length_filledColumns (scope : Scope) (bindings : List (String × Float)) :
    (filledColumns scope bindings).length = scope.slots := by
  induction bindings with
  | nil => exact List.length_replicate
  | cons binding bindings ih => exact (length_fillColumn scope binding _).trans ih

/-- A binding is written into the column of its own name and into no other. -/
theorem Scope.Numbered.getElem?_fillColumn (numbered : scope.Numbered)
    (binding : String × Float) (h : scope.slot? name = some index) (inside : index < columns.length) :
    (fillColumn scope binding columns)[index]? =
      if name = binding.1 then some [binding.2] else columns[index]? := by
  have entry := numbered.getElem?_of_slot? h
  unfold fillColumn
  split
  next place hs =>
    by_cases same : name = binding.1
    · rw [← same, h] at hs
      cases hs
      rw [if_pos same, List.getElem?_set_self inside]
    · have apart : place ≠ index := by
        rintro rfl
        cases entry.symm.trans (numbered.getElem?_of_slot? hs)
        exact same rfl
      rw [if_neg same, List.getElem?_set_ne apart]
  next hs =>
    have other : name ≠ binding.1 := by
      rintro rfl
      rw [h] at hs
      cases hs
    rw [if_neg other]

/-- The slot of a name is left with the first value that is bound to the name. -/
theorem Scope.Numbered.getElem?_filledColumns (numbered : scope.Numbered)
    (bindings : List (String × Float)) (h : scope.slot? name = some index) :
    (filledColumns scope bindings)[index]? =
      some [(bindings.lookup name).getD Scalar.notANumber] := by
  have inside : index < scope.slots := by
    obtain ⟨within, -⟩ := List.getElem?_eq_some_iff.mp (numbered.getElem?_of_slot? h)
    rwa [numbered.length_names] at within
  induction bindings with
  | nil => simp [filledColumns, inside]
  | cons binding bindings ih =>
    have room : index < (filledColumns scope bindings).length := by
      rwa [length_filledColumns]
    have written := numbered.getElem?_fillColumn binding h room
    rw [ih] at written
    rw [lookup_cons_eq_ite]
    refine written.trans ?_
    split <;> rfl

/-- Filling the columns from the back gives every slot the first value of its name. -/
theorem filledColumns_ofNames (names : List String) (bindings : List (String × Float)) :
    filledColumns (Scope.ofNames names) bindings = boundColumns (Scope.ofNames names) bindings := by
  have numbered := Scope.numbered_ofNames names
  apply List.ext_getElem?
  intro index
  rw [boundColumns, List.getElem?_map]
  cases he : (Scope.ofNames names).names[index]? with
  | none =>
    rw [List.getElem?_eq_none_iff, numbered.length_names] at he
    exact List.getElem?_eq_none (length_filledColumns _ _ ▸ he)
  | some entry =>
    have hs := Scope.slot?_of_mem_ofNames entry (List.mem_of_getElem? he)
    rw [numbered.slot_eq he] at hs
    exact numbered.getElem?_filledColumns bindings hs

end Columns

/-- A scope and the values of its slots say of every name what some bindings say. -/
def Agree (scope : Scope) (row : Nat → Float) (bindings : List (String × Float)) : Prop :=
  ∀ name, (scope.slot? name).map row = bindings.lookup name

theorem Agree.isSome_slot?_ofNames (agree : Agree scope row bindings) (name : String) :
    ((Scope.ofNames (bindings.map Prod.fst)).slot? name).isSome ↔ (scope.slot? name).isSome := by
  rw [Scope.isSome_slot?_ofNames, ← Option.isSome_map (f := row), agree name]
  simp

/-- The slots of names in the order of some bindings as slots of a scope that agrees with them. -/
theorem Agree.exists_rename (agree : Agree scope row bindings) :
    ∃ ρ : Nat → Nat, scope.slot? = fun name =>
      ((Scope.ofNames (bindings.map Prod.fst)).slot? name).map ρ := by
  have numbered := Scope.numbered_ofNames (bindings.map Prod.fst)
  have bound := agree.isSome_slot?_ofNames
  generalize Scope.ofNames (bindings.map Prod.fst) = named at numbered bound ⊢
  refine ⟨fun index => ((named.names[index]?).bind fun entry => scope.slot? entry.1).getD 0, ?_⟩
  funext name
  have hb := bound name
  cases hn : named.slot? name with
  | none =>
    rw [hn] at hb
    simpa using hb
  | some index =>
    rw [hn] at hb
    obtain ⟨own, ho⟩ := Option.isSome_iff_exists.mp (hb.mp rfl)
    simp [numbered.getElem?_of_slot? hn, ho]

/-- A text has the value in some bindings that its expression has in the row of any scope that
agrees with them, and is refused there for the same reason. -/
theorem tryEvaluate_eq (agree : Agree scope row bindings) (text : String) :
    tryEvaluate text bindings =
      ((scope.compile text).mapError .refused).map fun e => e.valueAt row := by
  obtain ⟨ρ, hρ⟩ := agree.exists_rename
  have numbered := Scope.numbered_ofNames (bindings.map Prod.fst)
  rw [tryEvaluate, filledColumns_ofNames]
  generalize hs : Scope.ofNames (bindings.map Prod.fst) = named at numbered hρ ⊢
  have compiled : scope.compile text = (named.compile (α := Float) text).map (.rename ρ) := by
    rw [Scope.compile, hρ, Expression.parseReal_rename]
    rfl
  rw [compiled]
  cases he : named.compile (α := Float) text with
  | error error => simp only [bind, Except.bind, mapError_error, Except.map]
  | ok e =>
    have mentioned (index : Nat) (hm : index ∈ e.slots) :
        ∃ name, named.slot? name = some index :=
      Expression.slotOf_of_mem_slots he hm
    have lengths : ∀ column ∈ boundColumns named bindings, column.length = 1 :=
      fun _ => length_of_mem_boundColumns
    have covered : ∀ index ∈ e.slots, index < (boundColumns named bindings).length := by
      intro index hm
      obtain ⟨name, hn⟩ := mentioned index hm
      obtain ⟨hlt, -⟩ := List.getElem?_eq_some_iff.mp (numbered.getElem?_of_slot? hn)
      simpa [boundColumns] using hlt
    have same : ∀ index ∈ e.slots, row (ρ index) = rowAt (boundColumns named bindings) 0 index := by
      intro index hm
      obtain ⟨name, hn⟩ := mentioned index hm
      have hv : bindings.lookup name = some (row (ρ index)) := by
        rw [← agree name, hρ]
        simp [hn]
      simp [rowAt, boundColumns, numbered.getElem?_of_slot? hn, hv]
    have hv := RealExpression.valueAt_rename ρ e same
    obtain ⟨pool', hr, -⟩ :=
      e.evaluate_of_clean (Registers.clean_new 1) lengths covered
    simp only [bind, Except.bind, mapError_ok, Except.map, hr, hv]
    simp [RealExpression.lanes]

end LessonPlot
