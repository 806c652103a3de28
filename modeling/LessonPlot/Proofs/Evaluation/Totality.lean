import LessonPlot.Proofs.Evaluation.Pool
import LessonPlot.Proofs.Except
import LessonPlot.Proofs.Expression.Slots

namespace LessonPlot

theorem columnOf_total {α : Type} {columns : List (Column α)} {index : Nat}
    (covered : index < columns.length) : ∃ column, columnOf columns index = .ok column := by
  unfold columnOf
  rw [List.getElem?_eq_getElem covered]
  exact ⟨columns[index], rfl⟩

variable {α : Type} [Scalar α] {columns : List (Column α)}

theorem Operand.of_total {e : RealExpression α}
    (covered : ∀ index ∈ e.slots, index < columns.length)
    (fills : ∀ pool, ∃ result, e.fill columns pool = .ok result) (pool : Registers α) :
    ∃ result, Operand.of columns e (e.fill columns) pool = .ok result := by
  unfold Operand.of
  split
  next index =>
    obtain ⟨column, hc⟩ := columnOf_total (covered index (by simp [RealExpression.slots]))
    exact ⟨_, bind_eq_ok_iff.mpr ⟨column, hc, rfl⟩⟩
  next =>
    obtain ⟨result, hf⟩ := fills pool
    exact ⟨_, bind_eq_ok_iff.mpr ⟨result, hf, rfl⟩⟩

mutual

/-- An expression of which every slot has a column has a value, whatever the pool holds. -/
theorem RealExpression.fill_total (e : RealExpression α)
    (covered : ∀ index ∈ e.slots, index < columns.length) (pool : Registers α) :
    ∃ result, e.fill columns pool = .ok result := by
  cases e with
  | literal value => exact ⟨_, rfl⟩
  | slot index =>
    obtain ⟨column, hc⟩ := columnOf_total (covered index (by simp [RealExpression.slots]))
    exact ⟨_, bind_eq_ok_iff.mpr ⟨column, hc, rfl⟩⟩
  | negate operand =>
    obtain ⟨o, ho⟩ := Operand.of_total (e := operand) covered (operand.fill_total covered) pool
    exact ⟨_, bind_eq_ok_iff.mpr ⟨o, ho, rfl⟩⟩
  | call function argument =>
    obtain ⟨o, ho⟩ := Operand.of_total (e := argument) covered (argument.fill_total covered) pool
    exact ⟨_, bind_eq_ok_iff.mpr ⟨o, ho, rfl⟩⟩
  | binary op left right =>
    obtain ⟨coveredLeft, coveredRight⟩ := List.forall_mem_append.mp covered
    obtain ⟨l, hl⟩ := Operand.of_total coveredLeft (left.fill_total coveredLeft) pool
    obtain ⟨r, hr⟩ := Operand.of_total coveredRight (right.fill_total coveredRight) l.2
    exact ⟨_, bind_eq_ok_iff.mpr ⟨l, hl, bind_eq_ok_iff.mpr ⟨r, hr, rfl⟩⟩⟩
  | select condition chosen otherwise =>
    obtain ⟨covered, coveredOtherwise⟩ := List.forall_mem_append.mp covered
    obtain ⟨coveredCondition, coveredChosen⟩ := List.forall_mem_append.mp covered
    obtain ⟨m, hm⟩ := condition.fill_total coveredCondition pool
    simp only [RealExpression.fill, hm, bind, Except.bind]
    split
    · exact chosen.fill_total coveredChosen _
    · split
      · exact otherwise.fill_total coveredOtherwise _
      · obtain ⟨c, hc⟩ := Operand.of_total coveredChosen (chosen.fill_total coveredChosen) m.2
        obtain ⟨o, ho⟩ :=
          Operand.of_total coveredOtherwise (otherwise.fill_total coveredOtherwise) c.2
        exact ⟨_, bind_eq_ok_iff.mpr ⟨c, hc, bind_eq_ok_iff.mpr ⟨o, ho, rfl⟩⟩⟩

/-- An expression of which every slot has a column has truth values, whatever the pool holds. -/
theorem BoolExpression.fill_total (e : BoolExpression α)
    (covered : ∀ index ∈ e.slots, index < columns.length) (pool : Registers α) :
    ∃ result, e.fill columns pool = .ok result := by
  cases e with
  | compare op left right =>
    obtain ⟨coveredLeft, coveredRight⟩ := List.forall_mem_append.mp covered
    obtain ⟨l, hl⟩ := Operand.of_total coveredLeft (left.fill_total coveredLeft) pool
    obtain ⟨r, hr⟩ := Operand.of_total coveredRight (right.fill_total coveredRight) l.2
    exact ⟨_, bind_eq_ok_iff.mpr ⟨l, hl, bind_eq_ok_iff.mpr ⟨r, hr, rfl⟩⟩⟩
  | connect op left right =>
    obtain ⟨coveredLeft, coveredRight⟩ := List.forall_mem_append.mp covered
    obtain ⟨l, hl⟩ := left.fill_total coveredLeft pool
    obtain ⟨r, hr⟩ := right.fill_total coveredRight l.2
    exact ⟨_, bind_eq_ok_iff.mpr ⟨l, hl, bind_eq_ok_iff.mpr ⟨r, hr, rfl⟩⟩⟩
  | not operand =>
    obtain ⟨o, ho⟩ := operand.fill_total covered pool
    exact ⟨_, bind_eq_ok_iff.mpr ⟨o, ho, rfl⟩⟩

end

theorem checkLengths_eq_ok_iff {β : Type} {n : Nat} {columns : List (Column β)} :
    checkLengths n columns = .ok () ↔ ∀ column ∈ columns, column.length = n := by
  unfold checkLengths
  split
  next index hi =>
    obtain ⟨hb, hl, _⟩ := List.findIdx?_eq_some_iff_getElem.mp hi
    have hl : columns[index].length ≠ n := by simpa using hl
    exact ⟨nofun, fun lengths => absurd (lengths _ (List.getElem_mem hb)) hl⟩
  next hn => simpa using hn

end LessonPlot
