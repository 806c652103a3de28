import LessonPlot.Proofs.Evaluation.Lanes
import LessonPlot.Proofs.Evaluation.Totality

namespace LessonPlot

variable {α : Type} {columns : List (Column α)} {pool : Registers α}

theorem checked_eq_ok_iff {β : Type} {fill : Evaluation α β} {result : β × Registers α} :
    (checkLengths pool.length columns >>= fun _ => fill pool) = .ok result ↔
      (∀ column ∈ columns, column.length = pool.length) ∧ fill pool = .ok result := by
  rw [← checkLengths_eq_ok_iff, bind_eq_ok_iff]
  exact ⟨fun ⟨(), hl, hf⟩ => ⟨hl, hf⟩, fun ⟨hl, hf⟩ => ⟨(), hl, hf⟩⟩

variable [Scalar α] {n : Nat}

theorem RealExpression.evaluate_eq_ok_iff {e : RealExpression α} {result : Column α × Registers α} :
    e.evaluate columns pool = .ok result ↔
      (∀ column ∈ columns, column.length = pool.length) ∧ e.fill columns pool = .ok result :=
  checked_eq_ok_iff

theorem BoolExpression.evaluate_eq_ok_iff {e : BoolExpression α}
    {result : Column Bool × Registers α} :
    e.evaluate columns pool = .ok result ↔
      (∀ column ∈ columns, column.length = pool.length) ∧ e.fill columns pool = .ok result :=
  checked_eq_ok_iff

theorem RealExpression.evaluate_of_clean (clean : pool.Clean n)
    (lengths : ∀ column ∈ columns, column.length = n) (e : RealExpression α)
    (covered : ∀ index ∈ e.slots, index < columns.length) :
    ∃ pool', e.evaluate columns pool = .ok (e.lanes columns n, pool') ∧ pool'.Clean n := by
  obtain ⟨⟨output, pool'⟩, hf⟩ := e.fill_total covered pool
  obtain ⟨rfl, hp⟩ := e.fill_lanes lengths clean hf
  rw [← clean.length_eq] at lengths
  exact ⟨pool', RealExpression.evaluate_eq_ok_iff.mpr ⟨lengths, hf⟩, hp⟩

theorem BoolExpression.evaluate_of_clean (clean : pool.Clean n)
    (lengths : ∀ column ∈ columns, column.length = n) (e : BoolExpression α)
    (covered : ∀ index ∈ e.slots, index < columns.length) :
    ∃ pool', e.evaluate columns pool = .ok (e.lanes columns n, pool') ∧ pool'.Clean n := by
  obtain ⟨⟨output, pool'⟩, hf⟩ := e.fill_total covered pool
  obtain ⟨rfl, hp⟩ := e.fill_lanes lengths clean hf
  rw [← clean.length_eq] at lengths
  exact ⟨pool', BoolExpression.evaluate_eq_ok_iff.mpr ⟨lengths, hf⟩, hp⟩

/-- However a pool was used, nothing of what it was used for is left in it. -/
theorem Registers.Reachable.clean (reachable : Registers.Reachable n pool) : pool.Clean n := by
  induction reachable with
  | new => exact clean_new n
  | real before evaluated ih =>
    obtain ⟨lengths, hf⟩ := RealExpression.evaluate_eq_ok_iff.mp evaluated
    rw [ih.length_eq] at lengths
    exact (RealExpression.fill_lanes lengths _ ih hf).2
  | boolean before evaluated ih =>
    obtain ⟨lengths, hf⟩ := BoolExpression.evaluate_eq_ok_iff.mp evaluated
    rw [ih.length_eq] at lengths
    exact (BoolExpression.fill_lanes lengths _ ih hf).2
  | recycle before used ih => exact ih.recycleReal used

theorem RealExpression.getElem?_lanes (e : RealExpression α) {row : Nat} (h : row < n) :
    (e.lanes columns n)[row]? = some (e.valueAt (rowAt columns row)) := by
  simp [RealExpression.lanes, h]

theorem BoolExpression.getElem?_lanes (e : BoolExpression α) {row : Nat} (h : row < n) :
    (e.lanes columns n)[row]? = some (e.valueAt (rowAt columns row)) := by
  simp [BoolExpression.lanes, h]

/-- Evaluation in columns is evaluation row by row: on a pool with any history it gives one value
per row, that of the row alone, and so the same values as on a new pool. -/
theorem evaluate_rowwise (reachable : Registers.Reachable n pool)
    (lengths : ∀ column ∈ columns, column.length = n) :
    (∀ e : RealExpression α, (∀ index ∈ e.slots, index < columns.length) →
      ∃ output pool' fresh, e.evaluate columns pool = .ok (output, pool') ∧
        e.evaluate columns (.new n) = .ok (output, fresh) ∧ output.length = n ∧
        ∀ row < n, output[row]? = some (e.valueAt (rowAt columns row))) ∧
    (∀ e : BoolExpression α, (∀ index ∈ e.slots, index < columns.length) →
      ∃ output pool' fresh, e.evaluate columns pool = .ok (output, pool') ∧
        e.evaluate columns (.new n) = .ok (output, fresh) ∧ output.length = n ∧
        ∀ row < n, output[row]? = some (e.valueAt (rowAt columns row))) := by
  have hn : (Registers.new n : Registers α).Clean n := Registers.clean_new n
  constructor
  · intro e covered
    obtain ⟨pool', hu, _⟩ := e.evaluate_of_clean reachable.clean lengths covered
    obtain ⟨fresh, hf, _⟩ := e.evaluate_of_clean hn lengths covered
    exact ⟨_, pool', fresh, hu, hf, by simp [RealExpression.lanes], fun _ => e.getElem?_lanes⟩
  · intro e covered
    obtain ⟨pool', hu, _⟩ := e.evaluate_of_clean reachable.clean lengths covered
    obtain ⟨fresh, hf, _⟩ := e.evaluate_of_clean hn lengths covered
    exact ⟨_, pool', fresh, hu, hf, by simp [BoolExpression.lanes], fun _ => e.getElem?_lanes⟩

/-- A pool with a register of another length handed back to it, and a mask that is not uniform. -/
theorem evaluate_rowwise_recycled :
    let pool : Registers Float := (Registers.new 2).recycleReal [5, 6, 7]
    let columns : List (Column Float) := [[1, 4], [3, 2]]
    let e : RealExpression Float :=
      .select (.compare .less (.slot 0) (.slot 1)) (.slot 1) (.negate (.slot 0))
    Registers.Reachable 2 pool ∧ (∀ column ∈ columns, column.length = 2) ∧
      (∀ index ∈ e.slots, index < columns.length) ∧
      ∃ output pool' fresh, e.evaluate columns pool = .ok (output, pool') ∧
        e.evaluate columns (.new 2) = .ok (output, fresh) ∧ output.length = 2 ∧
        ∀ row < 2, output[row]? = some (e.valueAt (rowAt columns row)) := by
  intro pool columns e
  have reachable : Registers.Reachable 2 pool := .recycle .new _
  have lengths : ∀ column ∈ columns, column.length = 2 := by simp [columns]
  have covered : ∀ index ∈ e.slots, index < columns.length := by
    simp [e, columns, RealExpression.slots, BoolExpression.slots]
  exact ⟨reachable, lengths, covered, (evaluate_rowwise reachable lengths).1 e covered⟩

end LessonPlot
