import LessonPlot.Proofs.Evaluation.Refinement

namespace LessonPlot

/-- Of two steps in a row both must complete; the second only has to where the first did. -/
theorem completes_bind_iff {ε β γ : Type} {x : Except ε β} {f : β → Except ε γ} {next : Prop}
    (h : ∀ b, x = .ok b → ((∃ c, f b = .ok c) ↔ next)) :
    (∃ c, x >>= f = .ok c) ↔ (∃ b, x = .ok b) ∧ next := by
  constructor
  · rintro ⟨c, hc⟩
    obtain ⟨b, hb, hf⟩ := bind_eq_ok_iff.mp hc
    exact ⟨⟨b, hb⟩, (h b hb).mp ⟨c, hf⟩⟩
  · rintro ⟨⟨b, hb⟩, hn⟩
    obtain ⟨c, hf⟩ := (h b hb).mpr hn
    exact ⟨c, bind_eq_ok_iff.mpr ⟨b, hb, hf⟩⟩

theorem completes_map_iff {ε β γ : Type} {x : Except ε β} {f : β → γ} :
    (∃ c, x >>= (fun b => .ok (f b)) = .ok c) ↔ ∃ b, x = .ok b :=
  (completes_bind_iff fun b _ => iff_true_intro ⟨f b, rfl⟩).trans (and_iff_left trivial)

section Reads

variable {α : Type} [Scalar α] (columns : List (Column α)) (n : Nat)

mutual

/-- The slots that an evaluation over `n` rows reads. Of a selection whose condition is the same in
every row it reads only the side it takes. -/
def RealExpression.reads : RealExpression α → List Nat
  | .literal _ => []
  | .slot index => [index]
  | .negate operand => operand.reads
  | .call _ argument => argument.reads
  | .binary _ left right => left.reads ++ right.reads
  | .select condition chosen otherwise =>
    condition.reads ++
      if ∀ row < n, condition.valueAt (rowAt columns row) = true then chosen.reads
      else if ∀ row < n, condition.valueAt (rowAt columns row) = false then otherwise.reads
      else chosen.reads ++ otherwise.reads

/-- The slots that an evaluation over `n` rows reads. -/
def BoolExpression.reads : BoolExpression α → List Nat
  | .compare _ left right => left.reads ++ right.reads
  | .connect _ left right => left.reads ++ right.reads
  | .not operand => operand.reads

end

end Reads

variable {α : Type} {columns : List (Column α)} {n : Nat} {pool : Registers α}

theorem columnOf_completes_iff {index : Nat} :
    (∃ column, columnOf columns index = .ok column) ↔ index < columns.length := by
  constructor
  · rintro ⟨column, h⟩
    unfold columnOf at h
    split at h
    next found => exact (List.getElem?_eq_some_iff.mp found).1
    next => cases h
  · exact columnOf_total

variable [Scalar α]

theorem BoolExpression.all_lanes_iff (condition : BoolExpression α) :
    (condition.lanes columns n).all id = true ↔
      ∀ row < n, condition.valueAt (rowAt columns row) = true := by
  simp [BoolExpression.lanes]

theorem BoolExpression.not_any_lanes_iff (condition : BoolExpression α) :
    (!(condition.lanes columns n).any id) = true ↔
      ∀ row < n, condition.valueAt (rowAt columns row) = false := by
  simp [BoolExpression.lanes]

/-- An operand completes where the whole expression would. -/
theorem Operand.of_completes_iff {e : RealExpression α} {covered : Prop}
    (fills : (∃ result, e.fill columns pool = .ok result) ↔ covered) :
    (∃ result, Operand.of columns e (e.fill columns) pool = .ok result) ↔ covered := by
  rw [← fills]
  cases e with
  | slot index => exact completes_map_iff.trans completes_map_iff.symm
  | literal | negate | call | binary | select => exact completes_map_iff

mutual

/-- Whether an evaluation completes is decided by the slots that it reads, whatever the pool holds. -/
theorem RealExpression.fill_completes_iff (lengths : ∀ column ∈ columns, column.length = n)
    (e : RealExpression α) {pool : Registers α} (clean : pool.Clean n) :
    (∃ result, e.fill columns pool = .ok result) ↔
      ∀ index ∈ e.reads columns n, index < columns.length := by
  cases e with
  | literal value => exact iff_of_true ⟨_, rfl⟩ nofun
  | slot index =>
    rw [RealExpression.reads, List.forall_mem_singleton, ← columnOf_completes_iff]
    exact completes_map_iff
  | negate operand =>
    have inner := Operand.of_completes_iff (operand.fill_completes_iff lengths clean)
    exact completes_map_iff.trans inner
  | call function argument =>
    have inner := Operand.of_completes_iff (argument.fill_completes_iff lengths clean)
    exact completes_map_iff.trans inner
  | binary op left right =>
    rw [RealExpression.reads, List.forall_mem_append,
      ← Operand.of_completes_iff (left.fill_completes_iff lengths clean)]
    refine completes_bind_iff fun l hl => ?_
    have clean' := (Operand.of_lanes lengths (left.fill_lanes lengths) clean hl).2
    have inner := Operand.of_completes_iff (right.fill_completes_iff lengths clean')
    exact completes_map_iff.trans inner
  | select condition chosen otherwise =>
    rw [RealExpression.reads, List.forall_mem_append,
      ← condition.fill_completes_iff lengths clean]
    refine completes_bind_iff fun ⟨mask, pool'⟩ hm => ?_
    obtain ⟨rfl, clean'⟩ := condition.fill_lanes lengths clean hm
    dsimp only
    split
    next all =>
      rw [if_pos (condition.all_lanes_iff.mp all)]
      exact chosen.fill_completes_iff lengths (clean'.recycleBoolean _)
    next mixed =>
      rw [if_neg (mt condition.all_lanes_iff.mpr mixed)]
      split
      next none =>
        rw [if_pos (condition.not_any_lanes_iff.mp none)]
        exact otherwise.fill_completes_iff lengths (clean'.recycleBoolean _)
      next some =>
        rw [if_neg (mt condition.not_any_lanes_iff.mpr some), List.forall_mem_append,
          ← Operand.of_completes_iff (chosen.fill_completes_iff lengths clean')]
        refine completes_bind_iff fun c hc => ?_
        have clean'' := (Operand.of_lanes lengths (chosen.fill_lanes lengths) clean' hc).2
        have inner := Operand.of_completes_iff (otherwise.fill_completes_iff lengths clean'')
        exact completes_map_iff.trans inner

theorem BoolExpression.fill_completes_iff (lengths : ∀ column ∈ columns, column.length = n)
    (e : BoolExpression α) {pool : Registers α} (clean : pool.Clean n) :
    (∃ result, e.fill columns pool = .ok result) ↔
      ∀ index ∈ e.reads columns n, index < columns.length := by
  cases e with
  | compare op left right =>
    rw [BoolExpression.reads, List.forall_mem_append,
      ← Operand.of_completes_iff (left.fill_completes_iff lengths clean)]
    refine completes_bind_iff fun l hl => ?_
    have clean' := (Operand.of_lanes lengths (left.fill_lanes lengths) clean hl).2
    have inner := Operand.of_completes_iff (right.fill_completes_iff lengths clean')
    exact completes_map_iff.trans inner
  | connect op left right =>
    rw [BoolExpression.reads, List.forall_mem_append, ← left.fill_completes_iff lengths clean]
    refine completes_bind_iff fun l hl => ?_
    have clean' := (left.fill_lanes lengths clean hl).2
    exact completes_map_iff.trans (right.fill_completes_iff lengths clean')
  | not operand => exact completes_map_iff.trans (operand.fill_completes_iff lengths clean)

end

/-- Evaluation completes exactly if every column has the length of the pool and every slot that it
reads has a column. What would be read in a side that no row takes is never missed. -/
theorem evaluate_completes_iff (reachable : Registers.Reachable n pool)
    (columns : List (Column α)) :
    (∀ e : RealExpression α, (∃ result, e.evaluate columns pool = .ok result) ↔
      (∀ column ∈ columns, column.length = n) ∧
        ∀ index ∈ e.reads columns n, index < columns.length) ∧
    (∀ e : RealExpression α, (∃ result, e.evaluateClosed pool = .ok result) ↔
      e.reads [] n = []) ∧
    (∀ e : BoolExpression α, (∃ result, e.evaluate columns pool = .ok result) ↔
      (∀ column ∈ columns, column.length = n) ∧
        ∀ index ∈ e.reads columns n, index < columns.length) := by
  have clean := reachable.clean
  have real (columns : List (Column α)) (e : RealExpression α) :
      (∃ result, e.evaluate columns pool = .ok result) ↔
        (∀ column ∈ columns, column.length = n) ∧
          ∀ index ∈ e.reads columns n, index < columns.length := by
    simp only [RealExpression.evaluate_eq_ok_iff, exists_and_left, clean.length_eq]
    exact and_congr_right fun lengths => e.fill_completes_iff lengths clean
  refine ⟨real columns, fun e => ?_, fun e => ?_⟩
  · rw [RealExpression.evaluateClosed, real, and_iff_right nofun]
    simp [List.eq_nil_iff_forall_not_mem]
  · simp only [BoolExpression.evaluate_eq_ok_iff, exists_and_left, clean.length_eq]
    exact and_congr_right fun lengths => e.fill_completes_iff lengths clean

/-- Slot 7 has no column. It is not read where the condition holds in both rows, and it is where the
condition holds in one of them. -/
theorem evaluate_completes_iff_sided :
    let e : RealExpression Float :=
      .select (.compare .less (.literal 0) (.slot 0)) (.slot 0) (.slot 7)
    Registers.Reachable 2 (Registers.new 2 : Registers Float) ∧
      (∃ result, e.evaluate [[1, 4]] (.new 2) = .ok result) ∧
      ¬ ∃ result, e.evaluate [[1, -4]] (.new 2) = .ok result := by
  intro e
  have same : e.reads [[1, 4]] 2 = [0, 0] := by decide +kernel
  have mixed : e.reads [[1, -4]] 2 = [0, 0, 7] := by decide +kernel
  refine ⟨.new, ?_, ?_⟩
  · rw [(evaluate_completes_iff .new [[1, 4]]).1 e, same]
    simp
  · rw [(evaluate_completes_iff .new [[1, -4]]).1 e, mixed]
    simp

end LessonPlot
