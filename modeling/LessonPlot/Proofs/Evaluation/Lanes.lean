import LessonPlot.Proofs.Evaluation.Pool
import LessonPlot.Proofs.Except
import LessonPlot.Proofs.Expression.Slots

namespace LessonPlot

variable {α : Type} [Scalar α]

/-- What each slot holds in one row of some columns. -/
def rowAt (columns : List (Column α)) (row : Nat) : Nat → α :=
  fun index => ((columns[index]?.getD [])[row]?).getD Scalar.notANumber

/-- The values of an expression row by row, each from its own row alone. -/
def RealExpression.lanes (columns : List (Column α)) (n : Nat) (e : RealExpression α) : Column α :=
  (List.range n).map fun row => e.valueAt (rowAt columns row)

/-- The truth values of an expression row by row, each from its own row alone. -/
def BoolExpression.lanes (columns : List (Column α)) (n : Nat) (e : BoolExpression α) :
    Column Bool :=
  (List.range n).map fun row => e.valueAt (rowAt columns row)

variable {n : Nat} {columns : List (Column α)}

theorem columnOf_lanes (lengths : ∀ column ∈ columns, column.length = n) {index : Nat}
    {column : Column α} (h : columnOf columns index = .ok column) :
    column = (RealExpression.slot index).lanes columns n := by
  unfold columnOf at h
  split at h
  next found hf =>
    cases h
    have hl := lengths column (List.mem_of_getElem? hf)
    apply List.ext_getElem (by simp [RealExpression.lanes, hl])
    intro row hr hr'
    simp [RealExpression.lanes, RealExpression.valueAt, rowAt, hf, hr]
  next => cases h

theorem Operand.of_lanes (lengths : ∀ column ∈ columns, column.length = n) {e : RealExpression α}
    (fills : ∀ {pool pool' : Registers α} {output : Column α}, pool.Clean n →
      e.fill columns pool = .ok (output, pool') → output = e.lanes columns n ∧ pool'.Clean n)
    {pool pool' : Registers α} {operand : Operand α} (clean : pool.Clean n)
    (h : Operand.of columns e (e.fill columns) pool = .ok (operand, pool')) :
    operand.values = e.lanes columns n ∧ pool'.Clean n := by
  unfold Operand.of at h
  split at h
  next index =>
    obtain ⟨values, hc, h⟩ := bind_eq_ok_iff.mp h
    cases h
    exact ⟨columnOf_lanes lengths hc, clean⟩
  next =>
    obtain ⟨⟨values, pool₁⟩, hf, h⟩ := bind_eq_ok_iff.mp h
    cases h
    exact fills clean hf

theorem select_lanes (condition : BoolExpression α) (chosen otherwise : RealExpression α) :
    List.zipWith (fun takes (pair : α × α) => if takes then pair.1 else pair.2)
      (condition.lanes columns n)
      (List.zip (chosen.lanes columns n) (otherwise.lanes columns n)) =
      (RealExpression.select condition chosen otherwise).lanes columns n := by
  simp [RealExpression.lanes, BoolExpression.lanes, List.zip_map', List.zipWith_map,
    List.zipWith_self, RealExpression.valueAt]

theorem select_lanes_of_all {condition : BoolExpression α} {chosen otherwise : RealExpression α}
    (h : (condition.lanes columns n).all id = true) :
    (RealExpression.select condition chosen otherwise).lanes columns n = chosen.lanes columns n := by
  apply List.map_congr_left
  intro row hr
  have hc : condition.valueAt (rowAt columns row) = true :=
    List.all_eq_true.mp h _ (List.mem_map_of_mem hr)
  simp [RealExpression.valueAt, hc]

theorem select_lanes_of_none {condition : BoolExpression α} {chosen otherwise : RealExpression α}
    (h : (condition.lanes columns n).any id = false) :
    (RealExpression.select condition chosen otherwise).lanes columns n =
      otherwise.lanes columns n := by
  apply List.map_congr_left
  intro row hr
  have hc : condition.valueAt (rowAt columns row) = false := by
    simpa using List.any_eq_false.mp h _ (List.mem_map_of_mem hr)
  simp [RealExpression.valueAt, hc]

mutual

/-- What an evaluation that succeeds has computed, and in what state it leaves the pool. -/
theorem RealExpression.fill_lanes (lengths : ∀ column ∈ columns, column.length = n)
    (e : RealExpression α) {pool pool' : Registers α} {output : Column α} (clean : pool.Clean n)
    (h : e.fill columns pool = .ok (output, pool')) :
    output = e.lanes columns n ∧ pool'.Clean n := by
  cases e with
  | literal value =>
    simp only [RealExpression.fill, Except.ok.injEq, Prod.mk.injEq] at h
    obtain ⟨rfl, rfl⟩ := h
    refine ⟨?_, clean.takeReal_snd⟩
    simp [clean.takeReal_fst, clean.takeReal_snd.length_eq, RealExpression.lanes,
      RealExpression.valueAt, List.map_const']
  | slot index =>
    simp only [RealExpression.fill] at h
    obtain ⟨values, hc, h⟩ := bind_eq_ok_iff.mp h
    simp only [Except.ok.injEq, Prod.mk.injEq] at h
    obtain ⟨rfl, rfl⟩ := h
    refine ⟨?_, clean.takeReal_snd⟩
    rw [clean.takeReal_fst, List.nil_append]
    exact columnOf_lanes lengths hc
  | negate operand =>
    obtain ⟨⟨values, pool₁⟩, ho, h⟩ := bind_eq_ok_iff.mp h
    simp only [Except.ok.injEq, Prod.mk.injEq] at h
    obtain ⟨rfl, rfl⟩ := h
    obtain ⟨hv, hp⟩ := Operand.of_lanes lengths (operand.fill_lanes lengths) clean ho
    refine ⟨?_, hp.takeReal_snd.recycle values⟩
    simp [hp.takeReal_fst, hv, RealExpression.lanes, RealExpression.valueAt]
  | call function argument =>
    obtain ⟨⟨values, pool₁⟩, ho, h⟩ := bind_eq_ok_iff.mp h
    simp only [Except.ok.injEq, Prod.mk.injEq] at h
    obtain ⟨rfl, rfl⟩ := h
    obtain ⟨hv, hp⟩ := Operand.of_lanes lengths (argument.fill_lanes lengths) clean ho
    refine ⟨?_, hp.takeReal_snd.recycle values⟩
    simp [hp.takeReal_fst, hv, RealExpression.lanes, RealExpression.valueAt]
  | binary op left right =>
    obtain ⟨⟨l, pool₁⟩, hl, h⟩ := bind_eq_ok_iff.mp h
    obtain ⟨⟨r, pool₂⟩, hr, h⟩ := bind_eq_ok_iff.mp h
    simp only [Except.ok.injEq, Prod.mk.injEq] at h
    obtain ⟨rfl, rfl⟩ := h
    obtain ⟨hlv, hp₁⟩ := Operand.of_lanes lengths (left.fill_lanes lengths) clean hl
    obtain ⟨hrv, hp₂⟩ := Operand.of_lanes lengths (right.fill_lanes lengths) hp₁ hr
    refine ⟨?_, (hp₂.takeReal_snd.recycle l).recycle r⟩
    simp [hp₂.takeReal_fst, hlv, hrv, RealExpression.lanes, RealExpression.valueAt,
      List.zipWith_map, List.zipWith_self]
  | select condition chosen otherwise =>
    obtain ⟨⟨mask, pool₁⟩, hm, h⟩ := bind_eq_ok_iff.mp h
    obtain ⟨rfl, hp₁⟩ := condition.fill_lanes lengths clean hm
    simp only at h
    split at h
    next ha =>
      rw [select_lanes_of_all ha]
      exact chosen.fill_lanes lengths (hp₁.recycleBoolean _) h
    next =>
      split at h
      next hn =>
        rw [select_lanes_of_none (by simpa only [Bool.not_eq_true'] using hn)]
        exact otherwise.fill_lanes lengths (hp₁.recycleBoolean _) h
      next =>
        obtain ⟨⟨c, pool₂⟩, hc, h⟩ := bind_eq_ok_iff.mp h
        obtain ⟨⟨o, pool₃⟩, ho, h⟩ := bind_eq_ok_iff.mp h
        simp only [Except.ok.injEq, Prod.mk.injEq] at h
        obtain ⟨rfl, rfl⟩ := h
        obtain ⟨hcv, hp₂⟩ := Operand.of_lanes lengths (chosen.fill_lanes lengths) hp₁ hc
        obtain ⟨hov, hp₃⟩ := Operand.of_lanes lengths (otherwise.fill_lanes lengths) hp₂ ho
        refine ⟨?_, ((hp₃.takeReal_snd.recycleBoolean _).recycle c).recycle o⟩
        rw [hp₃.takeReal_fst, hcv, hov, List.nil_append, select_lanes]

/-- What an evaluation that succeeds has computed, and in what state it leaves the pool. -/
theorem BoolExpression.fill_lanes (lengths : ∀ column ∈ columns, column.length = n)
    (e : BoolExpression α) {pool pool' : Registers α} {output : Column Bool}
    (clean : pool.Clean n) (h : e.fill columns pool = .ok (output, pool')) :
    output = e.lanes columns n ∧ pool'.Clean n := by
  cases e with
  | compare op left right =>
    obtain ⟨⟨l, pool₁⟩, hl, h⟩ := bind_eq_ok_iff.mp h
    obtain ⟨⟨r, pool₂⟩, hr, h⟩ := bind_eq_ok_iff.mp h
    simp only [Except.ok.injEq, Prod.mk.injEq] at h
    obtain ⟨rfl, rfl⟩ := h
    obtain ⟨hlv, hp₁⟩ := Operand.of_lanes lengths (left.fill_lanes lengths) clean hl
    obtain ⟨hrv, hp₂⟩ := Operand.of_lanes lengths (right.fill_lanes lengths) hp₁ hr
    refine ⟨?_, (hp₂.takeBoolean_snd.recycle l).recycle r⟩
    simp [hp₂.takeBoolean_fst, hlv, hrv, BoolExpression.lanes, RealExpression.lanes,
      BoolExpression.valueAt, List.zipWith_map, List.zipWith_self]
  | connect op left right =>
    obtain ⟨⟨l, pool₁⟩, hl, h⟩ := bind_eq_ok_iff.mp h
    obtain ⟨⟨r, pool₂⟩, hr, h⟩ := bind_eq_ok_iff.mp h
    simp only [Except.ok.injEq, Prod.mk.injEq] at h
    obtain ⟨rfl, rfl⟩ := h
    obtain ⟨rfl, hp₁⟩ := left.fill_lanes lengths clean hl
    obtain ⟨rfl, hp₂⟩ := right.fill_lanes lengths hp₁ hr
    refine ⟨?_, (hp₂.takeBoolean_snd.recycleBoolean _).recycleBoolean _⟩
    simp [hp₂.takeBoolean_fst, BoolExpression.lanes, BoolExpression.valueAt, List.zipWith_map,
      List.zipWith_self]
  | not operand =>
    obtain ⟨⟨values, pool₁⟩, ho, h⟩ := bind_eq_ok_iff.mp h
    simp only [Except.ok.injEq, Prod.mk.injEq] at h
    obtain ⟨rfl, rfl⟩ := h
    obtain ⟨rfl, hp⟩ := operand.fill_lanes lengths clean ho
    exact ⟨by simp [BoolExpression.lanes, BoolExpression.valueAt], hp⟩

end

end LessonPlot
