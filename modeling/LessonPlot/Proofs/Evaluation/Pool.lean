import LessonPlot.Evaluation.Columns

namespace LessonPlot

namespace Registers

variable {α : Type} {n : Nat} {pool : Registers α}

/-- What holds of a pool between any two evaluations: all registers in it are empty. -/
structure Clean (pool : Registers α) (n : Nat) : Prop where
  length_eq : pool.length = n
  reals_empty : ∀ register ∈ pool.reals, register = []
  booleans_empty : ∀ register ∈ pool.booleans, register = []

theorem clean_new (n : Nat) : (new n : Registers α).Clean n :=
  ⟨rfl, by simp [new], by simp [new]⟩

theorem Clean.takeReal_fst (h : pool.Clean n) : pool.takeReal.1 = [] := by
  unfold takeReal
  split
  next register rest hr => exact h.reals_empty register (by simp [hr])
  next => rfl

theorem Clean.takeReal_snd (h : pool.Clean n) : pool.takeReal.2.Clean n := by
  unfold takeReal
  split
  next register rest hr =>
    exact ⟨h.length_eq, fun r hm => h.reals_empty r (by simp [hr, hm]), h.booleans_empty⟩
  next => exact ⟨h.length_eq, h.reals_empty, h.booleans_empty⟩

theorem Clean.takeBoolean_fst (h : pool.Clean n) : pool.takeBoolean.1 = [] := by
  unfold takeBoolean
  split
  next register rest hr => exact h.booleans_empty register (by simp [hr])
  next => rfl

theorem Clean.takeBoolean_snd (h : pool.Clean n) : pool.takeBoolean.2.Clean n := by
  unfold takeBoolean
  split
  next register rest hr =>
    exact ⟨h.length_eq, h.reals_empty, fun r hm => h.booleans_empty r (by simp [hr, hm])⟩
  next => exact ⟨h.length_eq, h.reals_empty, h.booleans_empty⟩

theorem Clean.recycleReal (h : pool.Clean n) (used : Column α) :
    (pool.recycleReal used).Clean n := by
  refine ⟨h.length_eq, ?_, h.booleans_empty⟩
  intro register hm
  rcases List.mem_cons.mp hm with rfl | hm
  · rfl
  · exact h.reals_empty register hm

theorem Clean.recycleBoolean (h : pool.Clean n) (used : Column Bool) :
    (pool.recycleBoolean used).Clean n := by
  refine ⟨h.length_eq, h.reals_empty, ?_⟩
  intro register hm
  rcases List.mem_cons.mp hm with rfl | hm
  · rfl
  · exact h.booleans_empty register hm

theorem Clean.recycle (h : pool.Clean n) (operand : Operand α) :
    (operand.recycle pool).Clean n := by
  cases operand with
  | column values => exact h
  | register values => exact h.recycleReal values

/-- The pools that a caller can have in hand: a new one, or what evaluations and returned outputs
have made of one. -/
inductive Reachable [Scalar α] (n : Nat) : Registers α → Prop where
  | new : Reachable n (new n)
  | real {pool pool' : Registers α} {e : RealExpression α} {columns : List (Column α)}
      {output : Column α} (before : Reachable n pool)
      (evaluated : e.evaluate columns pool = .ok (output, pool')) : Reachable n pool'
  | boolean {pool pool' : Registers α} {e : BoolExpression α} {columns : List (Column α)}
      {output : Column Bool} (before : Reachable n pool)
      (evaluated : e.evaluate columns pool = .ok (output, pool')) : Reachable n pool'
  | recycle {pool : Registers α} (before : Reachable n pool) (used : Column α) :
      Reachable n (pool.recycleReal used)

end Registers

end LessonPlot
