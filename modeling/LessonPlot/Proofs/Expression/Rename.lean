import LessonPlot.Evaluation.Meaning
import LessonPlot.Expression.Depth
import LessonPlot.Proofs.Expression.Slots

namespace LessonPlot

variable {α : Type} (ρ : Nat → Nat)

mutual

/-- An expression with other slots for its variables. -/
def RealExpression.rename : RealExpression α → RealExpression α
  | .literal value => .literal value
  | .slot index => .slot (ρ index)
  | .negate operand => .negate operand.rename
  | .call function argument => .call function argument.rename
  | .binary op left right => .binary op left.rename right.rename
  | .select condition chosen otherwise =>
    .select condition.rename chosen.rename otherwise.rename

/-- An expression with other slots for its variables. -/
def BoolExpression.rename : BoolExpression α → BoolExpression α
  | .compare op left right => .compare op left.rename right.rename
  | .connect op left right => .connect op left.rename right.rename
  | .not operand => .not operand.rename

end

def Expression.rename : Expression α → Expression α
  | .real e => .real (e.rename ρ)
  | .boolean e => .boolean (e.rename ρ)

mutual

theorem RealExpression.slots_rename (e : RealExpression α) :
    (e.rename ρ).slots = e.slots.map ρ := by
  cases e with
  | literal value => rfl
  | slot index => rfl
  | negate operand => exact operand.slots_rename
  | call function argument => exact argument.slots_rename
  | binary op left right =>
    simp only [RealExpression.rename, RealExpression.slots, List.map_append, left.slots_rename,
      right.slots_rename]
  | select condition chosen otherwise =>
    simp only [RealExpression.rename, RealExpression.slots, List.map_append,
      condition.slots_rename, chosen.slots_rename, otherwise.slots_rename]

theorem BoolExpression.slots_rename (e : BoolExpression α) :
    (e.rename ρ).slots = e.slots.map ρ := by
  cases e with
  | compare op left right =>
    simp only [BoolExpression.rename, BoolExpression.slots, List.map_append, left.slots_rename,
      right.slots_rename]
  | connect op left right =>
    simp only [BoolExpression.rename, BoolExpression.slots, List.map_append, left.slots_rename,
      right.slots_rename]
  | not operand => exact operand.slots_rename

end

section Meaning

variable [Scalar α] {row row' : Nat → α}

mutual

/-- The value in a row depends on nothing there but the slots that are mentioned. -/
theorem RealExpression.valueAt_rename (e : RealExpression α)
    (h : ∀ index ∈ e.slots, row (ρ index) = row' index) :
    (e.rename ρ).valueAt row = e.valueAt row' := by
  cases e with
  | literal value => rfl
  | slot index => exact h index (by simp [RealExpression.slots])
  | negate operand =>
    simp only [RealExpression.rename, RealExpression.valueAt, operand.valueAt_rename h]
  | call function argument =>
    simp only [RealExpression.rename, RealExpression.valueAt, argument.valueAt_rename h]
  | binary op left right =>
    simp only [RealExpression.slots, List.mem_append, or_imp, forall_and] at h
    simp only [RealExpression.rename, RealExpression.valueAt, left.valueAt_rename h.1,
      right.valueAt_rename h.2]
  | select condition chosen otherwise =>
    simp only [RealExpression.slots, List.mem_append, or_imp, forall_and] at h
    simp only [RealExpression.rename, RealExpression.valueAt, condition.valueAt_rename h.1.1,
      chosen.valueAt_rename h.1.2, otherwise.valueAt_rename h.2]

theorem BoolExpression.valueAt_rename (e : BoolExpression α)
    (h : ∀ index ∈ e.slots, row (ρ index) = row' index) :
    (e.rename ρ).valueAt row = e.valueAt row' := by
  cases e with
  | compare op left right =>
    simp only [BoolExpression.slots, List.mem_append, or_imp, forall_and] at h
    simp only [BoolExpression.rename, BoolExpression.valueAt, left.valueAt_rename h.1,
      right.valueAt_rename h.2]
  | connect op left right =>
    simp only [BoolExpression.slots, List.mem_append, or_imp, forall_and] at h
    simp only [BoolExpression.rename, BoolExpression.valueAt, left.valueAt_rename h.1,
      right.valueAt_rename h.2]
  | not operand =>
    simp only [BoolExpression.rename, BoolExpression.valueAt, operand.valueAt_rename h]

end

end Meaning

namespace Expression

theorem children_rename (e : Expression α) :
    (e.rename ρ).children = e.children.map (rename ρ) := by
  rcases e with (_ | _ | _ | _ | _ | _) | (_ | _ | _) <;> rfl

theorem deepestLevel_rename (deepest : Nat) (stack : List (Expression α × Nat)) :
    deepestLevel deepest (stack.map fun entry => (entry.1.rename ρ, entry.2)) =
      deepestLevel deepest stack := by
  induction deepest, stack using deepestLevel.induct with
  | case1 deepest => rfl
  | case2 deepest node level stack ih =>
    rw [List.map_cons, deepestLevel, deepestLevel, ← ih, List.map_append, children_rename,
      List.map_map, List.map_map]
    rfl

theorem walkedDepth_rename (e : Expression α) : (e.rename ρ).walkedDepth = e.walkedDepth :=
  deepestLevel_rename ρ 0 [(e, 1)]

end Expression

end LessonPlot
