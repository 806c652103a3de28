import LessonPlot.Expression.Depth

namespace LessonPlot

namespace Expression

variable {α : Type}

theorem depth_pos (e : Expression α) : 0 < e.depth := by
  rcases e with (_ | _ | _ | _ | _ | _) | (_ | _ | _) <;> exact Nat.succ_pos _

/-- The level of the lowest node below a node that waits at a level. -/
def lowest (entry : Expression α × Nat) : Nat :=
  entry.2 + (entry.1.depth - 1)

/-- The lowest node is a leaf at the node's own level or lies below a child. -/
theorem foldl_lowest_children (e : Expression α) (level deepest : Nat) :
    (e.children.map (·, level + 1)).foldl (fun n entry => max n (lowest entry))
        (max deepest level) =
      max deepest (lowest (e, level)) := by
  have below (e : Expression α) : level + 1 + (e.depth - 1) = level + e.depth := by
    have := e.depth_pos
    omega
  rcases e with (_ | _ | _ | _ | _ | _) | (_ | _ | _) <;>
    simp only [children, List.map_cons, List.map_nil, List.foldl_cons, List.foldl_nil, lowest,
      below] <;>
    simp only [depth, RealExpression.depth, BoolExpression.depth] <;> omega

/-- The walk meets the lowest of all nodes below those on its stack. -/
theorem deepestLevel_eq_foldl (deepest : Nat) (stack : List (Expression α × Nat)) :
    deepestLevel deepest stack = stack.foldl (fun n entry => max n (lowest entry)) deepest := by
  induction deepest, stack using deepestLevel.induct with
  | case1 deepest => rw [deepestLevel]; rfl
  | case2 deepest node level stack ih =>
    rw [deepestLevel, ih, List.foldl_append, foldl_lowest_children, List.foldl_cons]

theorem walkedDepth_eq_depth (e : Expression α) : e.walkedDepth = e.depth := by
  have pos := e.depth_pos
  rw [walkedDepth, deepestLevel_eq_foldl]
  simp only [List.foldl_cons, List.foldl_nil, lowest]
  omega

end Expression

end LessonPlot
