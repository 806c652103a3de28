import LessonPlot.Decimal.Basic

namespace LessonPlot

def cube (n : Nat) : Nat :=
  n * n * n

theorem cube_double (n : Nat) : cube (2 * n) = 8 * cube n := by
  unfold cube
  grind

/-- The largest whole number whose cube is at most `n`. -/
def cubeRoot (n : Nat) : Nat :=
  if n = 0 then 0
  else
    let root := 2 * cubeRoot (n / 8)
    if cube (root + 1) ≤ n then root + 1 else root
termination_by n

theorem cubeRoot_bounds (n : Nat) : cube (cubeRoot n) ≤ n ∧ n < cube (cubeRoot n + 1) := by
  fun_induction cubeRoot n with
  | case1 => simp [cube]
  | case2 n hn root hle ih =>
    refine ⟨hle, ?_⟩
    have heq : root + 1 + 1 = 2 * (cubeRoot (n / 8) + 1) := by simp only [root]; omega
    rw [heq, cube_double]
    omega
  | case3 n hn root hgt ih =>
    refine ⟨?_, by omega⟩
    rw [show root = 2 * cubeRoot (n / 8) from rfl, cube_double]
    omega

namespace Binary

/-- A binary number that is rounded as the cube root: the bits of the root that are kept, and one
that says whether anything is left. -/
def cubeRoot (x : Binary) : Binary :=
  let shift := 3 * keptBits + (x.exponent % 3).toNat
  let scaled := x.significand * Nat.pow 2 shift
  let root := LessonPlot.cubeRoot scaled
  let more := if cube root = scaled then 0 else 1
  ⟨x.negative, 2 * root + more, (x.exponent - shift) / 3 - 1⟩

end Binary

end LessonPlot
