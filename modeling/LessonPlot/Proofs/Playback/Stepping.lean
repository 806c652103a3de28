import LessonPlot.Proofs.Float.Error
import LessonPlot.Proofs.Playback.Remainder
import Mathlib.Logic.Function.Iterate

namespace LessonPlot

section Grid

variable {y : ℚ}

/-- The doubles from 64 to 128, and whatever else is a whole multiple of what lies between two of
them. -/
def OnGrid (y : ℚ) : Prop :=
  ∃ j : ℤ, y = j * 2 ^ (-46 : ℤ)

theorem Representable.onGrid (h : Representable y) (large : 64 ≤ y) : OnGrid y := by
  refine h.exists_eq_mul (le_placeExponent ?_)
  rw [abs_of_nonneg (by linarith)]
  exact le_trans (by norm_num) large

theorem OnGrid.representable (h : OnGrid y) (low : 0 ≤ y) (high : y ≤ 128) : Representable y := by
  obtain ⟨j, rfl⟩ := h
  refine ⟨j, -46, ?_, by norm_num, rfl⟩
  rw [zpow_neg, ← div_eq_mul_inv] at low high
  rw [div_le_iff₀ (by positivity)] at high
  have low' : 0 ≤ j := by
    by_contra neg
    have hj : (j : ℚ) < 0 := by exact_mod_cast not_le.mp neg
    exact (div_neg_of_neg_of_pos hj (by positivity)).not_ge low
  have high' : j ≤ 128 * 2 ^ 46 := by exact_mod_cast high
  rw [abs_of_nonneg low']
  exact high'.trans (by norm_num)

theorem OnGrid.add_intCast (h : OnGrid y) (n : ℤ) : OnGrid (y + n) := by
  obtain ⟨j, rfl⟩ := h
  refine ⟨j + n * 2 ^ 46, ?_⟩
  push_cast
  rw [add_mul, mul_assoc]
  norm_num

theorem OnGrid.modulo (h : OnGrid y) (n : ℕ) : OnGrid (modulo n y) := by
  have shifted := h.add_intCast (-(n * ⌊y / n⌋))
  push_cast at shifted
  rwa [LessonPlot.modulo, sub_eq_add_neg]

end Grid

namespace Control

section Exact

variable {v w y : ℚ} {k n : ℕ}

/-- The control some ticks on as it is computed: the sum is rounded, then brought back below 100. -/
def moved (y : ℚ) (ticks : ℕ) : ℚ :=
  modulo highest (max 0 (rounded (y + ticks)))

/-- The control after single ticks, each computed on its own. -/
def stepped (y : ℚ) (ticks : ℕ) : ℚ :=
  (moved · 1)^[ticks] y

/-- No sum of the control and less than a whole round is rounded. -/
def Unrounded (v : ℚ) : Prop :=
  ∀ k : ℕ, 1 ≤ k → k < highest → rounded (v + k) = max 0 v + k

theorem moved_bounds (y : ℚ) (k : ℕ) : 0 ≤ moved y k ∧ moved y k < 100 :=
  ⟨modulo_nonneg (by decide) _, modulo_lt (by decide) _⟩

theorem moved_zero (double : Representable v) : moved v 0 = modulo highest (max 0 v) := by
  rw [moved, Nat.cast_zero, add_zero, rounded_of_representable double]

theorem stepped_succ (y : ℚ) (n : ℕ) : stepped y (n + 1) = moved (stepped y n) 1 :=
  Function.iterate_succ_apply' _ n y

theorem stepped_succ' (y : ℚ) (n : ℕ) : stepped y (n + 1) = stepped (moved y 1) n :=
  Function.iterate_succ_apply _ n y

/-- On the grid a tick is exact. -/
theorem moved_of_onGrid (grid : OnGrid y) (low : 0 ≤ y) (high : y < 100) :
    moved y 1 = modulo highest (y + 1) := by
  have next := grid.add_intCast 1
  rw [Int.cast_one] at next
  rw [moved, Nat.cast_one, rounded_of_representable (next.representable (by linarith) (by linarith)),
    max_eq_right (by linarith)]

theorem stepped_of_onGrid (grid : OnGrid w) (low : 0 ≤ w) (high : w < 100) (n : ℕ) :
    stepped w n = modulo highest (w + n) := by
  induction n with
  | zero =>
    have inside : modulo highest w = w := modulo_of_lt low high
    rw [Nat.cast_zero, add_zero, inside]
    rfl
  | succ n ih =>
    have grid' : OnGrid (modulo highest (w + n)) := (grid.add_intCast n).modulo highest
    rw [stepped_succ, ih, moved_of_onGrid grid' (modulo_nonneg (by decide) _)
      (modulo_lt (by decide) _), modulo_modulo_add (by decide)]
    push_cast
    ring_nf

/-- Off the grid each tick moves the control up by at least a half, so it does not come back to where
it was without coming onto the grid. -/
theorem onGrid_stepped_or_le (low : 0 ≤ w) (high : w < 100) (n : ℕ) :
    OnGrid (stepped w n) ∨ w + n / 2 ≤ stepped w n := by
  induction n with
  | zero => exact .inr (by simp [stepped])
  | succ n ih =>
    rw [stepped_succ]
    have bounds : 0 ≤ stepped w n ∧ stepped w n < 100 := by
      cases n with
      | zero => exact ⟨low, high⟩
      | succ n => exact stepped_succ w n ▸ moved_bounds _ 1
    generalize stepped w n = y at ih bounds
    obtain ⟨low, high⟩ := bounds
    rcases ih with grid | ahead
    · rw [moved_of_onGrid grid low high]
      refine .inl (OnGrid.modulo ?_ highest)
      exact_mod_cast grid.add_intCast 1
    · have place : placeExponent (y + 1) ≤ 0 := by
        refine placeExponent_le (by linarith) (by norm_num) ?_
        rw [abs_of_pos (by linarith)]
        norm_num
        linarith
      have near := (abs_le.mp (abs_rounded_sub_le (y + 1))).1
      have unit : (2 : ℚ) ^ placeExponent (y + 1) ≤ 1 := (two_zpow_le place).trans_eq (zpow_zero 2)
      have up : y + 1 / 2 ≤ rounded (y + 1) := by linarith
      rw [moved, Nat.cast_one, max_eq_right (by linarith)]
      rcases le_or_gt 64 (rounded (y + 1)) with large | small
      · exact .inl (((representable_rounded _).onGrid large).modulo highest)
      · have inside : modulo highest (rounded (y + 1)) = rounded (y + 1) :=
          modulo_of_lt (by linarith) (small.trans (by norm_num [highest]))
        rw [inside]
        push_cast
        exact .inr (by linarith)

/-- A control that a whole round of ticks brings back to itself is on the grid. -/
theorem onGrid_of_periodic (low : 0 ≤ w) (high : w < 100) (periodic : stepped w highest = w) :
    OnGrid w := by
  rcases onGrid_stepped_or_le low high highest with grid | ahead
  · rwa [periodic] at grid
  · have round : ((highest : ℕ) : ℚ) = 100 := by norm_num [highest]
    rw [periodic, round] at ahead
    linarith

/-- Where no sum is rounded, ticks one by one come to what they come to at once. -/
theorem Unrounded.stepped_eq (exact : Unrounded v) (n : ℕ) :
    stepped v (n + 1) = modulo highest (max 0 v + (n + 1 : ℕ)) := by
  have low : 0 ≤ max 0 v := le_max_left 0 v
  have first : moved v 1 = modulo highest (max 0 v + 1) := by
    have sum := exact 1 le_rfl (by decide)
    rw [moved, sum, Nat.cast_one, max_eq_right (by linarith)]
  have grid : OnGrid (max 0 v) := by
    have sum := exact 99 (by decide) (by decide)
    have large : OnGrid (max 0 v + 99) := by
      refine Representable.onGrid ?_ (by linarith)
      exact_mod_cast sum ▸ representable_rounded (v + (99 : ℕ))
    have back := large.add_intCast (-99)
    push_cast at back
    rwa [add_neg_cancel_right] at back
  have grid' : OnGrid (modulo highest (max 0 v + 1)) :=
    OnGrid.modulo (by exact_mod_cast grid.add_intCast 1) highest
  rw [stepped_succ', first, stepped_of_onGrid grid' (modulo_nonneg (by decide) _)
    (modulo_lt (by decide) _), modulo_modulo_add (by decide)]
  push_cast
  ring_nf

theorem Unrounded.moved_eq (exact : Unrounded v) (double : Representable v) (k : ℕ)
    (round : k < highest) : moved v k = modulo highest (max 0 v + k) := by
  have low : 0 ≤ max 0 v := le_max_left 0 v
  rcases Nat.eq_zero_or_pos k with rfl | pos
  · rw [moved_zero double, Nat.cast_zero, add_zero]
  · rw [moved, exact k pos round, max_eq_right (by positivity)]

/-- All ticks of a round move the control by as much as they count, up to whole rounds. -/
def InStep (v : ℚ) : Prop :=
  ∀ k : ℕ, 1 ≤ k → k < highest → moved v k = modulo highest (max 0 v + k)

/-- If ticks one by one come to what they come to at once, a whole round leads to a control from which
rounds are periodic, so to one on the grid. -/
theorem inStep_of_agree (double : Representable v)
    (agree : ∀ n, 1 ≤ n → stepped v n = moved v (n % highest)) : InStep v := by
  intro k pos round
  have around : stepped v highest = modulo highest (max 0 v) := by
    rw [← moved_zero double]
    exact agree highest (by decide)
  have low := modulo_nonneg (by decide : 0 < highest) (max 0 v)
  have high : modulo highest (max 0 v) < 100 := modulo_lt (by decide) _
  generalize hw : modulo highest (max 0 v) = w at around low high
  have first : moved w 1 = moved v 1 :=
    calc moved w 1 = stepped v (highest + 1) := by rw [stepped_succ, around]
      _ = moved v 1 := agree (highest + 1) (by decide)
  have same (n : ℕ) : stepped w (n + 1) = stepped v (n + 1) := by
    rw [stepped_succ', stepped_succ', first]
  have grid : OnGrid w := onGrid_of_periodic low high ((same 99).trans around)
  obtain ⟨j, rfl⟩ := Nat.exists_eq_add_of_le' pos
  calc moved v (j + 1)
      = stepped v (j + 1) := by rw [agree (j + 1) pos, Nat.mod_eq_of_lt round]
    _ = modulo highest (w + (j + 1 : ℕ)) := by rw [← same, stepped_of_onGrid grid low high]
    _ = modulo highest (max 0 v + (j + 1 : ℕ)) := by rw [← hw, modulo_modulo_add (by decide)]

theorem modulo_natCast_of_lt (h : k < highest) : modulo highest (k : ℚ) = k := by
  rw [modulo_natCast, Nat.mod_eq_of_lt h]

/-- A control below zero that is in step is so small that its sums are those of zero. -/
theorem InStep.rounded_of_neg (agree : InStep v) (neg : v < 0) (pos : 1 ≤ k)
    (round : k < highest) : rounded (v + k) = max 0 v + k := by
  have above : -1 < v := by
    by_contra below
    have none : rounded (v + (1 : ℕ)) ≤ 0 :=
      rounded_le (representable_natCast (n := 0) (by decide)) (by push_cast; linarith)
    have one := agree 1 le_rfl (by decide)
    rw [moved, max_eq_left none, max_eq_left neg.le, zero_add, modulo_zero,
      modulo_natCast_of_lt (by decide)] at one
    norm_num at one
  have pos' : (1 : ℚ) ≤ k := by exact_mod_cast pos
  have round' : (k : ℚ) < highest := by exact_mod_cast round
  have low : 0 ≤ rounded (v + k) := rounded_nonneg (by linarith)
  have high : rounded (v + k) ≤ k :=
    rounded_le (representable_natCast (round.trans (by decide))) (by linarith)
  have sum := agree k pos round
  rw [moved, max_eq_left neg.le, zero_add, modulo_natCast_of_lt round, max_eq_right low,
    modulo_of_lt low (high.trans_lt round')] at sum
  rw [sum, max_eq_left neg.le, zero_add]

theorem InStep.exists_rounds (agree : InStep v) (nonneg : 0 ≤ v) (pos : 1 ≤ k)
    (round : k < highest) : ∃ j : ℤ, rounded (v + k) = v + k + 100 * j := by
  have low : 0 ≤ rounded (v + k) := rounded_nonneg (by positivity)
  have sum := agree k pos round
  rw [moved, max_eq_right low, max_eq_right nonneg] at sum
  exact (modulo_eq_modulo_iff (by decide)).mp sum

/-- Doubles from 2^54 on are even, and an odd number of ticks leads to no even one in whole rounds. -/
theorem InStep.lt_of_nonneg (agree : InStep v) (double : Representable v) (nonneg : 0 ≤ v) :
    v < 2 ^ 54 := by
  by_contra large
  have even {x : ℚ} (hx : Representable x) (h : (2 : ℚ) ^ 54 ≤ x) : ∃ i : ℤ, x = i * 2 := by
    refine hx.exists_eq_mul (e := 1) (le_placeExponent ?_)
    rw [abs_of_nonneg (le_trans (by norm_num) h)]
    exact le_trans (by norm_num) h
  obtain ⟨i, hi⟩ := even double (not_lt.mp large)
  obtain ⟨j, hj⟩ := agree.exists_rounds nonneg le_rfl (by decide)
  obtain ⟨i', hi'⟩ := even (representable_rounded (v + (1 : ℕ)))
    (le_rounded ⟨2 ^ 52, 2, by norm_num, by norm_num, by norm_num⟩ (by push_cast; linarith))
  rw [hj, hi] at hi'
  have parity : i * 2 + 1 + 100 * j = i' * 2 := by exact_mod_cast hi'
  omega

/-- The sums of a control in step are less than a round off, so they are not off at all. -/
theorem InStep.rounded_of_nonneg (agree : InStep v) (double : Representable v) (nonneg : 0 ≤ v)
    (pos : 1 ≤ k) (round : k < highest) : rounded (v + k) = max 0 v + k := by
  have small := agree.lt_of_nonneg double nonneg
  obtain ⟨j, hj⟩ := agree.exists_rounds nonneg pos round
  have pos' : (1 : ℚ) ≤ k := by exact_mod_cast pos
  have round' : (k : ℚ) < 100 := by exact_mod_cast round
  have place : placeExponent (v + k) ≤ 2 := by
    refine placeExponent_le (by linarith) (by norm_num) ?_
    rw [abs_of_nonneg (by linarith)]
    norm_num at small ⊢
    linarith
  have near := abs_le.mp (abs_rounded_sub_le (v + k))
  have unit : (2 : ℚ) ^ placeExponent (v + k) ≤ 4 := (two_zpow_le place).trans_eq (by norm_num)
  rw [hj] at near
  have none : j = 0 := by
    have below : (j : ℚ) < 1 := by linarith [near.2]
    have above : (-1 : ℚ) < j := by linarith [near.1]
    have below' : j < 1 := by exact_mod_cast below
    have above' : -1 < j := by exact_mod_cast above
    omega
  rw [hj, none, max_eq_right nonneg, Int.cast_zero, mul_zero, add_zero]

/-- Ticks one by one agree with ticks at once exactly where no sum is rounded. -/
theorem stepped_eq_moved_iff (double : Representable v) :
    (∀ n, 1 ≤ n → stepped v n = moved v (n % highest)) ↔ Unrounded v := by
  constructor
  · intro agree k pos round
    have inStep := inStep_of_agree double agree
    rcases lt_or_ge v 0 with neg | nonneg
    · exact inStep.rounded_of_neg neg pos round
    · exact inStep.rounded_of_nonneg double nonneg pos round
  · intro exact n pos
    obtain ⟨m, rfl⟩ := Nat.exists_eq_add_of_le' pos
    rw [exact.stepped_eq, exact.moved_eq double _ (Nat.mod_lt _ (by decide))]
    refine (modulo_eq_modulo_iff (by decide)).mpr ⟨((m + 1) / highest : ℕ), ?_⟩
    have whole : ((m + 1 : ℕ) : ℚ) =
        highest * ((m + 1) / highest : ℕ) + ((m + 1) % highest : ℕ) := by
      exact_mod_cast (Nat.div_add_mod (m + 1) highest).symm
    rw [whole, Int.cast_natCast]
    ring

end Exact

end Control

end LessonPlot
