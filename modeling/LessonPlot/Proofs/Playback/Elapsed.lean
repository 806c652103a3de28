import LessonPlot.Proofs.Playback.Stepping

namespace LessonPlot

namespace Control

variable {control : Float} {v : ℚ} {k n : ℕ}

/-- The sums of a control and less than a whole round of ticks are all exact, those of a control below
zero as if it were zero. -/
def Steady (control : Float) : Prop :=
  ∀ ticks : ℕ, 1 ≤ ticks → ticks < highest →
    Denotes (control + Float.ofNat ticks) (max 0 (valueOf control) + ticks)

/-- The control after some ticks at once. -/
def leap (control : Float) (ticks : ℕ) : Float :=
  if ticks = 0 then control else forward control (Float.ofNat (ticks % highest))

theorem advanceBy_eq_leap (control : Float) (nanoseconds : ℕ) :
    advanceBy control nanoseconds = leap control (nanoseconds / tickNanoseconds) :=
  rfl

theorem denotes_moved (hc : Denotes control v) (round : k < highest) :
    Denotes (forward control (Float.ofNat k)) (moved v k) :=
  denotes_forward (hc.add_natCast (round.trans (by decide)))

theorem denotes_stepped (hc : Denotes control v) (n : ℕ) :
    Denotes (advance^[n] control) (stepped v n) := by
  induction n with
  | zero => exact hc
  | succ n ih =>
    rw [Function.iterate_succ_apply', stepped_succ]
    exact denotes_moved ih (by decide)

theorem denotes_leap (hc : Denotes control v) (pos : 1 ≤ n) :
    Denotes (leap control n) (moved v (n % highest)) := by
  rw [leap, if_neg (by omega)]
  exact denotes_moved hc (Nat.mod_lt n (by decide))

theorem Steady.isFinite (steady : Steady control) : control.isFinite = true := by
  by_contra infinite
  have sum := (steady 1 le_rfl (by decide)).isFinite
  rw [isFinite_add_of_left (Bool.not_eq_true _ ▸ infinite)] at sum
  cases sum

theorem steady_iff (hc : Denotes control v) : Steady control ↔ Unrounded v := by
  unfold Steady
  rw [hc.value]
  refine forall_congr' fun k => forall_congr' fun pos => forall_congr' fun round => ?_
  have sum := hc.add_natCast (round.trans (by decide : highest < 2 ^ 53))
  constructor
  · intro exact
    exact sum.value.symm.trans exact.value
  · intro exact
    rwa [exact] at sum

/-- What is no number is taken back to the start at once, and does not move on from there. -/
theorem leap_two_ne (infinite : control.isFinite = false) :
    leap control 2 ≠ advance^[2] control := by
  intro same
  have start : ∀ t, forward control t = 0 := fun t =>
    forward_of_not_isFinite (isFinite_add_of_left infinite)
  have one := denotes_moved denotes_zero (by decide : 1 < highest)
  have once : advance^[2] control = forward 0 (Float.ofNat 1) := by
    change forward (forward control 1) 1 = _
    rw [start]
    rfl
  have twice : leap control 2 = 0 := start _
  rw [twice, once] at same
  rw [← same] at one
  have zero : (0 : ℚ) = moved 0 1 := denotes_zero.value.symm.trans one.value
  rw [moved_of_onGrid ⟨0, by simp⟩ le_rfl (by norm_num), zero_add,
    modulo_of_lt zero_le_one (by norm_num [highest])] at zero
  exact zero_ne_one zero

theorem Unrounded.neg_one_lt (exact : Unrounded v) : -1 < v := by
  by_contra below
  have one := exact 1 le_rfl (by decide)
  have none : rounded (v + (1 : ℕ)) ≤ 0 :=
    rounded_le (representable_natCast (n := 0) (by decide)) (by push_cast; linarith)
  have low : 0 ≤ max 0 v := le_max_left 0 v
  rw [one, Nat.cast_one] at none
  linarith

theorem plain_advance (hc : Denotes control v) (pos : 0 < rounded (v + (1 : ℕ))) :
    Plain (advance control) := by
  have sum := hc.add_natCast (k := 1) (by decide)
  have round : (0 : ℚ) ≤ highest := Nat.cast_nonneg highest
  exact plain_forward sum (by linarith) fun zero => (pos.ne' zero).elim

/-- A single tick never leads to the negative zero where no sum is rounded. -/
theorem Unrounded.plain_stepped (exact : Unrounded v) (hc : Denotes control v) (n : ℕ) :
    Plain (advance^[n + 1] control) := by
  rw [Function.iterate_succ_apply']
  refine plain_advance (denotes_stepped hc n) ?_
  cases n with
  | zero =>
    have low : 0 ≤ max 0 v := le_max_left 0 v
    have one := exact 1 le_rfl (by decide)
    rw [Nat.cast_one] at one
    rw [stepped, Function.iterate_zero_apply, Nat.cast_one, one]
    linarith
  | succ n =>
    rw [stepped_succ]
    have low := (moved_bounds (stepped v n) 1).1
    have one : (1 : ℚ) ≤ rounded (moved (stepped v n) 1 + (1 : ℕ)) :=
      le_rounded ⟨1, 0, by norm_num, by norm_num, by norm_num⟩ (by push_cast; linarith)
    linarith

theorem Unrounded.plain_leap (exact : Unrounded v) (hc : Denotes control v) (pos : 1 ≤ n) :
    Plain (leap control n) := by
  have above := exact.neg_one_lt
  have low : 0 ≤ max 0 v := le_max_left 0 v
  have bound := Nat.mod_lt n (by decide : 0 < highest)
  have sum := hc.add_natCast (bound.trans (by decide : highest < 2 ^ 53))
  rw [leap, if_neg (by omega)]
  generalize n % highest = k at bound sum
  rcases Nat.eq_zero_or_pos k with rfl | some
  · rw [Nat.cast_zero, add_zero, rounded_of_representable hc.representable] at sum
    refine plain_forward sum ?_ fun _ => plain_add_zero control
    exact lt_trans (by norm_num [highest]) above
  · have ticks : (1 : ℚ) ≤ k := by exact_mod_cast some
    have round : (0 : ℚ) ≤ highest := Nat.cast_nonneg highest
    rw [exact k some bound] at sum
    exact plain_forward sum (by linarith) fun zero => by linarith

/-- Ticks at once come to what single ticks come to exactly from steady controls. -/
theorem leap_eq_iterate_iff : (∀ n, leap control n = advance^[n] control) ↔ Steady control := by
  constructor
  · intro agree
    have finite : control.isFinite = true := by
      by_contra infinite
      exact leap_two_ne (Bool.not_eq_true _ ▸ infinite) (agree 2)
    have hc : Denotes control (valueOf control) := ⟨finite, rfl⟩
    rw [steady_iff hc, ← stepped_eq_moved_iff hc.representable]
    intro n pos
    have leapt := denotes_leap hc pos
    rw [agree n] at leapt
    exact (denotes_stepped hc n).value.symm.trans leapt.value
  · intro steady n
    have hc : Denotes control (valueOf control) := ⟨steady.isFinite, rfl⟩
    have exact := (steady_iff hc).mp steady
    rcases n with _ | n
    · rfl
    have leapt := denotes_leap hc (Nat.succ_pos n)
    rw [← (stepped_eq_moved_iff hc.representable).mpr exact (n + 1) (Nat.succ_pos n)] at leapt
    exact leapt.eq (denotes_stepped hc (n + 1)) (exact.plain_leap hc (Nat.succ_pos n))
      (exact.plain_stepped hc n)

/-- Ticks can be split in two at will exactly from controls that stay steady at every tick. -/
theorem leap_leap_eq_iff :
    (∀ m n, leap (leap control m) n = leap control (m + n)) ↔ ∀ n, Steady (advance^[n] control) := by
  constructor
  · intro split
    have single (n : ℕ) : leap control n = advance^[n] control := by
      induction n with
      | zero => rfl
      | succ n ih =>
        rw [← split n 1, ih, Function.iterate_succ_apply']
        rfl
    intro m
    rw [← leap_eq_iterate_iff]
    intro n
    rw [← single m, split, single (m + n), Nat.add_comm, Function.iterate_add_apply, ← single m]
  · intro steady m n
    have single := leap_eq_iterate_iff.mpr (steady 0)
    have onward := leap_eq_iterate_iff.mpr (steady m) n
    rw [Function.iterate_zero_apply] at single
    rw [single, single, onward, ← Function.iterate_add_apply, Nat.add_comm]

theorem unrounded_natCast {m : ℕ} (small : m + 99 < 2 ^ 53) : Unrounded m := by
  intro k _ round
  have below : k < 100 := round
  have sum := rounded_of_representable (representable_natCast (show m + k < 2 ^ 53 by omega))
  rw [Nat.cast_add] at sum
  rw [sum, max_eq_right (Nat.cast_nonneg m)]

/-- Whole controls stay whole, so they stay steady. -/
theorem steady_iterate_ofNat {m : ℕ} (small : m + 99 < 2 ^ 53) (n : ℕ) :
    Steady (advance^[n] (Float.ofNat m)) := by
  have whole := unrounded_natCast small
  have hc : Denotes (Float.ofNat m) m := denotes_ofNat (by omega)
  rw [steady_iff (denotes_stepped hc n)]
  cases n with
  | zero => exact whole
  | succ n =>
    have below := Nat.mod_lt (m + (n + 1)) (by decide : 0 < highest)
    have hundred : highest = 100 := rfl
    rw [whole.stepped_eq, max_eq_right (Nat.cast_nonneg m), ← Nat.cast_add, modulo_natCast]
    exact unrounded_natCast (by omega)

/-- Advancing by elapsed time is advancing tick by tick exactly for steady controls, and the time can
be split at whole ticks exactly where every single tick leads to a steady control again. Whole controls
are such, up to where doubles are no longer all whole numbers. -/
theorem advanceBy_eq_iterate_iff (control : Float) :
    ((∀ nanoseconds, advanceBy control nanoseconds =
        advance^[nanoseconds / tickNanoseconds] control) ↔ Steady control) ∧
    ((∀ m n, advanceBy (advanceBy control (m * tickNanoseconds)) (n * tickNanoseconds) =
        advanceBy control ((m + n) * tickNanoseconds)) ↔ ∀ n, Steady (advance^[n] control)) ∧
    ∀ whole : ℕ, control = Float.ofNat whole → whole + 99 < 2 ^ 53 →
      ∀ n, Steady (advance^[n] control) := by
  have ticks (n : ℕ) : n * tickNanoseconds / tickNanoseconds = n :=
    Nat.mul_div_cancel n (by decide)
  refine ⟨?_, ?_, ?_⟩
  · rw [← leap_eq_iterate_iff]
    constructor
    · intro agree n
      have elapsed := agree (n * tickNanoseconds)
      rwa [advanceBy_eq_leap, ticks] at elapsed
    · intro agree nanoseconds
      exact agree (nanoseconds / tickNanoseconds)
  · rw [← leap_leap_eq_iff]
    simp only [advanceBy_eq_leap, ticks]
  · rintro whole rfl small n
    exact steady_iterate_ofNat small n

/-- What is no number is 0 after two ticks at once, and 1 after a tick that makes it 0 and another. -/
theorem exists_advanceBy_ne_iterate :
    advanceBy (0 / 0) 100000000 ≠ advance^[100000000 / tickNanoseconds] (0 / 0) :=
  leap_two_ne (by decide +kernel)

end Control

end LessonPlot
