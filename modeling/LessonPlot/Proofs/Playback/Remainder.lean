import LessonPlot.Control
import LessonPlot.Proofs.Float.Values

open Float.Model Float.Model.UnpackedFloat

namespace LessonPlot

section Modulo

variable {n : ℕ} {a b : ℚ}

/-- What is left of a number after whole multiples of `n` are taken away, at least zero. -/
def modulo (n : ℕ) (a : ℚ) : ℚ :=
  a - n * ⌊a / n⌋

theorem modulo_nonneg (hn : 0 < n) (a : ℚ) : 0 ≤ modulo n a := by
  have hn' : (0 : ℚ) < n := by exact_mod_cast hn
  have floor := Int.floor_le (a / n)
  rw [le_div_iff₀ hn'] at floor
  unfold modulo
  linarith

theorem modulo_lt (hn : 0 < n) (a : ℚ) : modulo n a < n := by
  have hn' : (0 : ℚ) < n := by exact_mod_cast hn
  have floor := Int.lt_floor_add_one (a / n)
  rw [div_lt_iff₀ hn'] at floor
  unfold modulo
  linarith

theorem modulo_le (h : 0 ≤ a) : modulo n a ≤ a := by
  have floor : (0 : ℚ) ≤ ⌊a / n⌋ := by exact_mod_cast Int.floor_nonneg.mpr (by positivity)
  have hn : (0 : ℚ) ≤ n := by positivity
  unfold modulo
  nlinarith

theorem modulo_of_lt (low : 0 ≤ a) (high : a < n) : modulo n a = a := by
  have hn : (0 : ℚ) < n := low.trans_lt high
  have floor : ⌊a / n⌋ = 0 := by
    rw [Int.floor_eq_zero_iff]
    exact ⟨by positivity, (div_lt_one hn).mpr high⟩
  rw [modulo, floor, Int.cast_zero, mul_zero, sub_zero]

theorem modulo_zero (n : ℕ) : modulo n 0 = 0 := by
  rw [modulo, zero_div, Int.floor_zero, Int.cast_zero, mul_zero, sub_zero]

/-- The remainder is the same for numbers that whole multiples of `n` lie between. -/
theorem modulo_eq_modulo_iff (hn : 0 < n) : modulo n a = modulo n b ↔ ∃ k : ℤ, a = b + n * k := by
  have hn' : (n : ℚ) ≠ 0 := by exact_mod_cast hn.ne'
  constructor
  · intro same
    refine ⟨⌊a / n⌋ - ⌊b / n⌋, ?_⟩
    unfold modulo at same
    push_cast
    linarith
  · rintro ⟨k, rfl⟩
    have shifted : (b + n * k) / n = b / n + k := by field_simp
    rw [modulo, modulo, shifted, Int.floor_add_intCast]
    push_cast
    ring

theorem modulo_modulo_add (hn : 0 < n) (a b : ℚ) : modulo n (modulo n a + b) = modulo n (a + b) :=
  (modulo_eq_modulo_iff hn).mpr ⟨-⌊a / n⌋, by unfold modulo; push_cast; ring⟩

theorem modulo_natCast (m : ℕ) : modulo n m = (m % n : ℕ) := by
  have whole : (m : ℚ) = n * (m / n : ℕ) + (m % n : ℕ) := by exact_mod_cast (Nat.div_add_mod m n).symm
  rw [modulo, floor_quotient, Int.cast_natCast]
  linarith

/-- The remainder by a multiple, in a smaller unit. -/
theorem modulo_natCast_div (m : ℕ) {d : ℕ} (hd : 0 < d) :
    modulo n ((m : ℚ) / d) = (m % (n * d) : ℕ) / d := by
  have hd' : (0 : ℚ) < d := by exact_mod_cast hd
  have whole : (m : ℚ) = n * d * (m / (n * d) : ℕ) + (m % (n * d) : ℕ) := by
    exact_mod_cast (Nat.div_add_mod m (n * d)).symm
  have nested : (m : ℚ) / d / n = (m : ℚ) / (n * d : ℕ) := by
    push_cast
    rw [div_div, mul_comm (d : ℚ)]
  rw [modulo, nested, floor_quotient, Int.cast_natCast, eq_div_iff hd'.ne', sub_mul,
    div_mul_cancel₀ _ hd'.ne']
  linarith

end Modulo

namespace Binary

variable {y : Binary} {n : ℕ}

theorem size_of_nonneg (h : 0 ≤ y.exponent) :
    y.size = (y.significand * 2 ^ y.exponent.toNat : ℕ) := by
  have power : (2 : ℚ) ^ y.exponent = 2 ^ y.exponent.toNat := by
    rw [← zpow_natCast, Int.toNat_of_nonneg h]
  rw [size, power]
  push_cast
  ring

theorem size_of_neg (h : y.exponent < 0) :
    y.size = y.significand / (2 ^ (-y.exponent).toNat : ℕ) := by
  have power : (2 : ℚ) ^ y.exponent = (2 ^ (-y.exponent).toNat)⁻¹ := by
    rw [← zpow_natCast, Int.toNat_of_nonneg (by omega), zpow_neg, inv_inv]
  rw [size, power, div_eq_mul_inv]
  push_cast
  rfl

theorem remainder_of_nonneg (h : 0 ≤ y.exponent) : y.remainder n =
    ⟨y.negative, y.significand * 2 ^ y.exponent.toNat % n, 0⟩ :=
  if_pos h

theorem remainder_of_neg (h : y.exponent < 0) : y.remainder n =
    ⟨y.negative, y.significand % (n * 2 ^ (-y.exponent).toNat), y.exponent⟩ :=
  if_neg (not_le.mpr h)

theorem size_remainder (y : Binary) (n : ℕ) : (y.remainder n).size = modulo n y.size := by
  rcases le_or_gt 0 y.exponent with whole | fractional
  · rw [remainder_of_nonneg whole, size_of_nonneg whole, modulo_natCast, size, zpow_zero, mul_one]
  · rw [remainder_of_neg fractional, size_of_neg fractional, modulo_natCast_div _ (by positivity)]
    exact size_of_neg fractional

theorem sign_remainder (y : Binary) (n : ℕ) : (y.remainder n).sign = y.sign := by
  unfold remainder sign
  split <;> rfl

theorem number_remainder (y : Binary) (n : ℕ) :
    (y.remainder n).number = signed y.sign (modulo n y.size) := by
  rw [number_eq, sign_remainder, size_remainder]

theorem representable_signed {q : ℚ} (s : Sign) (h : Representable q) :
    Representable (signed s q) := by
  cases s with
  | negative => exact h.neg
  | positive => exact h

/-- A remainder has no more binary places than the number, or it is a whole one below `n`. -/
theorem representable_remainder (small : y.significand < 2 ^ 53) (place : -1074 ≤ y.exponent)
    (hn : 0 < n) (le : n ≤ 2 ^ 53) : Representable (y.remainder n).number := by
  rw [number_eq]
  refine representable_signed _ ?_
  rcases le_or_gt 0 y.exponent with whole | fractional
  · have below := (Nat.mod_lt (y.significand * 2 ^ y.exponent.toNat) hn).trans_le le
    rw [remainder_of_nonneg whole, size, zpow_zero, mul_one]
    exact representable_natCast below
  · have below := (Nat.mod_le y.significand (n * 2 ^ (-y.exponent).toNat)).trans_lt small
    rw [remainder_of_neg fractional]
    refine ⟨(y.significand % (n * 2 ^ (-y.exponent).toNat) : ℕ), y.exponent, ?_, place, ?_⟩
    · rw [Nat.abs_cast]
      exact_mod_cast below.le
    · rw [size, Int.cast_natCast]

end Binary

section Remainder

variable {x : Float} {q : ℚ} {n : ℕ}

theorem remainder_of_not_isFinite (h : x.isFinite = false) : remainder x n = Scalar.notANumber := by
  unfold remainder
  split
  next y hy => exact (value_ne_finite h y hy).elim
  next => rfl

/-- The remainder is exact and has the sign of the dividend. -/
theorem Denotes.remainder_signed (hx : Denotes x q) (hn : 0 < n) (le : n ≤ 2 ^ 53) :
    ∃ s : Sign, q = signed s |q| ∧ Denotes (remainder x n) (signed s (modulo n |q|)) ∧
      (0 ≤ q → Plain x → s = .positive ∧ Plain (remainder x n)) := by
  obtain ⟨y, hy, number, small, place, sign⟩ := hx.written
  have size : |q| = y.size := by
    rw [← number, Binary.number_eq, abs_signed, abs_of_nonneg y.size_nonneg]
  have computed : remainder x n = Scalar.ofBinary (y.remainder n) := by
    rw [remainder, hy]
  have bound : |(y.remainder n).number| < overflow := by
    have limit := abs_valueOf_lt hx.isFinite
    rw [hx.value] at limit
    rw [y.number_remainder, abs_signed, abs_of_nonneg (modulo_nonneg hn _), ← size]
    exact (modulo_le (abs_nonneg q)).trans_lt limit
  have exact := denotes_ofBinary (y.representable_remainder small place hn le) bound
  refine ⟨y.sign, by rw [size, ← Binary.number_eq, number], ?_, fun nonneg plain => ?_⟩
  · rw [computed, size, ← y.number_remainder]
    exact exact
  · have positive := sign nonneg plain
    refine ⟨by simp [Binary.sign, positive], computed ▸ Binary.plain_ofBinary ?_ exact⟩
    rw [← positive]
    unfold Binary.remainder
    split <;> rfl

theorem Denotes.remainder_of_nonneg (hx : Denotes x q) (hn : 0 < n) (le : n ≤ 2 ^ 53)
    (nonneg : 0 ≤ q) : Denotes (remainder x n) (modulo n q) := by
  obtain ⟨s, sign, exact, -⟩ := hx.remainder_signed hn le
  rw [abs_of_nonneg nonneg] at sign exact
  cases s with
  | positive => exact exact
  | negative =>
    have opposite : q = -q := sign
    obtain rfl : q = 0 := by linarith
    rw [modulo_zero] at exact ⊢
    simpa [signed] using exact

theorem Denotes.remainder_of_neg (hx : Denotes x q) (hn : 0 < n) (le : n ≤ 2 ^ 53)
    (neg : q < 0) : Denotes (remainder x n) (-modulo n (-q)) := by
  obtain ⟨s, sign, exact, -⟩ := hx.remainder_signed hn le
  rw [abs_of_neg neg] at sign exact
  cases s with
  | negative => exact exact
  | positive =>
    have opposite : q = -q := sign
    linarith

end Remainder

namespace Control

variable {c t : Float} {s : ℚ}

theorem isNaN_notANumber : (Scalar.notANumber : Float).isNaN = true := by decide +kernel

/-- The control after ticks is what is left of the sum, or the start if the sum is negative. -/
theorem denotes_forward (h : Denotes (c + t) s) :
    Denotes (forward c t) (modulo highest (max 0 s)) := by
  rcases le_or_gt 0 s with nonneg | neg
  · have left := h.remainder_of_nonneg (by decide : 0 < highest) (by decide) nonneg
    have low : ¬ remainder (c + t) highest < 0 := by
      rw [lt_iff left.isNaN denotes_zero.isNaN, left.value, denotes_zero.value, not_lt]
      exact modulo_nonneg (by decide) s
    rw [max_eq_right nonneg, forward, left.isNaN]
    simpa [low] using left
  · have left := h.remainder_of_neg (by decide : 0 < highest) (by decide) neg
    rw [max_eq_left neg.le, modulo_zero, forward, left.isNaN]
    by_cases below : remainder (c + t) highest < 0
    · simpa [below] using denotes_zero
    · have start : modulo highest (-s) = 0 := by
        refine le_antisymm ?_ (modulo_nonneg (by decide) _)
        rw [lt_iff left.isNaN denotes_zero.isNaN, left.value, denotes_zero.value] at below
        linarith
      rw [start, neg_zero] at left
      simpa [below] using left

/-- A sum that is no number takes the control back to the start. -/
theorem forward_of_not_isFinite (h : (c + t).isFinite = false) : forward c t = 0 := by
  rw [forward, remainder_of_not_isFinite h]
  exact if_pos (by rw [isNaN_notANumber]; rfl)

theorem plain_zero : Plain 0 := by
  have unpacked : (0 : Float).toModel.unpack = .zero .positive := by rfl
  rw [Plain, unpacked]
  nofun

/-- The control is no negative zero unless the sum is one or goes a whole round below it. -/
theorem plain_forward (h : Denotes (c + t) s) (above : -highest < s)
    (plain : s = 0 → Plain (c + t)) : Plain (forward c t) := by
  unfold forward
  dsimp only
  split
  next => exact plain_zero
  next kept =>
    rcases le_or_gt 0 s with nonneg | neg
    · have sum : Plain (c + t) := by
        rcases nonneg.eq_or_lt with zero | pos
        · exact plain zero.symm
        · exact plain_of_ne_zero (h.value.trans_ne pos.ne')
      obtain ⟨_, -, -, sign⟩ := h.remainder_signed (by decide : 0 < highest) (by decide)
      exact (sign nonneg sum).2
    · have left := h.remainder_of_neg (by decide : 0 < highest) (by decide) neg
      rw [modulo_of_lt (by linarith) (by linarith), neg_neg] at left
      have below : remainder (c + t) highest < 0 := by
        rw [lt_iff left.isNaN denotes_zero.isNaN, left.value, denotes_zero.value]
        exact neg
      exact (kept (by simp [below])).elim

end Control

end LessonPlot
