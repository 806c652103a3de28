import LessonPlot.Decimal.Notation
import LessonPlot.Decimal.Numeral
import LessonPlot.Proofs.Json.Tokens
import Mathlib.Algebra.Order.Field.Power
import Mathlib.Data.List.TakeWhile
import Mathlib.Data.Nat.Digits.Defs
import Mathlib.Data.Rat.Defs
import Mathlib.Tactic.FieldSimp
import Mathlib.Tactic.Linarith
import Mathlib.Tactic.Positivity

open LessonPlot.Json

namespace LessonPlot

namespace Numeral

theorem ofDigits_append (digits more : List Char) : ofDigits (digits ++ more) =
    more.foldl (fun n c => 10 * n + digitValue c) (ofDigits digits) :=
  List.foldl_append

theorem ofDigits_append_zeros (digits : List Char) (k : ℕ) :
    ofDigits (digits ++ List.replicate k '0') = ofDigits digits * 10 ^ k := by
  induction k with
  | zero => simp
  | succ k ih =>
    have last : digitValue '0' = 0 := rfl
    rw [List.replicate_succ', ← List.append_assoc, ofDigits_append, ih]
    simp only [List.foldl_cons, List.foldl_nil, last]
    ring

theorem ofDigits_zeros_append (digits : List Char) (k : ℕ) :
    ofDigits (List.replicate k '0' ++ digits) = ofDigits digits := by
  have zeros : ofDigits ([] ++ List.replicate k '0') = 0 := by
    rw [ofDigits_append_zeros]
    exact Nat.zero_mul _
  rw [ofDigits_append, ← List.nil_append (List.replicate k '0'), zeros]
  rfl

end Numeral

theorem digitCount_pos (n : ℕ) : 0 < digitCount n :=
  List.length_pos_of_ne_nil Nat.toDigits_ne_nil

theorem digitCount_le_iff {n k : ℕ} (hk : 0 < k) : digitCount n ≤ k ↔ n < 10 ^ k :=
  Nat.length_toDigits_le_iff (by decide) hk

theorem lt_pow_digitCount (n : ℕ) : n < 10 ^ digitCount n :=
  (digitCount_le_iff (digitCount_pos n)).mp le_rfl

theorem pow_digitCount_le {n : ℕ} (hn : n ≠ 0) : 10 ^ (digitCount n - 1) ≤ n := by
  rcases Nat.eq_zero_or_pos (digitCount n - 1) with none | some
  · rw [none]
    exact Nat.one_le_iff_ne_zero.mpr hn
  · by_contra less
    have short := (digitCount_le_iff some).mpr (not_le.mp less)
    omega

theorem ten_zpow_pos (e : ℤ) : (0 : ℚ) < 10 ^ e :=
  zpow_pos (by norm_num) e

theorem pow_toNat_div {a : ℚ} (ha : a ≠ 0) (e : ℤ) : a ^ e.toNat / a ^ (-e).toNat = a ^ e := by
  rw [← zpow_natCast, ← zpow_natCast, ← zpow_sub₀ ha]
  congr 1
  omega

namespace Decimal

/-- The number that a coefficient and an exponent of ten write. -/
def number (d : Decimal) : ℚ :=
  d.coefficient * 10 ^ d.exponent

theorem number_nonneg (d : Decimal) : 0 ≤ d.number :=
  mul_nonneg (Nat.cast_nonneg _) (ten_zpow_pos _).le

theorem number_lt (d : Decimal) : d.number < 10 ^ (d.exponent + digitCount d.coefficient) := by
  have hp := ten_zpow_pos d.exponent
  have less : (d.coefficient : ℚ) < 10 ^ digitCount d.coefficient := by
    exact_mod_cast lt_pow_digitCount d.coefficient
  rw [zpow_add₀ (by norm_num), zpow_natCast, mul_comm]
  exact mul_lt_mul_of_pos_right less hp

theorem le_number {d : Decimal} (nonzero : d.coefficient ≠ 0) :
    10 ^ (d.exponent + digitCount d.coefficient - 1) ≤ d.number := by
  have hp := ten_zpow_pos d.exponent
  have least : (10 : ℚ) ^ (digitCount d.coefficient - 1) ≤ d.coefficient := by
    exact_mod_cast pow_digitCount_le nonzero
  have count := digitCount_pos d.coefficient
  have place : d.exponent + digitCount d.coefficient - 1 =
      (digitCount d.coefficient - 1 : ℕ) + d.exponent := by omega
  rw [place, zpow_add₀ (by norm_num), zpow_natCast, number]
  gcongr

theorem number_eq_quotient (d : Decimal) :
    ((d.coefficient * 10 ^ d.exponent.toNat : ℕ) : ℚ) / (10 ^ (-d.exponent).toNat : ℕ) =
      d.number := by
  push_cast
  rw [mul_div_assoc, pow_toNat_div (by norm_num), number]

theorem number_eq_zero_iff {d : Decimal} : d.number = 0 ↔ d.coefficient = 0 := by
  rw [number, mul_eq_zero, or_iff_left (ten_zpow_pos d.exponent).ne', Nat.cast_eq_zero]

theorem append_zeros (digits : List Char) :
    digits = (digits.reverse.dropWhile (· = '0')).reverse ++
      List.replicate (digits.reverse.takeWhile (· = '0')).length '0' := by
  have zeros : digits.reverse.takeWhile (· = '0') =
      List.replicate (digits.reverse.takeWhile (· = '0')).length '0' :=
    List.eq_replicate_of_mem fun c hc => by simpa using List.mem_takeWhile_imp hc
  rw [← List.reverse_replicate, ← zeros, ← List.reverse_append, List.takeWhile_append_dropWhile,
    List.reverse_reverse]

/-- Zeros at the end of a coefficient are counted in the exponent. -/
theorem trimmed_number (d : Decimal) : d.trimmed.number = d.number := by
  unfold trimmed
  dsimp only
  split
  next zero => rw [number, number, zero, Nat.cast_zero, zero_mul, zero_mul]
  next =>
    have parts := append_zeros (Nat.toDigits 10 d.coefficient)
    generalize ((Nat.toDigits 10 d.coefficient).reverse.takeWhile (· = '0')).length = k at parts
    have value := congrArg Numeral.ofDigits parts
    rw [JsonNumber.ofDigits_toDigits, Numeral.ofDigits_append_zeros] at value
    generalize Numeral.ofDigits _ = n at value
    rw [number, number, value, Nat.pow_eq, Nat.mul_div_cancel _ (by positivity),
      zpow_add₀ (by norm_num), zpow_natCast]
    push_cast
    ring

theorem trimmed_coefficient_le (d : Decimal) : d.trimmed.coefficient ≤ d.coefficient := by
  unfold trimmed
  dsimp only
  split
  · exact Nat.zero_le _
  · exact Nat.div_le_self _ _

theorem trimmed_exponent {d : Decimal} (nonzero : d.coefficient ≠ 0) :
    d.exponent ≤ d.trimmed.exponent ∧
      d.trimmed.exponent ≤ d.exponent + digitCount d.coefficient := by
  have most : ((Nat.toDigits 10 d.coefficient).reverse.takeWhile (· = '0')).length ≤
      digitCount d.coefficient := by
    have part := List.takeWhile_prefix (· = '0') (l := (Nat.toDigits 10 d.coefficient).reverse)
    have length := part.length_le
    rwa [List.length_reverse] at length
  unfold trimmed
  rw [if_neg nonzero]
  dsimp only
  omega

/-- What the digits on both sides of a point write. -/
def ofPositional (parts : List Char × List Char) : Decimal :=
  ⟨Numeral.ofDigits (parts.1 ++ parts.2), -parts.2.length⟩

theorem number_ofPositional (d : Decimal) : (ofPositional d.positional).number = d.number := by
  have written : Numeral.ofDigits d.digits = d.coefficient :=
    JsonNumber.ofDigits_toDigits d.coefficient
  unfold ofPositional positional
  split
  next whole =>
    have power : (10 : ℚ) ^ d.exponent = 10 ^ d.exponent.toNat := by
      rw [← zpow_natCast, Int.toNat_of_nonneg whole]
    split
    next zero => simp [number, zero, Numeral.ofDigits, Numeral.digitValue]
    next =>
      rw [List.append_nil, Numeral.ofDigits_append_zeros, written, number, number, power]
      simp
  next fractional =>
    dsimp only
    generalize hk : (-d.exponent).toNat = k
    have least : k ≤ (padZeros (k + 1) d.digits).length := by
      simp only [padZeros, List.length_append, List.length_replicate]
      omega
    have places : -(((padZeros (k + 1) d.digits).drop
        ((padZeros (k + 1) d.digits).length - k)).length : ℤ) = d.exponent := by
      rw [List.length_drop]
      omega
    rw [List.take_append_drop, places, padZeros, Numeral.ofDigits_zeros_append, written]

/-- Without an exponent a number takes its digits and as many zeros as the exponent says. -/
theorem positional_length (d : Decimal) : d.positional.1.length + d.positional.2.length ≤
    digitCount d.coefficient + d.exponent.natAbs + 1 := by
  have digits : d.digits.length = digitCount d.coefficient := rfl
  unfold positional
  split
  next whole =>
    split
    next zero => simp
    next =>
      simp only [List.length_append, List.length_replicate, List.length_nil, digits]
      omega
  next fractional =>
    simp only [List.length_take, List.length_drop, padZeros, List.length_append,
      List.length_replicate, digits]
    omega

end Decimal

end LessonPlot
