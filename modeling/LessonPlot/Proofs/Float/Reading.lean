import LessonPlot.Proofs.Decimal.Notation
import LessonPlot.Proofs.Float.Values

namespace LessonPlot

/-- Two numbers compare alike with every whole number. -/
structure SameCell (v w : ℚ) : Prop where
  le_iff (k : ℤ) : k ≤ v ↔ k ≤ w
  ge_iff (k : ℤ) : v ≤ k ↔ w ≤ k

namespace SameCell

variable {v w : ℚ}

theorem of_between {n : ℤ} (hv : n < v ∧ v < n + 1) (hw : n < w ∧ w < n + 1) : SameCell v w := by
  have lower {u : ℚ} (h : n < u ∧ u < n + 1) (k : ℤ) : k ≤ u ↔ k ≤ n := by
    constructor
    · intro le
      have lt : (k : ℚ) < n + 1 := le.trans_lt h.2
      exact Int.lt_add_one_iff.mp (by exact_mod_cast lt)
    · intro le
      have le' : (k : ℚ) ≤ n := by exact_mod_cast le
      exact le'.trans h.1.le
  have upper {u : ℚ} (h : n < u ∧ u < n + 1) (k : ℤ) : u ≤ k ↔ n < k := by
    constructor
    · intro le
      have lt : (n : ℚ) < k := h.1.trans_le le
      exact_mod_cast lt
    · intro lt
      have le : (n + 1 : ℚ) ≤ k := by exact_mod_cast lt
      exact h.2.le.trans le
  exact ⟨fun k => (lower hv k).trans (lower hw k).symm,
    fun k => (upper hv k).trans (upper hw k).symm⟩

theorem lt_iff (same : SameCell v w) (k : ℤ) : k < v ↔ k < w := by
  rw [← not_le, ← not_le, same.ge_iff]

theorem gt_iff (same : SameCell v w) (k : ℤ) : v < k ↔ w < k := by
  rw [← not_le, ← not_le, same.le_iff]

theorem div (same : SameCell v w) {n : ℕ} (hn : 0 < n) : SameCell (v / n) (w / n) := by
  have hn' : (0 : ℚ) < n := by exact_mod_cast hn
  constructor
  · intro k
    have h := same.le_iff (k * n)
    push_cast at h
    rwa [le_div_iff₀ hn', le_div_iff₀ hn']
  · intro k
    have h := same.ge_iff (k * n)
    push_cast at h
    rwa [div_le_iff₀ hn', div_le_iff₀ hn']

theorem floor_eq (same : SameCell v w) : ⌊v⌋ = ⌊w⌋ := by
  refine le_antisymm (Int.le_floor.mpr ?_) (Int.le_floor.mpr ?_)
  · exact (same.le_iff _).mp (Int.floor_le v)
  · exact (same.le_iff _).mpr (Int.floor_le w)

/-- The nearest whole number is decided by how twice the number compares with whole numbers. -/
theorem nearestEven_eq (same : SameCell (2 * v) (2 * w)) : nearestEven v = nearestEven w := by
  have halves : SameCell v w := by
    have h := same.div two_pos
    simpa using h
  have floor := halves.floor_eq
  have below := same.gt_iff (2 * ⌊v⌋ + 1)
  have above := same.lt_iff (2 * ⌊v⌋ + 1)
  push_cast at below above
  have hv (x : ℚ) : Int.fract x < 1 / 2 ↔ 2 * x < 2 * ⌊x⌋ + 1 := by
    unfold Int.fract
    constructor <;> intro h <;> linarith
  have hw (x : ℚ) : 1 / 2 < Int.fract x ↔ 2 * ⌊x⌋ + 1 < 2 * x := by
    unfold Int.fract
    constructor <;> intro h <;> linarith
  simp only [nearestEven, hv, hw, below, above, ← floor]

/-- Numbers that compare alike with all multiples of a unit below half their last place are rounded
alike. -/
theorem rounded_eq (same : SameCell v w) (hv : 0 < v) (hw : 0 < w) {e : ℤ}
    (large : 1 ≤ v ∨ e ≤ -1022) (place : e < placeExponent (v * 2 ^ e)) :
    rounded (v * 2 ^ e) = rounded (w * 2 ^ e) := by
  have located : ⌊v⌋ = ⌊v⌋.toNat := (Int.toNat_of_nonneg (Int.floor_nonneg.mpr hv.le)).symm
  have large' : ⌊v⌋.toNat ≠ 0 ∨ e ≤ -1022 := by
    refine large.imp_left fun one => ?_
    have one' : 1 ≤ ⌊v⌋ := Int.le_floor.mpr (by exact_mod_cast one)
    omega
  have places : placeExponent (v * 2 ^ e) = placeExponent (w * 2 ^ e) :=
    (targetExponent_eq_placeExponent hv located large').symm.trans
      (targetExponent_eq_placeExponent hw (same.floor_eq ▸ located) large')
  obtain ⟨k, hk⟩ := Int.le.dest (Int.add_one_le_of_lt place)
  have scaled (u : ℚ) : 2 * (u * 2 ^ e / 2 ^ placeExponent (v * 2 ^ e)) = u / (2 ^ k : ℕ) := by
    have he := two_zpow_pos e
    rw [← hk, two_zpow_add, two_zpow_add, zpow_one, zpow_natCast]
    push_cast
    field_simp
  have cell : SameCell (2 * (v * 2 ^ e / 2 ^ placeExponent (v * 2 ^ e)))
      (2 * (w * 2 ^ e / 2 ^ placeExponent (v * 2 ^ e))) := by
    rw [scaled, scaled]
    exact same.div (by positivity)
  rw [rounded, rounded, significand, significand, ← places, cell.nearestEven_eq]

end SameCell

/-- One bit more says whether a quotient is whole. -/
theorem sameCell_quotient (a : ℕ) {b : ℕ} (hb : 0 < b) :
    SameCell ((a : ℚ) / b) ((2 * (a / b) + if a % b = 0 then 0 else 1 : ℕ) / 2) := by
  have hb' : (0 : ℚ) < b := by exact_mod_cast hb
  have parts : (a : ℚ) = b * (a / b : ℕ) + (a % b : ℕ) := by
    exact_mod_cast (Nat.div_add_mod a b).symm
  have less : ((a % b : ℕ) : ℚ) < b := by exact_mod_cast Nat.mod_lt a hb
  generalize a / b = n at parts
  generalize a % b = r at parts less
  split
  next whole =>
    rw [whole, Nat.cast_zero, add_zero] at parts
    have same : (a : ℚ) / b = (2 * n + 0 : ℕ) / 2 := by
      rw [parts]
      push_cast
      field_simp
      simp
    rw [same]
    exact ⟨fun _ => .rfl, fun _ => .rfl⟩
  next rest =>
    have pos : (0 : ℚ) < r := by exact_mod_cast Nat.pos_of_ne_zero rest
    refine .of_between (n := n) ⟨?_, ?_⟩ ⟨?_, ?_⟩
    · rw [lt_div_iff₀ hb']
      push_cast
      linarith
    · rw [div_lt_iff₀ hb']
      push_cast
      linarith
    · push_cast
      linarith
    · push_cast
      linarith

namespace Binary

theorem narrowed_negative (y : Binary) : y.narrowed.negative = y.negative := by
  unfold narrowed
  dsimp only
  split <;> rfl

theorem half_mul_two_zpow (s : ℚ) (e : ℤ) : s / 2 * 2 ^ e = s * 2 ^ (e - 1) := by
  rw [zpow_sub₀ two_ne_zero, zpow_one]
  ring

/-- A quotient that ends with the deciding places is rounded as the whole quotient. -/
theorem rounded_ofQuotient {a b : ℕ} (ha : 0 < a) (hb : 0 < b) :
    rounded (ofQuotient a b).size = rounded (a / b) := by
  have hb' : (0 : ℚ) < b := by exact_mod_cast hb
  have ha' : (0 : ℚ) < a := by exact_mod_cast ha
  have deep : 1075 ≤ decidingPlaces := le_rfl
  unfold ofQuotient
  generalize decidingPlaces = k at deep
  have cell := sameCell_quotient (a * 2 ^ k) hb
  have hv : (0 : ℚ) < (a * 2 ^ k : ℕ) / b := by positivity
  have hw := (cell.lt_iff 0).mp (by exact_mod_cast hv)
  rw [Int.cast_zero] at hw
  have whole : ((a * 2 ^ k : ℕ) / b : ℚ) * 2 ^ (-(k : ℤ)) = a / b := by
    rw [zpow_neg, zpow_natCast]
    push_cast
    field_simp
  have cut := half_mul_two_zpow
    (2 * (a * 2 ^ k / b) + if a * 2 ^ k % b = 0 then 0 else 1 : ℕ) (-k)
  have place : -(k : ℤ) < placeExponent ((a * 2 ^ k : ℕ) / b * 2 ^ (-(k : ℤ))) :=
    lt_of_lt_of_le (by omega) (placeExponent_ge _)
  have same := cell.rounded_eq hv hw (.inr (by omega)) place
  rw [whole, cut, show -(k : ℤ) - 1 = -(k + 1 : ℕ) by omega] at same
  exact same.symm

/-- What is left of a number after the bits beyond those kept are brought together is rounded as the
number. -/
theorem rounded_narrowed (y : Binary) : rounded y.narrowed.size = rounded y.size := by
  unfold narrowed
  dsimp only
  split
  next => rfl
  next long =>
    have unit : 0 < 2 ^ (y.significand.log2 - keptBits) := by positivity
    have cell := sameCell_quotient y.significand unit
    generalize hk : y.significand.log2 - keptBits = k at long unit cell
    have hk' : (0 : ℚ) < (2 ^ k : ℕ) := by exact_mod_cast unit
    have more : 2 ^ 64 * 2 ^ k ≤ y.significand := by
      have nonzero : y.significand ≠ 0 := by
        rintro zero
        rw [zero] at hk
        exact long hk.symm
      have top := Nat.log2_self_le nonzero
      rwa [show y.significand.log2 = 64 + k by unfold keptBits at hk; omega, pow_add] at top
    have kept : (2 : ℚ) ^ 64 ≤ y.significand / (2 ^ k : ℕ) := by
      rw [le_div_iff₀ hk']
      exact_mod_cast more
    have hv : (0 : ℚ) < y.significand / (2 ^ k : ℕ) := lt_of_lt_of_le (by norm_num) kept
    have hw := (cell.lt_iff 0).mp (by exact_mod_cast hv)
    rw [Int.cast_zero] at hw
    have whole : (y.significand / (2 ^ k : ℕ) : ℚ) * 2 ^ (y.exponent + k) = y.size := by
      rw [size, two_zpow_add, zpow_natCast]
      push_cast
      field_simp
    have cut := half_mul_two_zpow
      (2 * (y.significand / 2 ^ k) + if y.significand % 2 ^ k = 0 then 0 else 1 : ℕ)
      (y.exponent + k)
    have place : y.exponent + k < placeExponent y.size := by
      refine Int.lt_of_add_one_le (le_placeExponent ?_)
      have hp := two_zpow_pos (y.exponent + k)
      rw [abs_of_nonneg y.size_nonneg, ← whole, two_zpow_add _ 1, zpow_one]
      calc (2 : ℚ) ^ 52 * (2 ^ (y.exponent + k) * 2)
          ≤ 2 ^ 64 * 2 ^ (y.exponent + (k : ℤ)) := by linarith
        _ ≤ (y.significand / (2 ^ k : ℕ) : ℚ) * 2 ^ (y.exponent + k) := by gcongr
    rw [← whole] at place
    have same := cell.rounded_eq hv hw (.inl (le_trans (by norm_num) kept)) place
    rw [cut, whole] at same
    exact same.symm

end Binary

section Limits

variable {z : Float} {p q : ℚ}

theorem Rounds.congr (h : Rounds z p) (same : rounded p = rounded q) : Rounds z q :=
  ⟨same ▸ h.isFinite_iff, same ▸ h.value⟩

theorem overflow_le_rounded (h : overflow ≤ q) : overflow ≤ rounded q :=
  le_rounded ⟨1, 1024, by norm_num, by norm_num, by rw [Int.cast_one, one_mul]; rfl⟩ h

/-- What is beyond all doubles is infinity. -/
theorem Rounds.beyond (h : Rounds z p) (hp : overflow ≤ p) (hq : overflow ≤ q) : Rounds z q := by
  have ho := overflow_pos
  have infinite {u : ℚ} (hu : overflow ≤ u) : ¬|rounded u| < overflow :=
    not_lt.mpr ((overflow_le_rounded hu).trans (le_abs_self _))
  have none : ¬z.isFinite = true := mt h.isFinite_iff.mp (infinite hp)
  exact ⟨iff_of_false none (infinite hq), fun finite => absurd finite none⟩

/-- What is below half of the smallest double is zero. -/
theorem rounded_eq_zero (nonneg : 0 ≤ q) (small : q < smallest / 2) : rounded q = 0 := by
  have hs := smallest_pos
  rcases nonneg.eq_or_lt with rfl | pos
  · exact rounded_zero
  have place : placeExponent q = -1074 := by
    refine le_antisymm (placeExponent_le pos.ne' le_rfl ?_) (placeExponent_ge q)
    rw [abs_of_pos pos]
    change q < 2 ^ 53 * smallest
    linarith
  have below : q / smallest < 1 / 2 := by
    rw [div_lt_iff₀ hs]
    linarith
  have floor : ⌊q / smallest⌋ = 0 := by
    rw [Int.floor_eq_zero_iff]
    exact ⟨by positivity, by linarith⟩
  have fract : Int.fract (q / smallest) < 1 / 2 := by
    rwa [Int.fract, floor, Int.cast_zero, sub_zero]
  have none : nearestEven (q / smallest) = 0 := by
    rw [nearestEven, if_pos fract, floor]
  rw [rounded, significand, place]
  change (nearestEven (q / smallest) : ℚ) * _ = 0
  rw [none, Int.cast_zero, zero_mul]

theorem two_zpow_lt_half_smallest {e : ℤ} (h : e < -1075) : (2 : ℚ) ^ e < smallest / 2 := by
  have half : smallest / 2 = 2 ^ (-1075 : ℤ) := by
    rw [show (-1075 : ℤ) = -1074 - 1 by norm_num, zpow_sub₀ two_ne_zero, zpow_one]
    rfl
  rw [half]
  exact zpow_lt_zpow_right₀ one_lt_two h

end Limits

theorem two_zpow_le_ten_zpow {k : ℤ} (hk : 0 ≤ k) : (2 : ℚ) ^ (3 * k) ≤ 10 ^ k := by
  rw [zpow_mul]
  exact zpow_le_zpow_left₀ hk (by norm_num) (by norm_num)

namespace Decimal

theorem toBinary_negative (d : Decimal) : d.toBinary.negative = false := by
  unfold toBinary
  dsimp only
  split
  · rfl
  split
  · rfl
  split
  · rfl
  exact Binary.narrowed_negative _

theorem overflow_le {q : ℚ} (large : 10 ^ placeLimit ≤ q) : overflow ≤ q :=
  calc overflow ≤ 2 ^ (3 * placeLimit) := two_zpow_le (by decide)
    _ ≤ 10 ^ placeLimit := two_zpow_le_ten_zpow (by decide)
    _ ≤ q := large

theorem lt_half_smallest {q : ℚ} (small : q < 10 ^ (-placeLimit)) : q < smallest / 2 := by
  have inverse : (10 : ℚ) ^ (-placeLimit) ≤ 2 ^ (-(3 * placeLimit)) := by
    rw [zpow_neg, zpow_neg]
    exact inv_anti₀ (two_zpow_pos _) (two_zpow_le_ten_zpow (by decide))
  exact (small.trans_le inverse).trans (two_zpow_lt_half_smallest (by decide))

/-- A decimal with its leading digit far to the left or right is rounded like a power of two that
lies as far out, any other by its deciding places. -/
theorem rounds_ofDecimal (d : Decimal) : Rounds (Scalar.ofDecimal d) d.number := by
  have rounds := Binary.rounds_ofBinary d.toBinary
  rw [Binary.number_of_positive d.toBinary_negative] at rounds
  change Rounds (Scalar.ofBinary d.toBinary) d.number
  generalize (Scalar.ofBinary d.toBinary : Float) = z at rounds
  unfold toBinary at rounds
  dsimp only at rounds
  split_ifs at rounds with zero large small
  · rw [number, zero]
    simpa [Binary.size] using rounds
  · have far := (le_number zero).trans' (zpow_le_zpow_right₀ (by norm_num)
      (show placeLimit ≤ d.exponent + digitCount d.coefficient - 1 by omega))
    refine rounds.beyond ?_ (overflow_le far)
    rw [Binary.size, Nat.cast_one, one_mul]
    exact two_zpow_le (by decide)
  · have near := d.number_lt.trans_le (zpow_le_zpow_right₀ (by norm_num) small.le)
    have none := rounded_eq_zero d.number_nonneg (lt_half_smallest near)
    refine rounds.congr ?_
    rw [none]
    refine rounded_eq_zero (Binary.size_nonneg _) ?_
    rw [Binary.size, Nat.cast_one, one_mul]
    exact two_zpow_lt_half_smallest (by decide)
  · have numerator : 0 < d.coefficient * 10 ^ d.exponent.toNat :=
      Nat.mul_pos (Nat.pos_of_ne_zero zero) (by positivity)
    refine rounds.congr ?_
    rw [Binary.rounded_narrowed, ← d.number_eq_quotient]
    exact Binary.rounded_ofQuotient numerator (Nat.pow_pos (by decide))

end Decimal

end LessonPlot
