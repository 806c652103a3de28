import LessonPlot.Decimal.Shortest
import LessonPlot.Proofs.Float.Reading

namespace LessonPlot

theorem nearestEven_eq_of_near {x : ℚ} {n : ℤ} (near : |x - n| < 1 / 2) : nearestEven x = n := by
  have error := abs_nearestEven_sub_le x
  have apart : |((nearestEven x - n : ℤ) : ℚ)| < 1 := by
    push_cast
    have h := abs_add_le (nearestEven x - x) (x - n)
    rw [sub_add_sub_cancel] at h
    linarith
  have zero : |nearestEven x - n| < 1 := by exact_mod_cast apart
  exact sub_eq_zero.mp (Int.abs_lt_one_iff.mp zero)

/-- What is near a double does not have its last place further to the left. -/
theorem placeExponent_le_of_near {x q : ℚ} (hx : Representable x) (pos : 0 < x) (hq : 0 < q)
    (near : q - x < x / 2 ^ 54) : placeExponent q ≤ placeExponent x := by
  by_contra above
  have hp := two_zpow_pos (placeExponent x)
  have less := abs_lt_two_zpow x
  rw [abs_of_pos pos] at less
  have normal := two_zpow_le_abs hq.ne' ((placeExponent_ge x).trans_lt (not_le.mp above))
  rw [abs_of_pos hq] at normal
  have double := two_zpow_le (Int.add_one_le_of_lt (not_le.mp above))
  rw [two_zpow_add, zpow_one] at double
  obtain ⟨k, hk⟩ := hx.exists_eq_mul le_rfl
  generalize (2 : ℚ) ^ placeExponent x = u at hp less double hk
  subst hk
  have last : k ≤ 2 ^ 53 - 1 := by
    have h : (k : ℚ) < 2 ^ 53 := lt_of_mul_lt_mul_right less hp.le
    exact Int.le_sub_one_of_lt (by exact_mod_cast h)
  have last' : (k : ℚ) ≤ 2 ^ 53 - 1 := by exact_mod_cast last
  have h : k * u ≤ (2 ^ 53 - 1) * u := by gcongr
  linarith

/-- A number nearer to a double than half the gap beside it is rounded to the double. -/
theorem rounded_of_near {x q : ℚ} (hx : Representable x) (pos : 0 < x)
    (near : |q - x| < x / 2 ^ 54) : rounded q = x := by
  have hq : 0 < q := by
    have h := (abs_lt.mp near).1
    linarith
  have place := placeExponent_le_of_near hx pos hq (abs_lt.mp near).2
  have hp := two_zpow_pos (placeExponent q)
  have below := abs_lt_two_zpow q
  rw [abs_of_pos hq] at below
  -- `x` is `k` units of the last place of `q`, also where `q` is the one with the smaller unit
  obtain ⟨k, hk⟩ := hx.exists_eq_mul place
  unfold rounded significand
  generalize (2 : ℚ) ^ placeExponent q = u at hp below hk
  subst hk
  have least : k * u * (1 - 1 / 2 ^ 54) < 2 ^ 53 * u := by
    have h := (abs_lt.mp near).1
    linarith
  have most : k ≤ 2 ^ 53 := by
    by_contra more
    have more' : (2 ^ 53 + 1 : ℚ) ≤ k := by exact_mod_cast not_le.mp more
    have h : (2 ^ 53 + 1 : ℚ) * u ≤ k * u := by gcongr
    linarith
  have close : |q / u - k| < 1 / 2 := by
    have scaled : q / u - k = (q - k * u) / u := by field_simp
    rw [scaled, abs_div, abs_of_pos hp, div_lt_iff₀ hp]
    have most' : (k : ℚ) ≤ 2 ^ 53 := by exact_mod_cast most
    have h : k * u ≤ 2 ^ 53 * u := by gcongr
    linarith
  rw [nearestEven_eq_of_near close]

namespace Binary

variable {y : Binary} {place : ℤ}

/-- The quotient in units of a place is the size in that unit. -/
theorem quotientAt_eq (y : Binary) (place : ℤ) :
    ((y.quotientAt place).1 : ℚ) / (y.quotientAt place).2 = y.size / 10 ^ place := by
  have twos := pow_toNat_div (a := 2) two_ne_zero y.exponent
  have tens := pow_toNat_div (a := 10) (by norm_num) (-place)
  rw [neg_neg, zpow_neg] at tens
  unfold quotientAt size
  simp only [Nat.pow_eq]
  push_cast
  rw [← twos, div_eq_mul_inv _ ((10 : ℚ) ^ place), ← tens]
  field_simp

/-- Three places are left for a slope that is not quite the logarithm of two. -/
theorem ten_zpow_le_two_zpow {e : ℤ} (least : -1100 ≤ e) (most : e ≤ 1100) :
    (10 : ℚ) ^ (e * 30103 / 100000 - 3) ≤ 2 ^ e := by
  generalize hr : e * 30103 / 100000 - 3 = r
  have ten := ten_zpow_pos r
  have two := two_zpow_pos e
  -- 28/93 and 59/196 are close to the logarithm, each on the side that its case asks for
  rcases lt_or_ge e 0 with neg | nonneg
  · have powers : ((10 : ℚ) ^ r) ^ 93 ≤ ((2 : ℚ) ^ e) ^ 93 :=
      calc ((10 : ℚ) ^ r) ^ 93 = 10 ^ (r * 93) := by
            rw [zpow_mul]
            norm_cast
        _ ≤ 10 ^ (28 * e) := zpow_le_zpow_right₀ (by norm_num) (by omega)
        _ = (10 ^ 28) ^ e := by
            rw [zpow_mul]
            norm_num
        _ ≤ (2 ^ 93) ^ e := by
            have flip (u : ℚ) : u ^ e = (u ^ (-e))⁻¹ := by rw [zpow_neg, inv_inv]
            have below := zpow_le_zpow_left₀ (n := -e) (by omega)
              (show (0 : ℚ) ≤ 2 ^ 93 by norm_num) (show (2 : ℚ) ^ 93 ≤ 10 ^ 28 by norm_num)
            rw [flip (10 ^ 28), flip (2 ^ 93)]
            exact inv_anti₀ (by positivity) below
        _ = ((2 : ℚ) ^ e) ^ 93 := by
            rw [← zpow_natCast, ← zpow_natCast, ← zpow_mul, ← zpow_mul, mul_comm]
    exact (pow_le_pow_iff_left₀ ten.le two.le (by norm_num)).mp powers
  · rcases le_or_gt r 0 with small | large
    · calc (10 : ℚ) ^ r ≤ 10 ^ (0 : ℤ) := zpow_le_zpow_right₀ (by norm_num) small
        _ = 2 ^ (0 : ℤ) := by norm_num
        _ ≤ 2 ^ e := two_zpow_le nonneg
    · have powers : ((10 : ℚ) ^ r) ^ 59 ≤ ((2 : ℚ) ^ e) ^ 59 :=
        calc ((10 : ℚ) ^ r) ^ 59 = (10 ^ 59) ^ r := by
              rw [← zpow_natCast, ← zpow_natCast, ← zpow_mul, ← zpow_mul, mul_comm]
          _ ≤ (2 ^ 196) ^ r := zpow_le_zpow_left₀ large.le (by norm_num) (by norm_num)
          _ = 2 ^ (196 * r) := by
              rw [← zpow_natCast, ← zpow_mul]
              norm_num
          _ ≤ 2 ^ (e * 59) := two_zpow_le (by omega)
          _ = ((2 : ℚ) ^ e) ^ 59 := by
              rw [zpow_mul]
              norm_cast
      exact (pow_le_pow_iff_left₀ ten.le two.le (by norm_num)).mp powers

theorem two_zpow_le_size (nonzero : y.significand ≠ 0) :
    2 ^ (y.exponent + y.significand.log2) ≤ y.size := by
  have hp := two_zpow_pos y.exponent
  have least : (2 : ℚ) ^ y.significand.log2 ≤ y.significand := by
    exact_mod_cast Nat.log2_self_le nonzero
  rw [two_zpow_add, zpow_natCast, mul_comm, size]
  gcongr

/-- What the quotient in units of a place is between. -/
theorem floor_quotientAt (y : Binary) (place : ℤ) :
    ((y.quotientAt place).1 / (y.quotientAt place).2 : ℕ) ≤ y.size / 10 ^ place ∧
      y.size / 10 ^ place < ((y.quotientAt place).1 / (y.quotientAt place).2 : ℕ) + 1 := by
  rw [← quotientAt_eq]
  have lower := Int.floor_le ((y.quotientAt place).1 / (y.quotientAt place).2 : ℚ)
  have upper := Int.lt_floor_add_one ((y.quotientAt place).1 / (y.quotientAt place).2 : ℚ)
  rw [floor_quotient, Int.cast_natCast] at lower upper
  exact ⟨lower, upper⟩

/-- The leading place is that of the first digit. -/
theorem leadingPlace_spec (nonzero : y.significand ≠ 0) (least : -1100 ≤ y.exponent)
    (most : y.size < overflow) :
    10 ^ y.leadingPlace ≤ y.size ∧ y.size < 10 ^ (y.leadingPlace + 1) := by
  have top := two_zpow_le_size nonzero
  have order : y.exponent + y.significand.log2 < 1024 :=
    (zpow_lt_zpow_iff_right₀ one_lt_two).mp (top.trans_lt most)
  have rough := (ten_zpow_le_two_zpow (e := y.exponent + y.significand.log2) (by omega)
    (by omega)).trans top
  unfold leadingPlace
  generalize (y.exponent + y.significand.log2) * 30103 / 100000 - 3 = r at rough
  have hr := ten_zpow_pos r
  obtain ⟨lower, upper⟩ := y.floor_quotientAt r
  dsimp only
  generalize (y.quotientAt r).1 / (y.quotientAt r).2 = n at lower upper
  rw [le_div_iff₀ hr] at lower
  rw [div_lt_iff₀ hr] at upper
  have some : n ≠ 0 := by
    rintro rfl
    rw [Nat.cast_zero, zero_add, one_mul] at upper
    exact rough.not_gt upper
  have count := digitCount_pos n
  have above : r + (digitCount n - 1 : ℕ) + 1 = r + digitCount n := by omega
  have digits : (10 : ℚ) ^ (digitCount n - 1) ≤ n := by exact_mod_cast pow_digitCount_le some
  have digits' : (n : ℚ) + 1 ≤ 10 ^ digitCount n := by exact_mod_cast lt_pow_digitCount n
  rw [above, zpow_add₀ (by norm_num), zpow_add₀ (by norm_num), zpow_natCast, zpow_natCast]
  constructor
  · calc (10 : ℚ) ^ r * 10 ^ (digitCount n - 1) ≤ 10 ^ r * n := by gcongr
      _ = n * 10 ^ r := mul_comm _ _
      _ ≤ y.size := lower
  · calc y.size < (n + 1) * 10 ^ r := upper
      _ ≤ 10 ^ digitCount n * 10 ^ r := by gcongr
      _ = 10 ^ r * 10 ^ digitCount n := mul_comm _ _

end Binary

namespace Decimal

variable {tie : Tie} {y : Binary} {place : ℤ} {d : Decimal}

theorem mem_neighbours : d ∈ neighbours tie y place ↔
    d = ⟨(y.quotientAt place).1 / (y.quotientAt place).2, place⟩ ∨
      d = ⟨(y.quotientAt place).1 / (y.quotientAt place).2 + 1, place⟩ := by
  unfold neighbours
  dsimp only
  split
  · simp [or_comm]
  · simp

/-- One of the two neighbours is at most half a unit away. -/
theorem exists_near_neighbour (tie : Tie) (y : Binary) (place : ℤ) :
    ∃ d ∈ neighbours tie y place, |d.number - y.size| ≤ 10 ^ place / 2 := by
  have hp := ten_zpow_pos place
  have close (c : ℕ) (near : |(c : ℚ) - y.size / 10 ^ place| ≤ 1 / 2) :
      |number ⟨c, place⟩ - y.size| ≤ 10 ^ place / 2 := by
    have scaled : number ⟨c, place⟩ - y.size = (c - y.size / 10 ^ place) * 10 ^ place := by
      rw [number, sub_mul, div_mul_cancel₀ _ hp.ne']
    calc |number ⟨c, place⟩ - y.size| = |(c : ℚ) - y.size / 10 ^ place| * 10 ^ place := by
          rw [scaled, abs_mul, abs_of_pos hp]
      _ ≤ 1 / 2 * 10 ^ place := by gcongr
      _ = 10 ^ place / 2 := by ring
  obtain ⟨lower, upper⟩ := y.floor_quotientAt place
  simp only [mem_neighbours]
  generalize (y.quotientAt place).1 / (y.quotientAt place).2 = n at lower upper
  rcases le_total (y.size / 10 ^ place) (n + 1 / 2) with below | above
  · refine ⟨_, .inl rfl, close n (abs_le.mpr ⟨?_, ?_⟩)⟩ <;> linarith
  · refine ⟨_, .inr rfl, close (n + 1) (abs_le.mpr ⟨?_, ?_⟩)⟩ <;> push_cast <;> linarith

end Decimal

section ReadBack

variable {y : Binary} {d : Decimal}

/-- A decimal that is rounded to a number that is written without a sign is read as that. -/
theorem value_ofDecimal (canonical : Canonical y.significand y.exponent) (le : y.exponent ≤ 971)
    (positive : y.negative = false) (same : rounded d.number = y.size)
    (zero : y.significand = 0 → d.coefficient = 0) :
    Scalar.value (Scalar.ofDecimal d : Float) = .finite y := by
  have rounds := d.rounds_ofDecimal
  have finite : (Scalar.ofDecimal d : Float).isFinite = true := by
    rw [rounds.isFinite_iff, same, abs_of_nonneg y.size_nonneg]
    exact canonical.lt_overflow_iff.mpr le
  have denotes : Denotes (Scalar.ofDecimal d : Float) y.size :=
    ⟨finite, (rounds.value finite).trans same⟩
  refine denotes.value_eq ?_ canonical positive
  by_cases none : y.significand = 0
  · have least : d.toBinary = ⟨false, 0, 0⟩ := if_pos (zero none)
    have size : y.size = Binary.number ⟨false, 0, 0⟩ := by
      rw [Binary.number_of_significand_eq_zero rfl, Binary.size_eq_zero_iff.mpr none]
    rw [Scalar.ofDecimal, least] at denotes ⊢
    exact Binary.plain_ofBinary rfl (size ▸ denotes)
  · refine plain_of_ne_zero ?_
    rw [denotes.value]
    exact mt Binary.size_eq_zero_iff.mp none

section Nonzero

variable (canonical : Canonical y.significand y.exponent) (le : y.exponent ≤ 971)
  (nonzero : y.significand ≠ 0)

include canonical le nonzero

/-- The decimals that read back are those that are rounded to the number. -/
theorem readsBack_iff : readsBack Float y d = true ↔ rounded d.number = y.size := by
  constructor
  · intro h
    unfold readsBack at h
    split at h
    next z hz =>
      have finite : (Scalar.ofDecimal d : Float).isFinite = true := by
        by_contra none
        exact value_ne_finite (Bool.eq_false_of_not_eq_true none) z hz
      have value := d.rounds_ofDecimal.value finite
      rw [value_eq_written] at hz
      have number : z.number = rounded d.number :=
        ((packable_unpack _).written_finite hz).2.1.trans value
      have parts : z.significand = y.significand ∧ z.exponent = y.exponent := by simpa using h
      have size : |z.number| = y.size := by
        rw [Binary.number_eq, abs_signed, abs_of_nonneg z.size_nonneg, Binary.size, parts.1,
          parts.2, Binary.size]
      rw [← size, number, abs_of_nonneg (rounded_nonneg d.number_nonneg)]
    next => cases h
  · intro same
    have value := value_ofDecimal (y := { y with negative := false }) canonical le rfl same
      (fun zero => absurd zero nonzero)
    simp [readsBack, value]

theorem leadingPlace_bounds :
    10 ^ y.leadingPlace ≤ y.size ∧ y.size < 10 ^ (y.leadingPlace + 1) := by
  have deepest := canonical.exponent_ge
  exact Binary.leadingPlace_spec nonzero (by omega) (canonical.size_lt le)

/-- At seventeen digits one of the neighbours reads back. -/
theorem exists_readsBack (tie : Tie) :
    ∃ d ∈ Decimal.neighbours tie y (y.leadingPlace - 16), readsBack Float y d = true := by
  obtain ⟨lead, -⟩ := leadingPlace_bounds canonical le nonzero
  have hp := ten_zpow_pos (y.leadingPlace - 16)
  have pos : 0 < y.size := (ten_zpow_pos _).trans_le lead
  have whole : (10 : ℚ) ^ y.leadingPlace = 10 ^ 16 * 10 ^ (y.leadingPlace - 16) := by
    rw [zpow_sub₀ (by norm_num)]
    norm_num
    field_simp
  rw [whole] at lead
  obtain ⟨d, mem, near⟩ := Decimal.exists_near_neighbour tie y (y.leadingPlace - 16)
  refine ⟨d, mem, (readsBack_iff canonical le nonzero).mpr ?_⟩
  have double : Representable y.size := canonical.representable .positive
  refine rounded_of_near double pos (near.trans_lt ?_)
  linarith

theorem leadingPlace_range : -400 ≤ y.leadingPlace ∧ y.leadingPlace ≤ 400 := by
  obtain ⟨lead, above⟩ := leadingPlace_bounds canonical le nonzero
  have least : smallest ≤ y.size := by
    have one : (1 : ℚ) ≤ y.significand := by exact_mod_cast Nat.one_le_iff_ne_zero.mpr nonzero
    have hp := two_zpow_pos y.exponent
    calc smallest ≤ 2 ^ y.exponent := two_zpow_le canonical.exponent_ge
      _ = 1 * 2 ^ y.exponent := (one_mul _).symm
      _ ≤ y.size := by
        unfold Binary.size
        gcongr
  constructor
  · by_contra low
    have power : (10 : ℚ) ^ (y.leadingPlace + 1) ≤ 10 ^ (-Decimal.placeLimit) :=
      zpow_le_zpow_right₀ (by norm_num) (by unfold Decimal.placeLimit; omega)
    have tiny := Decimal.lt_half_smallest (above.trans_le power)
    have hs := smallest_pos
    linarith
  · by_contra high
    have power : (10 : ℚ) ^ Decimal.placeLimit ≤ 10 ^ y.leadingPlace :=
      zpow_le_zpow_right₀ (by norm_num) (by unfold Decimal.placeLimit; omega)
    exact (canonical.size_lt le).not_ge (Decimal.overflow_le (power.trans lead))

theorem neighbour_bounds {tie : Tie} {more : ℕ} (few : more ≤ 16)
    (mem : d ∈ Decimal.neighbours tie y (y.leadingPlace - more)) :
    d.coefficient ≤ 10 ^ 17 ∧ d.exponent = y.leadingPlace - more := by
  obtain ⟨-, above⟩ := leadingPlace_bounds canonical le nonzero
  obtain ⟨lower, -⟩ := y.floor_quotientAt (y.leadingPlace - more)
  rw [Decimal.mem_neighbours] at mem
  generalize (y.quotientAt (y.leadingPlace - more)).1 / _ = n at lower mem
  have less : n < 10 ^ 17 := by
    have hp := ten_zpow_pos (y.leadingPlace - more)
    rw [le_div_iff₀ hp] at lower
    have power : (10 : ℚ) ^ (y.leadingPlace + 1) ≤ 10 ^ 17 * 10 ^ (y.leadingPlace - more) := by
      rw [← zpow_natCast, ← zpow_add₀ (by norm_num)]
      exact zpow_le_zpow_right₀ (by norm_num) (by push_cast; omega)
    have scaled := (lower.trans_lt above).trans_le power
    exact_mod_cast lt_of_mul_lt_mul_right scaled hp.le
  rcases mem with rfl | rfl <;> refine ⟨?_, rfl⟩ <;> dsimp only <;> omega

/-- A search through up to seventeen digits finds a decimal that reads back. -/
theorem exists_found (tie : Tie) :
    ∃ (d : Decimal) (more : ℕ), more ≤ 16 ∧ readsBack Float y d = true ∧
      d ∈ Decimal.neighbours tie y (y.leadingPlace - more) ∧
      ((List.range 17).findSome? fun more : Nat =>
        (Decimal.neighbours tie y (y.leadingPlace - more)).find? (readsBack Float y)) = some d := by
  cases search : (List.range 17).findSome? fun more : Nat =>
      (Decimal.neighbours tie y (y.leadingPlace - more)).find? (readsBack Float y) with
  | none =>
    obtain ⟨d, mem, reads⟩ := exists_readsBack canonical le nonzero tie
    have none := List.findSome?_eq_none_iff.mp search 16 (by decide)
    exact absurd reads (List.find?_eq_none.mp none d mem)
  | some d =>
    obtain ⟨more, few, found⟩ := List.exists_of_findSome?_eq_some search
    rw [List.mem_range] at few
    exact ⟨d, more, by omega, List.find?_some found, List.mem_of_find?_eq_some found, rfl⟩

end Nonzero

/-- What is written for a double: a decimal that is read as it, of at most eighteen digits, and with
its exponent within the range of the format. -/
structure Displays (d : Decimal) (y : Binary) : Prop where
  rounded : rounded d.number = y.size
  zero : y.significand = 0 → d.coefficient = 0
  coefficient_le : d.coefficient ≤ 10 ^ 17
  exponent_ge : -420 ≤ d.exponent
  exponent_le : d.exponent ≤ 420

/-- Seventeen digits are enough for every double, so its exact expansion is never written. -/
theorem shortest_displays (canonical : Canonical y.significand y.exponent) (le : y.exponent ≤ 971)
    (tie : Tie) : Displays (shortest Float tie y) y := by
  unfold shortest
  split
  next zero =>
    have size : y.size = 0 := Binary.size_eq_zero_iff.mpr zero
    have number : Decimal.number ⟨0, 0⟩ = 0 := Decimal.number_eq_zero_iff.mpr rfl
    exact ⟨by rw [number, size, rounded_zero], fun _ => rfl, by decide, by decide, by decide⟩
  next nonzero =>
    obtain ⟨d, more, few, reads, mem, found⟩ := exists_found canonical le nonzero tie
    obtain ⟨digits, place⟩ := neighbour_bounds canonical le nonzero few mem
    obtain ⟨low, high⟩ := leadingPlace_range canonical le nonzero
    have rounded := (readsBack_iff canonical le nonzero).mp reads
    have written : d.coefficient ≠ 0 := by
      intro none
      rw [Decimal.number_eq_zero_iff.mpr none, rounded_zero, eq_comm] at rounded
      exact nonzero (Binary.size_eq_zero_iff.mp rounded)
    have zeros := Decimal.trimmed_exponent written
    have count : digitCount d.coefficient ≤ 18 :=
      (digitCount_le_iff (by decide)).mpr (digits.trans_lt (by decide))
    dsimp only
    rw [found, Option.getD_some]
    refine ⟨?_, fun zero => absurd zero nonzero, d.trimmed_coefficient_le.trans digits, ?_, ?_⟩
    · rw [d.trimmed_number, rounded]
    · omega
    · omega

end ReadBack

end LessonPlot
