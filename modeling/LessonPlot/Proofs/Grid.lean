import LessonPlot.Grid
import LessonPlot.Proofs.Interval

namespace LessonPlot

section Exact

variable {m M d : ℚ} {n i j : ℕ}

/-- The value some steps along an interval that starts at `m`, with a given width, each operation
rounded. -/
def shifted (m width : ℚ) (n i : ℕ) : ℚ :=
  rounded (m + rounded (rounded (width * i) / n))

/-- The value some steps along an interval from `m` to `M` as a mixture of its ends, each operation
rounded. -/
def blended (m M : ℚ) (n i : ℕ) : ℚ :=
  rounded (rounded (m * rounded (1 - rounded (i / n))) + rounded (M * rounded (i / n)))

theorem shifted_mono (h0 : 0 ≤ d) (h : i ≤ j) : shifted m d n i ≤ shifted m d n j := by
  have hij : (i : ℚ) ≤ j := by exact_mod_cast h
  have product : rounded (d * i) ≤ rounded (d * j) := rounded_mono (by gcongr)
  have quotient : rounded (rounded (d * i) / n) ≤ rounded (rounded (d * j) / n) :=
    rounded_mono (by gcongr)
  exact rounded_mono (by linarith)

theorem shifted_zero (hm : Representable m) : shifted m d n 0 = m := by
  rw [shifted, Nat.cast_zero, mul_zero, rounded_zero, zero_div, rounded_zero, add_zero,
    rounded_of_representable hm]

theorem shift_nonneg (h0 : 0 ≤ d) (i n : ℕ) : 0 ≤ rounded (rounded (d * i) / n) := by
  have product : 0 ≤ rounded (d * i) := rounded_nonneg (by positivity)
  exact rounded_nonneg (by positivity)

theorem le_shifted (hm : Representable m) (h0 : 0 ≤ d) : m ≤ shifted m d n i :=
  le_rounded hm (le_add_of_nonneg_right (shift_nonneg h0 i n))

/-- A step before the last is rounded to no more than the true width, for all that rounding can add to
it is less than one step. -/
theorem shift_le (hd : Placed d) (h0 : 0 ≤ d) (hi : i < n) (hn : n ≤ 299) :
    rounded (rounded (rounded d * i) / n) ≤ d := by
  have hw := rounded_nonneg h0
  have hn0 : (0 : ℚ) < n := by exact_mod_cast (Nat.zero_le i).trans_lt hi
  have hi' : (i : ℚ) ≤ n - 1 := by
    have : (i : ℚ) + 1 ≤ n := by exact_mod_cast hi
    linarith
  have hn' : (n : ℚ) ≤ 299 := by exact_mod_cast hn
  have product := ((representable_rounded d).placed.mul_natCast i).rounded_le_mul (by positivity)
  have room : ((n : ℚ) - 1) * (1 + 1 / 2 ^ 53) ≤ (1 - 1 / 2 ^ 53) * n := by linarith
  refine hd.rounded_le h0 ?_
  rw [div_le_iff₀ hn0]
  calc rounded (rounded d * i) ≤ rounded d * i * (1 + 1 / 2 ^ 53) := product
    _ ≤ rounded d * (n - 1) * (1 + 1 / 2 ^ 53) := by gcongr
    _ = rounded d * ((n - 1) * (1 + 1 / 2 ^ 53)) := by ring
    _ ≤ rounded d * ((1 - 1 / 2 ^ 53) * n) := mul_le_mul_of_nonneg_left room hw
    _ = rounded d * (1 - 1 / 2 ^ 53) * n := by ring

theorem shifted_le (hm : Representable m) (hM : Representable M) (h : m ≤ M) (hi : i < n)
    (hn : n ≤ 299) : shifted m (rounded (M - m)) n i ≤ M := by
  have within := shift_le (hM.placed.sub hm.placed) (sub_nonneg.mpr h) hi hn
  exact rounded_le hM (by linarith)

theorem representable_one : Representable 1 :=
  ⟨1, 0, by norm_num, by norm_num, by norm_num⟩

theorem fraction_nonneg (i n : ℕ) : 0 ≤ rounded ((i : ℚ) / n) :=
  rounded_nonneg (by positivity)

theorem fraction_le_one (h : i ≤ n) : rounded ((i : ℚ) / n) ≤ 1 := by
  refine rounded_le representable_one ?_
  have : (i : ℚ) ≤ n := by exact_mod_cast h
  exact div_le_one_of_le₀ this (by positivity)

theorem complement_nonneg (h : i ≤ n) : 0 ≤ rounded (1 - rounded ((i : ℚ) / n)) :=
  rounded_nonneg (sub_nonneg.mpr (fraction_le_one h))

theorem complement_le_one (i n : ℕ) : rounded (1 - rounded ((i : ℚ) / n)) ≤ 1 := by
  have := fraction_nonneg i n
  exact rounded_le representable_one (by linarith)

theorem blended_mono (hm : m ≤ 0) (hM : 0 ≤ M) (h : i ≤ j) :
    blended m M n i ≤ blended m M n j := by
  have hij : (i : ℚ) ≤ j := by exact_mod_cast h
  have fraction : rounded ((i : ℚ) / n) ≤ rounded ((j : ℚ) / n) := rounded_mono (by gcongr)
  have complement : rounded (1 - rounded ((j : ℚ) / n)) ≤ rounded (1 - rounded ((i : ℚ) / n)) :=
    rounded_mono (by linarith)
  have low := rounded_mono (mul_le_mul_of_nonpos_left complement hm)
  have high := rounded_mono (mul_le_mul_of_nonneg_left fraction hM)
  exact rounded_mono (by linarith)

theorem blended_zero (hm : Representable m) : blended m M n 0 = m := by
  rw [blended, Nat.cast_zero, zero_div, rounded_zero, sub_zero,
    rounded_of_representable representable_one, mul_one, mul_zero, rounded_zero, add_zero,
    rounded_of_representable hm, rounded_of_representable hm]

/-- The share of the lower end in a mixture. -/
theorem low_share (hm : Representable m) (h0 : m ≤ 0) (hi : i ≤ n) :
    m ≤ rounded (m * rounded (1 - rounded ((i : ℚ) / n))) ∧
      rounded (m * rounded (1 - rounded ((i : ℚ) / n))) ≤ 0 := by
  have h := complement_nonneg hi
  have h' := complement_le_one i n
  constructor
  · exact le_rounded hm (by nlinarith)
  · exact rounded_zero ▸ rounded_mono (mul_nonpos_of_nonpos_of_nonneg h0 h)

/-- The share of the upper end in a mixture. -/
theorem high_share (hM : Representable M) (h0 : 0 ≤ M) (hi : i ≤ n) :
    0 ≤ rounded (M * rounded ((i : ℚ) / n)) ∧ rounded (M * rounded ((i : ℚ) / n)) ≤ M := by
  have h := fraction_nonneg i n
  have h' := fraction_le_one hi
  constructor
  · exact rounded_nonneg (by positivity)
  · exact rounded_le hM (by nlinarith)

theorem blended_bounds (hm : Representable m) (hM : Representable M) (h : m ≤ 0) (h' : 0 ≤ M)
    (hi : i ≤ n) : m ≤ blended m M n i ∧ blended m M n i ≤ M := by
  obtain ⟨low, low'⟩ := low_share hm h hi
  obtain ⟨high, high'⟩ := high_share hM h' hi
  exact ⟨le_rounded hm (by linarith), rounded_le hM (by linarith)⟩

end Exact

section Values

variable {range : Interval} {n i j : ℕ}

/-- A number that can be multiplied by a count can be multiplied by a smaller count. -/
theorem isFinite_mul_ofNat {x : Float} {q : ℚ} (hx : Denotes x q) (h0 : 0 ≤ q) (h : i ≤ j)
    (hj : j ≤ 299) (product : (x * Float.ofNat j).isFinite = true) :
    (x * Float.ofNat i).isFinite = true := by
  have hi' := denotes_ofNat (n := i) (by omega)
  have hj' := denotes_ofNat (n := j) (by omega)
  have order : (i : ℚ) ≤ j := by exact_mod_cast h
  have low : 0 ≤ rounded (q * i) := rounded_nonneg (by positivity)
  have high : rounded (q * i) ≤ rounded (q * j) := rounded_mono (by gcongr)
  have bound := (hx.mul hj').isFinite_iff.mp product
  rw [abs_of_nonneg (low.trans high)] at bound
  rw [(hx.mul hi').isFinite_iff, abs_of_nonneg low]
  exact high.trans_lt bound

/-- A value before the last of a grid whose width is a double is a rounded step from the lower end, so
long as the width can be multiplied by the number of steps. -/
theorem gridValue_shifted (proper : range.isProper = true) (width : range.span.isFinite = true)
    (hi : i < n) (hn : n ≤ 299) (product : (range.span * Float.ofNat i).isFinite = true) :
    Denotes (gridValue range n i)
      (shifted range.low (rounded (range.high - range.low)) n i) := by
  have bounded := Interval.isFinite_of_isProper proper
  obtain ⟨hmin, hmax⟩ := Interval.denotes_ends bounded
  have span := (Interval.rounds_span bounded).denotes width
  have h0 : 0 ≤ range.high - range.low := sub_nonneg.mpr (Interval.low_lt_high proper).le
  have hw := rounded_nonneg h0
  have hn0 : (1 : ℚ) ≤ n := by exact_mod_cast Nat.one_le_of_lt hi
  have hp : 0 ≤ rounded (rounded (range.high - range.low) * i) := rounded_nonneg (by positivity)
  -- the product, the quotient and the sum are rounded one after the other
  have product' := (span.mul (denotes_ofNat (n := i) (by omega))).denotes product
  have quotient := (product'.div (denotes_ofNat (n := n) (by omega)) (by positivity)).between
    denotes_zero product' (by positivity) (div_le_self hp hn0)
  have near := shift_nonneg hw i n
  have far := shift_le (Interval.placed_width bounded) h0 hi hn
  rw [gridValue, if_neg hi.ne, if_pos width]
  exact (hmin.add quotient).between hmin hmax (by linarith) (by linarith)

theorem gridValue_not_isFinite (width : range.span.isFinite = true) (hi : i < n)
    (product : (range.span * Float.ofNat i).isFinite = false) :
    (gridValue range n i).isFinite = false := by
  rw [gridValue, if_neg hi.ne, if_pos width]
  exact isFinite_add_of_right (isFinite_div_of_left product)

/-- A value before the last of a grid whose width is no double is a mixture of the ends. -/
theorem gridValue_blended (proper : range.isProper = true) (width : range.span.isFinite = false)
    (hi : i < n) (hn : n ≤ 299) :
    Denotes (gridValue range n i) (blended range.low range.high n i) := by
  obtain ⟨hmin, hmax⟩ := Interval.denotes_ends (Interval.isFinite_of_isProper proper)
  obtain ⟨neg, pos⟩ := Interval.zero_inside proper width
  have hle : (i : ℚ) ≤ n := by exact_mod_cast hi.le
  have hn0 : (0 : ℚ) < n := by exact_mod_cast (Nat.zero_le i).trans_lt hi
  have f0 := fraction_nonneg i n
  have f1 := fraction_le_one hi.le
  have c0 := complement_nonneg hi.le
  have c1 := complement_le_one i n
  have fraction := ((denotes_ofNat (n := i) (by omega)).div (denotes_ofNat (n := n) (by omega))
    hn0.ne').between denotes_zero denotes_one (by positivity) ((div_le_one₀ hn0).mpr hle)
  have complement := (denotes_one.sub fraction).between denotes_zero denotes_one
    (by linarith) (by linarith)
  have low := (hmin.mul complement).between hmin denotes_zero (by nlinarith) (by nlinarith)
  have high := (hmax.mul fraction).between denotes_zero hmax (by positivity) (by nlinarith)
  obtain ⟨l0, l1⟩ := low_share hmin.representable neg.le hi.le
  obtain ⟨g0, g1⟩ := high_share hmax.representable pos.le hi.le
  rw [gridValue, if_neg hi.ne, if_neg (by rw [width]; decide)]
  exact (low.add high).between hmin hmax (by linarith) (by linarith)

theorem clampedSteps_pos (steps : ℕ) : 0 < clampedSteps steps := by
  simp only [clampedSteps, maxSamples]
  omega

theorem clampedSteps_le (steps : ℕ) : clampedSteps steps ≤ 299 := by
  simp only [clampedSteps, maxSamples]
  omega

theorem grid_eq_map (proper : range.isProper = true) (steps : ℕ) :
    grid range steps =
      (List.range (clampedSteps steps + 1)).map (gridValue range (clampedSteps steps)) := by
  rw [grid, Interval.isFinite_of_isProper proper, Interval.span_ne_zero proper]
  rfl

/-- Before the last value of a grid, the values are finite numbers in order between its ends if the
products that they take are finite. -/
theorem exists_regular (proper : range.isProper = true) (hn : n ≤ 299)
    (products : range.span.isFinite = true →
      (range.span * Float.ofNat (n - 1)).isFinite = true) :
    ∃ q : ℕ → ℚ, (∀ i j, i ≤ j → q i ≤ q j) ∧
      ∀ i < n, Denotes (gridValue range n i) (q i) ∧ range.low ≤ q i ∧ q i ≤ range.high := by
  have bounded := Interval.isFinite_of_isProper proper
  obtain ⟨hmin, hmax⟩ := Interval.denotes_ends bounded
  have rm := hmin.representable
  have rM := hmax.representable
  cases width : range.span.isFinite with
  | false =>
    obtain ⟨neg, pos⟩ := Interval.zero_inside proper width
    exact ⟨blended range.low range.high n, fun i j h => blended_mono neg.le pos.le h,
      fun i hi => ⟨gridValue_blended proper width hi hn, blended_bounds rm rM neg.le pos.le hi.le⟩⟩
  | true =>
    have ordered := (Interval.low_lt_high proper).le
    have span := (Interval.rounds_span bounded).denotes width
    have h0 := rounded_nonneg (sub_nonneg.mpr ordered)
    refine ⟨shifted range.low (rounded (range.high - range.low)) n,
      fun i j h => shifted_mono h0 h, fun i hi => ⟨?_, le_shifted rm h0, ?_⟩⟩
    · exact gridValue_shifted proper width hi hn
        (isFinite_mul_ofNat span h0 (Nat.le_sub_one_of_lt hi) (by omega) (products width))
    · exact shifted_le rm rM ordered hi hn

theorem gridValue_last (range : Interval) (n : ℕ) : gridValue range n n = range.max := by
  rw [gridValue, if_pos rfl]

/-- The values of a grid are finite numbers in order between its ends if the products that they take
are finite. -/
theorem gridValue_regular (proper : range.isProper = true) (hn : n ≤ 299)
    (products : range.span.isFinite = true →
      (range.span * Float.ofNat (n - 1)).isFinite = true) :
    (∀ value ∈ (List.range (n + 1)).map (gridValue range n),
        value.isFinite = true ∧ range.min ≤ value ∧ value ≤ range.max) ∧
      ((List.range (n + 1)).map (gridValue range n)).Pairwise (· ≤ ·) := by
  obtain ⟨hmin, hmax⟩ := Interval.denotes_ends (Interval.isFinite_of_isProper proper)
  obtain ⟨q, mono, regular⟩ := exists_regular proper hn products
  -- every value but the last one is before `n`
  have within : ∀ i ≤ n, (gridValue range n i).isFinite = true ∧
      range.min ≤ gridValue range n i ∧ gridValue range n i ≤ range.max := by
    intro i hi
    obtain rfl | before := hi.eq_or_lt
    · rw [gridValue_last, hmin.le_iff hmax, hmax.le_iff hmax]
      exact ⟨hmax.isFinite, (Interval.low_lt_high proper).le, le_rfl⟩
    · obtain ⟨value, low, high⟩ := regular i before
      exact ⟨value.isFinite, (hmin.le_iff value).mpr low, (value.le_iff hmax).mpr high⟩
  constructor
  · intro value h
    obtain ⟨i, hi, rfl⟩ := List.mem_map.mp h
    exact within i (Nat.le_of_lt_succ (List.mem_range.mp hi))
  · refine List.pairwise_map.mpr (List.pairwise_lt_range.imp_of_mem fun {i j} _ hj h => ?_)
    obtain rfl | before := (Nat.le_of_lt_succ (List.mem_range.mp hj)).eq_or_lt
    · rw [gridValue_last]
      exact (within i h.le).2.2
    · rw [(regular i (h.trans before)).1.le_iff (regular j before).1]
      exact mono i j h.le

/-- The first value of a grid equals its lower end. -/
theorem gridValue_zero (proper : range.isProper = true) (h : 0 < n) (hn : n ≤ 299) :
    (gridValue range n 0 == range.min) = true := by
  have bounded := Interval.isFinite_of_isProper proper
  obtain ⟨hmin, -⟩ := Interval.denotes_ends bounded
  cases width : range.span.isFinite with
  | false =>
    rw [(gridValue_blended proper width h hn).beq_iff hmin]
    exact blended_zero hmin.representable
  | true =>
    have span := (Interval.rounds_span bounded).denotes width
    have product : (range.span * 0).isFinite = true := by
      rw [(span.mul denotes_zero).isFinite_iff, mul_zero, rounded_zero, abs_zero]
      exact overflow_pos
    rw [(gridValue_shifted proper width h hn product).beq_iff hmin]
    exact shifted_zero hmin.representable

end Values

/-- A grid has the number of values that is asked for, within limits, and runs from the lower end of
its interval to the upper one. All of its values are finite and lie between the ends in order, unless
the width of the interval is a double and cannot be multiplied by the number of steps before the
last. -/
theorem grid_walks_iff {range : Interval} (proper : range.isProper = true) (steps : ℕ) :
    (grid range steps).length = clampedSteps steps + 1 ∧
      (∃ first, (grid range steps).head? = some first ∧ (first == range.min) = true) ∧
      (grid range steps).getLast? = some range.max ∧
      (((∀ value ∈ grid range steps,
            value.isFinite = true ∧ range.min ≤ value ∧ value ≤ range.max) ∧
          (grid range steps).Pairwise (· ≤ ·)) ↔
        (range.span.isFinite = true →
          (range.span * Float.ofNat (clampedSteps steps - 1)).isFinite = true)) := by
  have positive := clampedSteps_pos steps
  have limited := clampedSteps_le steps
  rw [grid_eq_map proper steps]
  generalize clampedSteps steps = n at positive limited
  refine ⟨by simp, ⟨_, ?_, gridValue_zero proper positive limited⟩, ?_, ?_, ?_⟩
  · simp [List.head?_range]
  · simp [List.range_succ, gridValue_last]
  · intro regular width
    refine Bool.of_not_eq_false fun product => ?_
    have overflowing := gridValue_not_isFinite (n := n) width (by omega) product
    have finite := (regular.1 (gridValue range n (n - 1))
      (List.mem_map_of_mem (List.mem_range.mpr (by omega)))).1
    rw [overflowing] at finite
    cases finite
  · intro products
    exact gridValue_regular proper limited products

/-- An interval whose width is no double is walked from end to end. -/
theorem grid_walks_wide :
    let range : Interval := ⟨-1e308, 1e308⟩
    range.isProper = true ∧ (grid range 4).length = 5 ∧ (grid range 4).getLast? = some 1e308 ∧
      (∀ value ∈ grid range 4, value.isFinite = true ∧ -1e308 ≤ value ∧ value ≤ 1e308) ∧
      (grid range 4).Pairwise (· ≤ ·) := by
  have proper : (⟨-1e308, 1e308⟩ : Interval).isProper = true := by decide +kernel
  have width : (⟨-1e308, 1e308⟩ : Interval).span.isFinite = false := by decide +kernel
  obtain ⟨count, -, last, regular⟩ := grid_walks_iff proper 4
  have ⟨within, ordered⟩ := regular.mpr (by simp [width])
  exact ⟨proper, count, last, within, ordered⟩

/-- The width of this interval is a double, and twice the width is not. -/
theorem exists_grid_not_isFinite :
    ∃ (range : Interval) (steps : ℕ), range.isProper = true ∧
      ∃ value ∈ grid range steps, value.isFinite = false := by
  refine ⟨⟨0, 1.5e308⟩, 3, by decide +kernel, gridValue ⟨0, 1.5e308⟩ 3 2, ?_, by decide +kernel⟩
  rw [grid_eq_map (by decide +kernel)]
  exact List.mem_map_of_mem (by decide)

end LessonPlot
