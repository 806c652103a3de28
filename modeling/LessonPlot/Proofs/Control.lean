import LessonPlot.Control
import LessonPlot.Proofs.Interval

namespace LessonPlot.Control

section Exact

variable {m M c c' d u : ℚ}

/-- How far a fraction of an interval of width `d` reaches, each operation rounded. -/
def offset (d u : ℚ) : ℚ :=
  rounded (u * rounded d)

/-- The parameter value of a control between 0 and 100 for an interval from `m` to `M`, each operation
rounded. -/
def position (m M c : ℚ) : ℚ :=
  if c = 100 then M else rounded (m + offset (M - m) (rounded (c / 100)))

theorem offset_neg (d u : ℚ) : offset (-d) u = -offset d u := by
  rw [offset, offset, rounded_neg, mul_neg, rounded_neg]

theorem offset_bounds (hd : Placed d) (h0 : 0 ≤ d) (low : 0 ≤ u) (high : u ≤ 1 - 1 / 2 ^ 53) :
    0 ≤ offset d u ∧ offset d u ≤ d := by
  have hr := rounded_nonneg h0
  constructor
  · exact rounded_nonneg (by positivity)
  · refine hd.rounded_le h0 ?_
    rw [mul_comm]
    gcongr

/-- Wherever an interval leads, a fraction of it that is less than the whole stays inside. -/
theorem offset_between (hd : Placed d) (low : 0 ≤ u) (high : u ≤ 1 - 1 / 2 ^ 53) :
    0 ≤ offset d u ∧ offset d u ≤ d ∨ d ≤ offset d u ∧ offset d u ≤ 0 := by
  rcases le_total 0 d with up | down
  · exact .inl (offset_bounds hd up low high)
  · obtain ⟨h, h'⟩ := offset_bounds hd.neg (neg_nonneg.mpr down) low high
    rw [offset_neg] at h h'
    exact .inr ⟨by linarith, by linarith⟩

/-- A control below 100 is so far below that its fraction is not rounded to the whole. -/
theorem fraction_le (hc : Representable c) (below : c < 100) :
    rounded (c / 100) ≤ 1 - 1 / 2 ^ 53 := by
  have whole : Representable (1 - 1 / 2 ^ 53) :=
    ⟨2 ^ 53 - 1, -53, by norm_num, by norm_num, by norm_num⟩
  refine rounded_le whole ?_
  -- doubles from 64 on are whole multiples of 2^-46, so the last one before 100 is that far away
  rcases lt_or_ge c 64 with small | large
  · linarith
  · have place : -46 ≤ placeExponent c := by
      refine le_placeExponent ?_
      rw [abs_of_nonneg (by linarith)]
      exact le_trans (by norm_num) large
    obtain ⟨k, rfl⟩ := hc.exists_eq_mul place
    have hk : (k : ℚ) < 100 * 2 ^ 46 := by
      rw [zpow_neg, ← div_eq_mul_inv, div_lt_iff₀ (by positivity)] at below
      exact_mod_cast below
    have hk' : k + 1 ≤ 100 * 2 ^ 46 := by exact_mod_cast hk
    have : (k : ℚ) + 1 ≤ 100 * 2 ^ 46 := by exact_mod_cast hk'
    rw [zpow_neg, ← div_eq_mul_inv, div_div, div_le_iff₀ (by positivity)]
    norm_num at this ⊢
    linarith

theorem position_neg (m M c : ℚ) : position (-m) (-M) c = -position m M c := by
  have width : -M - -m = -(M - m) := by ring
  unfold position
  split
  next => rfl
  next => rw [width, offset_neg, ← neg_add, rounded_neg]

theorem position_hundred (m M : ℚ) : position m M 100 = M :=
  if_pos rfl

theorem position_zero (hm : Representable m) : position m M 0 = m := by
  rw [position, if_neg (by norm_num), offset, zero_div, rounded_zero, zero_mul, rounded_zero,
    add_zero, rounded_of_representable hm]

theorem position_between (hm : Representable m) (hM : Representable M) (hc : Representable c)
    (low : 0 ≤ c) (high : c ≤ 100) :
    m ≤ position m M c ∧ position m M c ≤ M ∨ M ≤ position m M c ∧ position m M c ≤ m := by
  obtain rfl | below := high.eq_or_lt
  · rw [position_hundred]
    exact (le_total m M).imp (⟨·, le_rfl⟩) (⟨le_rfl, ·⟩)
  · rw [position, if_neg below.ne]
    have inside := offset_between (hM.placed.sub hm.placed) (rounded_nonneg (by positivity))
      (fraction_le hc below)
    refine inside.imp (fun h => ?_) fun h => ?_
    · exact ⟨le_rounded hm (by linarith), rounded_le hM (by linarith)⟩
    · exact ⟨le_rounded hM (by linarith), rounded_le hm (by linarith)⟩

theorem position_mono (hm : Representable m) (hM : Representable M) (h : m ≤ M)
    (hc : Representable c) (low : 0 ≤ c) (order : c ≤ c') (high : c' ≤ 100) :
    position m M c ≤ position m M c' := by
  obtain rfl | below := high.eq_or_lt
  · rw [position_hundred]
    obtain ⟨-, inside⟩ | ⟨-, inside⟩ := position_between hm hM hc low order
    · exact inside
    · exact inside.trans h
  · rw [position, position, if_neg below.ne, if_neg (order.trans_lt below).ne]
    have width := rounded_nonneg (sub_nonneg.mpr h)
    have fraction : rounded (c / 100) ≤ rounded (c' / 100) := rounded_mono (by linarith)
    have reach : offset (M - m) (rounded (c / 100)) ≤ offset (M - m) (rounded (c' / 100)) :=
      rounded_mono (by gcongr)
    exact rounded_mono (by linarith)

theorem position_anti (hm : Representable m) (hM : Representable M) (h : M ≤ m)
    (hc : Representable c) (low : 0 ≤ c) (order : c ≤ c') (high : c' ≤ 100) :
    position m M c' ≤ position m M c := by
  have mirrored := position_mono hm.neg hM.neg (neg_le_neg h) hc low order high
  rw [position_neg, position_neg] at mirrored
  exact neg_le_neg_iff.mp mirrored

end Exact

section Values

variable {range : Interval} {control control' : Float}

theorem denotes_hundred : Denotes 100 100 :=
  denotes_ofNat (n := 100) (by decide)

theorem clamp_of_isNaN (h : control.isNaN = true) : clamp control = 0 := by
  rw [clamp, if_pos h]

/-- The control is held between its ends, infinities included. -/
theorem denotes_clamp (number : control.isNaN = false) :
    Denotes (clamp control) (max 0 (min 100 (valueOf control))) := by
  have below := lt_iff number denotes_zero.isNaN
  have above := lt_iff denotes_hundred.isNaN number
  rw [denotes_zero.value] at below
  rw [denotes_hundred.value] at above
  rw [clamp, if_neg (by rw [number]; decide)]
  split
  next negative =>
    rw [max_eq_left (min_le_of_right_le (below.mp negative).le)]
    exact denotes_zero
  next nonnegative =>
    have low := not_lt.mp (below.not.mp nonnegative)
    split
    next large =>
      rw [min_eq_left (above.mp large).le, max_eq_right (by norm_num)]
      exact denotes_hundred
    next small =>
      have high := not_lt.mp (above.not.mp small)
      have limit := (abs_lt.mp (abs_valueOf_lt denotes_hundred.isFinite)).2
      rw [denotes_hundred.value] at limit
      rw [min_eq_right high, max_eq_right low]
      exact ⟨isFinite_of_abs_lt number (by rw [abs_of_nonneg low]; exact high.trans_lt limit), rfl⟩

/-- The control between 0 and 100 that a control stands for, as a rational number. -/
def level (control : Float) : ℚ :=
  valueOf (clamp control)

theorem level_of_isNaN (h : control.isNaN = true) : level control = 0 := by
  rw [level, clamp_of_isNaN h, denotes_zero.value]

theorem level_eq (number : control.isNaN = false) :
    level control = max 0 (min 100 (valueOf control)) :=
  (denotes_clamp number).value

theorem denotes_level (control : Float) : Denotes (clamp control) (level control) := by
  refine ⟨?_, rfl⟩
  cases number : control.isNaN with
  | true =>
    rw [clamp_of_isNaN number]
    exact denotes_zero.isFinite
  | false => exact (denotes_clamp number).isFinite

theorem level_bounds (control : Float) : 0 ≤ level control ∧ level control ≤ 100 := by
  cases number : control.isNaN with
  | true =>
    rw [level_of_isNaN number]
    norm_num
  | false =>
    rw [level_eq number]
    exact ⟨le_max_left .., max_le (by norm_num) (min_le_left ..)⟩

theorem level_mono (h : control ≤ control') : level control ≤ level control' := by
  obtain ⟨number, number'⟩ := isNaN_of_le h
  rw [level_eq number, level_eq number']
  exact max_le_max le_rfl (min_le_min le_rfl ((le_iff number number').mp h))

theorem level_eq_zero (h : control.isNaN = true ∨ control ≤ 0) : level control = 0 := by
  obtain none | low := h
  · exact level_of_isNaN none
  · obtain ⟨number, number'⟩ := isNaN_of_le low
    rw [le_iff number number', denotes_zero.value] at low
    rw [level_eq number, max_eq_left (min_le_of_right_le low)]

theorem level_eq_hundred_iff : level control = 100 ↔ 100 ≤ control := by
  cases number : control.isNaN with
  | true =>
    rw [level_of_isNaN number]
    refine iff_of_false (by norm_num) fun h => ?_
    rw [(isNaN_of_le h).2] at number
    cases number
  | false =>
    rw [level_eq number, le_iff denotes_hundred.isNaN number, denotes_hundred.value, max_eq_iff,
      min_eq_iff]
    constructor
    · rintro (⟨impossible, -⟩ | ⟨⟨-, h⟩ | ⟨h, -⟩, -⟩)
      · norm_num at impossible
      · exact h
      · exact h.ge
    · intro h
      exact .inr ⟨.inl ⟨rfl, h⟩, le_min (by norm_num) (le_trans (by norm_num) h)⟩

theorem clamp_beq_iff : (clamp control == 100) = true ↔ 100 ≤ control := by
  rw [(denotes_level control).beq_iff denotes_hundred, level_eq_hundred_iff]

theorem toParameter_of_le (h : 100 ≤ control) : toParameter control range = range.max := by
  rw [toParameter, if_pos (clamp_beq_iff.mpr h)]

/-- Below 100 the width of the interval is a factor of the result, so it has to be a double. -/
theorem toParameter_not_isFinite (width : range.span.isFinite = false) (h : ¬ 100 ≤ control) :
    (toParameter control range).isFinite = false := by
  rw [toParameter, if_neg (clamp_beq_iff.not.mpr h)]
  exact isFinite_add_of_right (isFinite_mul_of_right width)

theorem denotes_toParameter (bounded : range.isFinite = true) (width : range.span.isFinite = true)
    (control : Float) :
    Denotes (toParameter control range) (position range.low range.high (level control)) := by
  obtain ⟨hmin, hmax⟩ := Interval.denotes_ends bounded
  have hc := denotes_level control
  obtain ⟨low, high⟩ := level_bounds control
  by_cases top : 100 ≤ control
  · rw [toParameter_of_le top, level_eq_hundred_iff.mpr top, position_hundred]
    exact hmax
  have ne := level_eq_hundred_iff.not.mpr top
  rw [toParameter, if_neg (clamp_beq_iff.not.mpr top), position, if_neg ne]
  -- the fraction, its product with the width and the sum are rounded one after the other
  have fraction := (hc.div denotes_hundred (by norm_num)).between denotes_zero hc
    (by positivity) (by linarith)
  have f0 : 0 ≤ rounded (level control / 100) := rounded_nonneg (by positivity)
  have f1 := fraction_le hc.representable (high.lt_of_ne ne)
  have span := (Interval.rounds_span bounded).denotes width
  have product : Denotes (clamp control / 100 * range.span)
      (offset (range.high - range.low) (rounded (level control / 100))) := by
    rcases le_total 0 (rounded (range.high - range.low)) with up | down
    · exact (fraction.mul span).between denotes_zero span (by positivity)
        (mul_le_of_le_one_left up (by linarith))
    · exact (fraction.mul span).between span denotes_zero (by nlinarith) (by nlinarith)
  have inside := offset_between (Interval.placed_width bounded) f0 f1
  obtain ⟨h, h'⟩ | ⟨h, h'⟩ := inside
  · exact (hmin.add product).between hmin hmax (by linarith) (by linarith)
  · exact (hmin.add product).between hmax hmin (by linarith) (by linarith)

end Values

/-- The control runs over a range from end to end, in order, and never leaves it. -/
structure Sweeps (range : Interval) : Prop where
  inside : ∀ control, (toParameter control range).isFinite = true ∧
    (range.min ≤ toParameter control range ∧ toParameter control range ≤ range.max ∨
      range.max ≤ toParameter control range ∧ toParameter control range ≤ range.min)
  start : ∀ control, control.isNaN = true ∨ control ≤ 0 →
    (toParameter control range == range.min) = true
  finish : ∀ control, 100 ≤ control → toParameter control range = range.max
  rising : range.min ≤ range.max → ∀ control control', control ≤ control' →
    toParameter control range ≤ toParameter control' range
  falling : range.max ≤ range.min → ∀ control control', control ≤ control' →
    toParameter control' range ≤ toParameter control range

theorem sweeps_of_width {range : Interval} (bounded : range.isFinite = true)
    (width : range.span.isFinite = true) : Sweeps range := by
  obtain ⟨hmin, hmax⟩ := Interval.denotes_ends bounded
  have rm := hmin.representable
  have rM := hmax.representable
  have value := denotes_toParameter bounded width
  constructor
  case inside =>
    intro control
    obtain ⟨low, high⟩ := level_bounds control
    have here := value control
    rw [hmin.le_iff here, here.le_iff hmax, hmax.le_iff here,
      here.le_iff hmin]
    exact ⟨here.isFinite, position_between rm rM (denotes_level control).representable low high⟩
  case start =>
    intro control h
    rw [(value control).beq_iff hmin, level_eq_zero h, position_zero rm]
  case finish => exact fun control => toParameter_of_le
  case rising =>
    intro order control control' h
    rw [(value control).le_iff (value control')]
    exact position_mono rm rM ((hmin.le_iff hmax).mp order) (denotes_level control).representable
      (level_bounds control).1 (level_mono h) (level_bounds control').2
  case falling =>
    intro order control control' h
    rw [(value control').le_iff (value control)]
    exact position_anti rm rM ((hmax.le_iff hmin).mp order) (denotes_level control).representable
      (level_bounds control).1 (level_mono h) (level_bounds control').2

/-- The control sweeps a range with finite ends if the width is a double. If it is none, the upper end
is all that is left: no control below 100 gives a finite value, and neither does one that is no
number. -/
theorem sweeps_or_overflows {range : Interval} (bounded : range.isFinite = true) :
    (range.span.isFinite = true → Sweeps range) ∧
      (range.span.isFinite = false → ∀ control,
        (100 ≤ control → toParameter control range = range.max) ∧
          (¬ 100 ≤ control → (toParameter control range).isFinite = false)) :=
  ⟨sweeps_of_width bounded, fun width _ => ⟨toParameter_of_le, toParameter_not_isFinite width⟩⟩

/-- A range that is crossed downward. -/
theorem sweeps_reversed :
    let range : Interval := ⟨5, 1⟩
    range.isFinite = true ∧ range.span.isFinite = true ∧ Sweeps range := by
  have bounded : (⟨5, 1⟩ : Interval).isFinite = true := by decide +kernel
  have width : (⟨5, 1⟩ : Interval).span.isFinite = true := by decide +kernel
  exact ⟨bounded, width, (sweeps_or_overflows bounded).1 width⟩

/-- A range whose width is no double has no parameter value at the start of the control. -/
theorem exists_not_sweeps :
    ∃ range : Interval, range.isFinite = true ∧ (toParameter 0 range).isNaN = true ∧
      ¬ Sweeps range := by
  refine ⟨⟨-1e308, 1e308⟩, by decide +kernel, by decide +kernel, fun h => ?_⟩
  have finite := (h.inside 0).1
  revert finite
  decide +kernel

end LessonPlot.Control
