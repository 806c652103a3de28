import LessonPlot.Interval
import LessonPlot.Proofs.Float.Error
import LessonPlot.Proofs.Float.Order

namespace LessonPlot.Interval

variable {range : Interval}

theorem isFinite_of_isProper (proper : range.isProper = true) : range.isFinite = true := by
  rw [isProper, Bool.and_eq_true] at proper
  exact proper.1

/-- The lower end of an interval as a rational number. -/
def low (range : Interval) : ℚ :=
  valueOf range.min

/-- The upper end of an interval as a rational number. -/
def high (range : Interval) : ℚ :=
  valueOf range.max

theorem denotes_ends (h : range.isFinite = true) :
    Denotes range.min range.low ∧ Denotes range.max range.high := by
  rw [isFinite, Bool.and_eq_true] at h
  exact ⟨⟨h.1, rfl⟩, h.2, rfl⟩

theorem low_lt_high (proper : range.isProper = true) : range.low < range.high := by
  obtain ⟨hmin, hmax⟩ := denotes_ends (isFinite_of_isProper proper)
  rw [isProper, Bool.and_eq_true, decide_eq_true_eq, lt_iff hmin.isNaN hmax.isNaN] at proper
  exact proper.2

theorem rounds_span (h : range.isFinite = true) : Rounds range.span (range.high - range.low) :=
  (denotes_ends h).2.sub (denotes_ends h).1

theorem placed_width (h : range.isFinite = true) : Placed (range.high - range.low) :=
  (denotes_ends h).2.representable.placed.sub (denotes_ends h).1.representable.placed

/-- An interval whose width is no double has zero inside. -/
theorem zero_inside (proper : range.isProper = true) (width : range.span.isFinite = false) :
    range.low < 0 ∧ 0 < range.high := by
  have bounded := isFinite_of_isProper proper
  obtain ⟨hmin, hmax⟩ := denotes_ends bounded
  have ordered := low_lt_high proper
  have nonnegative : 0 ≤ rounded (range.high - range.low) := rounded_nonneg (by linarith)
  have hmin' := (abs_lt.mp (abs_valueOf_lt hmin.isFinite)).1
  have hmax' := (abs_lt.mp (abs_valueOf_lt hmax.isFinite)).2
  rw [hmin.value] at hmin'
  rw [hmax.value] at hmax'
  have large : overflow ≤ rounded (range.high - range.low) := by
    refine le_of_not_gt fun small => ?_
    have finite := (rounds_span bounded).isFinite_iff.mpr (by rwa [abs_of_nonneg nonnegative])
    rw [width] at finite
    cases finite
  constructor
  · refine lt_of_not_ge fun above => ?_
    have small : rounded (range.high - range.low) ≤ range.high :=
      rounded_le hmax.representable (by linarith)
    linarith
  · refine lt_of_not_ge fun below => ?_
    have small : rounded (range.high - range.low) ≤ -range.low :=
      rounded_le hmin.representable.neg (by linarith)
    linarith

theorem span_ne_zero (proper : range.isProper = true) : (range.span == 0) = false := by
  refine Bool.eq_false_iff.mpr fun h => ?_
  have bounded := isFinite_of_isProper proper
  obtain ⟨number, number'⟩ := isNaN_of_beq h
  have zero : valueOf range.span = 0 :=
    ((beq_iff number number').mp h).trans denotes_zero.value
  have width : range.span.isFinite = true :=
    isFinite_of_abs_lt number (by rw [zero, abs_zero]; exact overflow_pos)
  have pos := (placed_width bounded).rounded_pos (sub_pos.mpr (low_lt_high proper))
  rw [← (rounds_span bounded).value width, zero] at pos
  exact lt_irrefl _ pos

end LessonPlot.Interval
