import LessonPlot.Proofs.Float.Nearest

namespace LessonPlot

theorem abs_rounded_sub_le (x : ℚ) : |rounded x - x| ≤ 2 ^ placeExponent x / 2 := by
  have hpos := two_zpow_pos (placeExponent x)
  have hn := abs_nearestEven_sub_le (x / 2 ^ placeExponent x)
  have hx : x = x / 2 ^ placeExponent x * 2 ^ placeExponent x := by field_simp
  calc |rounded x - x|
      = |(significand x - x / 2 ^ placeExponent x) * 2 ^ placeExponent x| := by
        rw [rounded, sub_mul, ← hx]
    _ = |(significand x : ℚ) - x / 2 ^ placeExponent x| * 2 ^ placeExponent x := by
        rw [abs_mul, abs_of_pos hpos]
    _ ≤ 1 / 2 * 2 ^ placeExponent x := by
        unfold significand
        gcongr
    _ = 2 ^ placeExponent x / 2 := by ring

/-- The smallest positive double, one unit of the last place of a subnormal number. -/
def smallest : ℚ :=
  2 ^ (-1074 : ℤ)

theorem smallest_pos : 0 < smallest :=
  two_zpow_pos _

/-- The numbers with no binary place beyond the last one of a subnormal number. -/
def Placed (x : ℚ) : Prop :=
  ∃ k : ℤ, x = k * smallest

theorem Representable.placed {x : ℚ} (h : Representable x) : Placed x := by
  obtain ⟨m, e, -, he, rfl⟩ := h
  obtain ⟨k, rfl⟩ := Int.le.dest he
  refine ⟨m * 2 ^ k, ?_⟩
  rw [two_zpow_add, zpow_natCast, smallest, Int.cast_mul, Int.cast_pow, Int.cast_ofNat]
  ac_rfl

theorem Placed.neg {x : ℚ} (h : Placed x) : Placed (-x) := by
  obtain ⟨k, rfl⟩ := h
  exact ⟨-k, by rw [Int.cast_neg, neg_mul]⟩

theorem Placed.sub {x y : ℚ} (hx : Placed x) (hy : Placed y) : Placed (x - y) := by
  obtain ⟨j, rfl⟩ := hx
  obtain ⟨k, rfl⟩ := hy
  exact ⟨j - k, by push_cast; ring⟩

theorem Placed.mul_natCast {x : ℚ} (hx : Placed x) (n : ℕ) : Placed (x * n) := by
  obtain ⟨k, rfl⟩ := hx
  exact ⟨k * n, by push_cast; ring⟩

/-- A subnormal number is exact if it is placed at all, and so is the next power of two. -/
theorem Placed.representable {x : ℚ} (h : Placed x) (small : |x| ≤ 2 ^ 53 * smallest) :
    Representable x := by
  obtain ⟨k, rfl⟩ := h
  refine ⟨k, -1074, ?_, le_rfl, rfl⟩
  rw [abs_mul, abs_of_pos smallest_pos] at small
  have hk := le_of_mul_le_mul_right small smallest_pos
  exact_mod_cast hk

theorem representable_smallest : Representable smallest :=
  ⟨1, -1074, by norm_num, le_rfl, by rw [Int.cast_one, one_mul, smallest]⟩

theorem Placed.rounded_pos {x : ℚ} (h : Placed x) (hx : 0 < x) : 0 < rounded x := by
  obtain ⟨k, rfl⟩ := h
  have hs := smallest_pos
  have hk : 1 ≤ k := by
    have : (0 : ℚ) < k := pos_of_mul_pos_left hx hs.le
    exact_mod_cast this
  have hk' : (1 : ℚ) ≤ k := by exact_mod_cast hk
  exact hs.trans_le (le_rounded representable_smallest (le_mul_of_one_le_left hs.le hk'))

/-- Rounding a normal number up adds at most half a unit of the 53rd place. -/
theorem rounded_le_mul {x : ℚ} (h : 2 ^ 52 * smallest ≤ x) :
    rounded x ≤ x * (1 + 1 / 2 ^ 53) := by
  have hs := smallest_pos
  have hx : 0 < x := lt_of_lt_of_le (by positivity) h
  have normal : 2 ^ 52 * 2 ^ placeExponent x ≤ x := by
    rcases (placeExponent_ge x).lt_or_eq with hlt | heq
    · exact (two_zpow_le_abs hx.ne' hlt).trans_eq (abs_of_pos hx)
    · rw [← heq]
      exact h
  have error := (abs_le.mp (abs_rounded_sub_le x)).2
  linarith

theorem Placed.rounded_le_mul {x : ℚ} (h : Placed x) (hx : 0 ≤ x) :
    rounded x ≤ x * (1 + 1 / 2 ^ 53) := by
  have hs := smallest_pos
  rcases le_total (2 ^ 52 * smallest) x with normal | subnormal
  · exact LessonPlot.rounded_le_mul normal
  · have exact : Representable x := by
      refine h.representable ?_
      rw [abs_of_nonneg hx]
      linarith
    rw [rounded_of_representable exact]
    linarith

/-- What falls short of a normal number by half a unit of the 53rd place is not rounded up to it. -/
theorem rounded_lt {x z : ℚ} (hz : 2 ^ 52 * smallest < z) (h : x ≤ z * (1 - 1 / 2 ^ 53)) :
    rounded x < z := by
  have hs := smallest_pos
  rcases le_total (2 ^ 52 * smallest) x with normal | subnormal
  · have hz0 : 0 < z := lt_trans (by positivity) hz
    calc rounded x ≤ x * (1 + 1 / 2 ^ 53) := rounded_le_mul normal
      _ ≤ z * (1 - 1 / 2 ^ 53) * (1 + 1 / 2 ^ 53) := by gcongr
      _ = z * (1 - 1 / 2 ^ 106) := by ring
      _ < z := by nlinarith
  · have least : Representable (2 ^ 52 * smallest) :=
      ⟨2 ^ 52, -1074, by norm_num, le_rfl, by rw [smallest]; norm_cast⟩
    exact (rounded_le least subnormal).trans_lt hz

/-- What falls short of a rounded number by half a unit of the 53rd place is rounded to no more than
that number was before it was rounded. -/
theorem Placed.rounded_le {d x : ℚ} (hd : Placed d) (h0 : 0 ≤ d)
    (h : x ≤ rounded d * (1 - 1 / 2 ^ 53)) : rounded x ≤ d := by
  have hr := rounded_nonneg h0
  have hs := smallest_pos
  rcases le_or_gt (rounded d) d with down | up
  · refine (LessonPlot.rounded_le (representable_rounded d) ?_).trans down
    nlinarith
  · -- a number that is rounded up is not subnormal
    have normal : 2 ^ 52 * smallest < rounded d := by
      refine lt_of_not_ge fun small => up.ne' ?_
      refine rounded_of_representable (hd.representable ?_)
      rw [abs_of_nonneg h0]
      linarith
    refine le_of_not_gt fun above => (rounded_lt normal h).not_ge ?_
    exact rounded_rounded x ▸ rounded_mono above.le

/-- A representable number has no places beyond its last one. -/
theorem Representable.exists_eq_mul {x : ℚ} (h : Representable x) {e : ℤ}
    (he : e ≤ placeExponent x) : ∃ k : ℤ, x = k * 2 ^ e := by
  obtain ⟨n, hn⟩ := Int.le.dest he
  refine ⟨significand x * 2 ^ n, ?_⟩
  calc x = significand x * 2 ^ placeExponent x := (rounded_of_representable h).symm
    _ = significand x * (2 ^ e * 2 ^ n) := by rw [← zpow_natCast, ← two_zpow_add, hn]
    _ = (significand x * 2 ^ n : ℤ) * 2 ^ e := by
        push_cast
        ring

end LessonPlot
