import Mathlib.Data.Int.Log
import Mathlib.Data.Rat.Floor
import Mathlib.Tactic.FieldSimp
import Mathlib.Tactic.Linarith
import Mathlib.Tactic.Positivity

namespace LessonPlot

/-- The whole number nearest to a rational one, of two the even one. -/
def nearestEven (x : ℚ) : ℤ :=
  if Int.fract x < 1 / 2 then ⌊x⌋
  else if 1 / 2 < Int.fract x then ⌊x⌋ + 1
  else ⌊x⌋ + ⌊x⌋ % 2

theorem nearestEven_intCast (n : ℤ) : nearestEven n = n := by
  simp [nearestEven]

theorem floor_le_nearestEven (x : ℚ) : ⌊x⌋ ≤ nearestEven x := by
  unfold nearestEven
  split_ifs <;> omega

theorem nearestEven_le_floor_add_one (x : ℚ) : nearestEven x ≤ ⌊x⌋ + 1 := by
  unfold nearestEven
  split_ifs <;> omega

theorem nearestEven_mono {x y : ℚ} (h : x ≤ y) : nearestEven x ≤ nearestEven y := by
  rcases (Int.floor_mono h).lt_or_eq with hlt | heq
  · have hx := nearestEven_le_floor_add_one x
    have hy := floor_le_nearestEven y
    omega
  · have hf : Int.fract x ≤ Int.fract y := by
      rw [Int.fract, Int.fract, heq]
      linarith
    unfold nearestEven
    rw [heq]
    split_ifs <;> first | omega | linarith

theorem abs_nearestEven_sub_le (x : ℚ) : |(nearestEven x : ℚ) - x| ≤ 1 / 2 := by
  have hx : x = ⌊x⌋ + Int.fract x := (Int.floor_add_fract x).symm
  have h0 := Int.fract_nonneg x
  have h1 := Int.fract_lt_one x
  rw [abs_le]
  unfold nearestEven
  split_ifs with below above
  · constructor <;> linarith
  · push_cast
    constructor <;> linarith
  · have half : Int.fract x = 1 / 2 := le_antisymm (not_lt.mp above) (not_lt.mp below)
    rcases Int.emod_two_eq_zero_or_one ⌊x⌋ with parity | parity <;> rw [parity] <;> push_cast <;>
      constructor <;> linarith

theorem nearestEven_neg (x : ℚ) : nearestEven (-x) = -nearestEven x := by
  by_cases whole : Int.fract x = 0
  · have hx : x = (⌊x⌋ : ℤ) := by
      have h := Int.floor_add_fract x
      rw [whole, add_zero] at h
      exact h.symm
    rw [hx, ← Int.cast_neg, nearestEven_intCast, nearestEven_intCast]
  · have hf : Int.fract (-x) = 1 - Int.fract x := Int.fract_neg whole
    have floor : ⌊-x⌋ = -⌊x⌋ - 1 := by
      have h := Int.self_sub_floor (-x)
      have h' := Int.self_sub_floor x
      have hc : ((⌊-x⌋ : ℤ) : ℚ) = ((-⌊x⌋ - 1 : ℤ) : ℚ) := by
        push_cast
        linarith
      exact_mod_cast hc
    unfold nearestEven
    rw [hf, floor]
    split_ifs <;> first | omega | linarith

theorem nearestEven_le_of_le {x : ℚ} {n : ℤ} (h : x ≤ n) : nearestEven x ≤ n :=
  nearestEven_intCast n ▸ nearestEven_mono h

theorem le_nearestEven_of_le {x : ℚ} {n : ℤ} (h : (n : ℚ) ≤ x) : n ≤ nearestEven x :=
  nearestEven_intCast n ▸ nearestEven_mono h

theorem nearestEven_nonneg {x : ℚ} (h : 0 ≤ x) : 0 ≤ nearestEven x :=
  le_nearestEven_of_le (by exact_mod_cast h)

/-- The exponent of the last binary place that a double has for numbers of this size. -/
def placeExponent (x : ℚ) : ℤ :=
  max (Int.log 2 |x| - 52) (-1074)

/-- The whole multiple of the last place that is nearest to a number. -/
def significand (x : ℚ) : ℤ :=
  nearestEven (x / 2 ^ placeExponent x)

/-- The double nearest to a rational number if exponents had no upper bound, of two the one with an
even significand. -/
def rounded (x : ℚ) : ℚ :=
  significand x * 2 ^ placeExponent x

/-- The numbers of at most 53 binary places, none of them beyond the last place of a subnormal
number. -/
def Representable (x : ℚ) : Prop :=
  ∃ (significand exponent : ℤ), |significand| ≤ 2 ^ 53 ∧ -1074 ≤ exponent ∧
    x = significand * 2 ^ exponent

theorem Representable.neg {x : ℚ} (h : Representable x) : Representable (-x) := by
  obtain ⟨m, e, small, he, rfl⟩ := h
  exact ⟨-m, e, by rwa [abs_neg], he, by rw [Int.cast_neg, neg_mul]⟩

theorem two_zpow_pos (e : ℤ) : (0 : ℚ) < 2 ^ e :=
  zpow_pos (by norm_num) e

theorem two_zpow_le {a b : ℤ} (h : a ≤ b) : (2 : ℚ) ^ a ≤ 2 ^ b :=
  zpow_le_zpow_right₀ (by norm_num) h

theorem two_zpow_add (a b : ℤ) : (2 : ℚ) ^ (a + b) = 2 ^ a * 2 ^ b :=
  zpow_add₀ (by norm_num) a b

theorem placeExponent_neg (x : ℚ) : placeExponent (-x) = placeExponent x := by
  rw [placeExponent, placeExponent, abs_neg]

theorem placeExponent_ge (x : ℚ) : -1074 ≤ placeExponent x :=
  le_max_right _ _

theorem placeExponent_mono {x y : ℚ} (hx : 0 < x) (h : x ≤ y) :
    placeExponent x ≤ placeExponent y := by
  have hlog : Int.log 2 |x| ≤ Int.log 2 |y| := by
    rw [abs_of_pos hx, abs_of_pos (hx.trans_le h)]
    exact Int.log_mono_right hx h
  unfold placeExponent
  omega

/-- No number has more than 53 binary places up to its last one. -/
theorem abs_lt_two_zpow (x : ℚ) : |x| < 2 ^ 53 * 2 ^ placeExponent x := by
  have h : |x| < 2 ^ (Int.log 2 |x| + 1) := by
    exact_mod_cast Int.lt_zpow_succ_log_self (by norm_num : 1 < 2) |x|
  refine h.trans_le ((two_zpow_le (b := 53 + placeExponent x) ?_).trans_eq (two_zpow_add _ _))
  unfold placeExponent
  omega

/-- A number that is not subnormal has all 53 binary places up to its last one. -/
theorem two_zpow_le_abs {x : ℚ} (hx : x ≠ 0) (h : -1074 < placeExponent x) :
    2 ^ 52 * 2 ^ placeExponent x ≤ |x| := by
  have hlog : (2 : ℚ) ^ Int.log 2 |x| ≤ |x| := by
    exact_mod_cast Int.zpow_log_le_self (by norm_num : 1 < 2) (abs_pos.mpr hx)
  refine ((two_zpow_add 52 _).symm.trans_le (two_zpow_le ?_)).trans hlog
  unfold placeExponent at h ⊢
  omega

theorem placeExponent_le {x : ℚ} {e : ℤ} (hx : x ≠ 0) (he : -1074 ≤ e) (h : |x| < 2 ^ 53 * 2 ^ e) :
    placeExponent x ≤ e := by
  have hlog : Int.log 2 |x| < 53 + e := by
    refine (Int.lt_zpow_iff_log_lt (by norm_num : 1 < 2) (abs_pos.mpr hx)).mp ?_
    push_cast
    rw [two_zpow_add]
    exact_mod_cast h
  unfold placeExponent
  omega

theorem le_placeExponent {x : ℚ} {e : ℤ} (h : 2 ^ 52 * 2 ^ e ≤ |x|) : e ≤ placeExponent x := by
  have hx : 0 < |x| := lt_of_lt_of_le (by have := two_zpow_pos e; positivity) h
  have hlog : 52 + e ≤ Int.log 2 |x| := by
    refine (Int.zpow_le_iff_le_log (by norm_num : 1 < 2) hx).mp ?_
    push_cast
    rw [two_zpow_add]
    exact_mod_cast h
  unfold placeExponent
  omega

theorem abs_significand_le (x : ℚ) : |significand x| ≤ 2 ^ 53 := by
  have hpos := two_zpow_pos (placeExponent x)
  have hx := abs_lt_two_zpow x
  rw [abs_lt] at hx
  rw [abs_le]
  constructor
  · refine le_nearestEven_of_le ?_
    rw [le_div_iff₀ hpos]
    push_cast
    linarith
  · refine nearestEven_le_of_le ?_
    rw [div_le_iff₀ hpos]
    push_cast
    linarith

theorem le_significand {x : ℚ} (hx : 0 < x) (h : -1074 < placeExponent x) :
    2 ^ 52 ≤ significand x := by
  have normal := two_zpow_le_abs hx.ne' h
  rw [abs_of_pos hx] at normal
  refine le_nearestEven_of_le ?_
  rw [le_div_iff₀ (two_zpow_pos _)]
  exact_mod_cast normal

theorem significand_nonneg {x : ℚ} (h : 0 ≤ x) : 0 ≤ significand x := by
  have hpos := two_zpow_pos (placeExponent x)
  exact nearestEven_nonneg (by positivity)

theorem rounded_zero : rounded 0 = 0 := by
  rw [rounded, significand, zero_div, show (0 : ℚ) = ((0 : ℤ) : ℚ) by norm_num, nearestEven_intCast]
  simp

theorem rounded_neg (x : ℚ) : rounded (-x) = -rounded x := by
  rw [rounded, rounded, significand, significand, placeExponent_neg, neg_div, nearestEven_neg,
    Int.cast_neg, neg_mul]

/-- A number that ends at its last place or before it is not rounded. -/
theorem rounded_of_place_le {m e : ℤ} (h : placeExponent (m * 2 ^ e) ≤ e) :
    rounded (m * 2 ^ e) = m * 2 ^ e := by
  obtain ⟨k, hk⟩ := Int.le.dest h
  generalize hp : placeExponent (m * 2 ^ e) = p at h hk
  have hpos := two_zpow_pos p
  have hx : (m : ℚ) * 2 ^ e = (m * 2 ^ k : ℤ) * 2 ^ p := by
    rw [← hk, two_zpow_add, zpow_natCast]
    push_cast
    ring
  rw [rounded, significand, hp, hx, mul_div_cancel_right₀ _ hpos.ne', nearestEven_intCast]

theorem rounded_of_representable {x : ℚ} (h : Representable x) : rounded x = x := by
  obtain ⟨m, e, hm, he, rfl⟩ := h
  by_cases hx : (m : ℚ) * 2 ^ e = 0
  · rw [hx, rounded_zero]
  have hpos := two_zpow_pos e
  have habs : |(m : ℚ) * 2 ^ e| = |m| * 2 ^ e := by
    rw [abs_mul, abs_of_pos hpos, Int.cast_abs]
  rcases hm.lt_or_eq with hlt | heq
  · refine rounded_of_place_le (placeExponent_le hx he ?_)
    rw [habs]
    have : ((|m| : ℤ) : ℚ) < 2 ^ 53 := by exact_mod_cast hlt
    gcongr
  · -- a significand that takes 54 places ends in a zero
    obtain ⟨n, rfl⟩ : ∃ n : ℤ, m = n * 2 := by
      rcases abs_eq (by norm_num) |>.mp heq with rfl | rfl
      · exact ⟨2 ^ 52, by norm_num⟩
      · exact ⟨-2 ^ 52, by norm_num⟩
    have shifted : ((n * 2 : ℤ) : ℚ) * 2 ^ e = n * 2 ^ (e + 1) := by
      rw [two_zpow_add]
      push_cast
      ring
    rw [shifted] at hx habs ⊢
    refine rounded_of_place_le (placeExponent_le hx (by omega) ?_)
    rw [habs, heq, two_zpow_add]
    push_cast
    linarith

theorem representable_rounded (x : ℚ) : Representable (rounded x) :=
  ⟨significand x, placeExponent x, abs_significand_le x, placeExponent_ge x, rfl⟩

theorem rounded_rounded (x : ℚ) : rounded (rounded x) = rounded x :=
  rounded_of_representable (representable_rounded x)

theorem rounded_nonneg {x : ℚ} (h : 0 ≤ x) : 0 ≤ rounded x := by
  have hpos := two_zpow_pos (placeExponent x)
  have hs : (0 : ℚ) ≤ significand x := by exact_mod_cast significand_nonneg h
  exact mul_nonneg hs hpos.le

/-- Rounding keeps the order of positive numbers, also of two with their last places apart: all
53 places lie between what the two are rounded to. -/
theorem rounded_mono_of_pos {x y : ℚ} (hx : 0 < x) (h : x ≤ y) : rounded x ≤ rounded y := by
  rcases (placeExponent_mono hx h).lt_or_eq with hlt | heq
  · have hge := placeExponent_ge x
    have above : (2 : ℚ) ^ 52 ≤ significand y := by
      exact_mod_cast le_significand (hx.trans_le h) (by omega)
    have below : (significand x : ℚ) ≤ 2 ^ 53 := by
      exact_mod_cast (le_abs_self _).trans (abs_significand_le x)
    have hpx := two_zpow_pos (placeExponent x)
    have hpy := two_zpow_pos (placeExponent y)
    have step : (2 : ℚ) ^ placeExponent x * 2 ≤ 2 ^ placeExponent y := by
      have hle := two_zpow_le (show placeExponent x + 1 ≤ placeExponent y by omega)
      rwa [two_zpow_add, zpow_one] at hle
    calc rounded x ≤ 2 ^ 53 * 2 ^ placeExponent x := by
          unfold rounded
          gcongr
      _ = 2 ^ 52 * (2 ^ placeExponent x * 2) := by ring
      _ ≤ 2 ^ 52 * 2 ^ placeExponent y := by gcongr
      _ ≤ rounded y := by
          unfold rounded
          gcongr
  · have hpos := two_zpow_pos (placeExponent y)
    have hn : significand x ≤ significand y := by
      rw [significand, significand, heq]
      exact nearestEven_mono (by gcongr)
    have hs : (significand x : ℚ) ≤ significand y := by exact_mod_cast hn
    rw [rounded, rounded, heq]
    gcongr

theorem rounded_mono {x y : ℚ} (h : x ≤ y) : rounded x ≤ rounded y := by
  rcases lt_or_ge 0 x with hx | hx
  · exact rounded_mono_of_pos hx h
  rcases lt_or_ge y 0 with hy | hy
  · have hn := rounded_mono_of_pos (neg_pos.mpr hy) (neg_le_neg h)
    rw [rounded_neg, rounded_neg] at hn
    linarith
  · have hxn := rounded_nonneg (neg_nonneg.mpr hx)
    rw [rounded_neg] at hxn
    have hyn := rounded_nonneg hy
    linarith

theorem rounded_le {x z : ℚ} (hz : Representable z) (h : x ≤ z) : rounded x ≤ z :=
  rounded_of_representable hz ▸ rounded_mono h

theorem le_rounded {x z : ℚ} (hz : Representable z) (h : z ≤ x) : z ≤ rounded x :=
  rounded_of_representable hz ▸ rounded_mono h

end LessonPlot
