import LessonPlot.Proofs.Float.Nearest
import Mathlib

open Float.Model Float.Model.UnpackedFloat

namespace LessonPlot

section Bits

variable {em : ExtendedMantissa} {x : ℚ}

/-- A mantissa with its residual bits tells where a number lies between two whole ones. -/
structure Locates (em : ExtendedMantissa) (x : ℚ) : Prop where
  mantissa : ⌊x⌋ = em.mantissa
  roundBit : em.roundBit = true ↔ 1 / 2 ≤ Int.fract x
  stickyBit : em.stickyBit = true ↔ Int.fract x ≠ 0 ∧ Int.fract x ≠ 1 / 2

theorem locates_of_exact (m : ℕ) : Locates (.ofMantissaAndAccuracy m .exact) m :=
  ⟨by simp [ExtendedMantissa.ofMantissaAndAccuracy],
    by simp [ExtendedMantissa.ofMantissaAndAccuracy],
    by simp [ExtendedMantissa.ofMantissaAndAccuracy]⟩

theorem floor_quotient (a b : ℕ) : ⌊(a : ℚ) / b⌋ = (a / b : ℕ) :=
  Rat.floor_natCast_div_natCast a b

/-- The remainder of a division gives the residual bits of the quotient. -/
theorem locates_quotient (a : ℕ) {b : ℕ} (hb : 0 < b) :
    Locates (.ofMantissaAndAccuracy (a / b) (accuracyOfFraction (a % b) b)) ((a : ℚ) / b) := by
  have hb' : (0 : ℚ) < b := by exact_mod_cast hb
  have floor := floor_quotient a b
  have fract : Int.fract ((a : ℚ) / b) = (a % b : ℕ) / b := by
    have hf := Int.floor_add_fract ((a : ℚ) / b)
    have hq : (a : ℚ) = b * (a / b : ℕ) + (a % b : ℕ) := by exact_mod_cast (Nat.div_add_mod a b).symm
    rw [floor, Int.cast_natCast] at hf
    rw [eq_div_iff hb'.ne', ← sub_eq_iff_eq_add'.mpr hf.symm, sub_mul, div_mul_cancel₀ _ hb'.ne']
    linarith
  generalize a % b = r at fract
  have zero : Int.fract ((a : ℚ) / b) = 0 ↔ r = 0 := by
    rw [fract, div_eq_zero_iff, or_iff_left hb'.ne', Nat.cast_eq_zero]
  have half : Int.fract ((a : ℚ) / b) = 1 / 2 ↔ 2 * r = b := by
    rw [fract, div_eq_div_iff hb'.ne' two_ne_zero, one_mul, mul_comm]
    exact_mod_cast Iff.rfl
  have above : 1 / 2 ≤ Int.fract ((a : ℚ) / b) ↔ b ≤ 2 * r := by
    rw [fract, div_le_div_iff₀ two_pos hb', one_mul, mul_comm]
    exact_mod_cast Iff.rfl
  unfold accuracyOfFraction
  split
  next exact =>
    subst exact
    refine ⟨floor, ?_, ?_⟩
    · rw [above]
      simpa [ExtendedMantissa.ofMantissaAndAccuracy] using hb.ne'
    · rw [ne_eq, zero]
      simp [ExtendedMantissa.ofMantissaAndAccuracy]
  next inexact =>
    rcases lt_trichotomy (2 * r) b with lt | eq | gt
    · rw [compare_lt_iff_lt.mpr lt]
      refine ⟨floor, ?_, ?_⟩
      · rw [above]
        simpa [ExtendedMantissa.ofMantissaAndAccuracy] using lt
      · rw [ne_eq, zero, ne_eq, half]
        simpa [ExtendedMantissa.ofMantissaAndAccuracy] using ⟨inexact, lt.ne⟩
    · rw [compare_eq_iff_eq.mpr eq]
      refine ⟨floor, ?_, ?_⟩
      · rw [above]
        simpa [ExtendedMantissa.ofMantissaAndAccuracy] using eq.ge
      · rw [ne_eq, zero, ne_eq, half]
        simpa [ExtendedMantissa.ofMantissaAndAccuracy] using fun _ => eq
    · rw [compare_gt_iff_gt.mpr gt]
      refine ⟨floor, ?_, ?_⟩
      · rw [above]
        simpa [ExtendedMantissa.ofMantissaAndAccuracy] using gt.le
      · rw [ne_eq, zero, ne_eq, half]
        simpa [ExtendedMantissa.ofMantissaAndAccuracy] using ⟨inexact, gt.ne'⟩

theorem Locates.roundedMantissa (h : Locates em x) : (em.roundedMantissa : ℤ) = nearestEven x := by
  obtain ⟨m, r, s⟩ := em
  obtain ⟨hm, hr, hs⟩ := h
  dsimp only at hm hr hs
  unfold nearestEven
  rw [hm]
  have h0 := Int.fract_nonneg x
  cases r with
  | false =>
    have below : Int.fract x < 1 / 2 := by simpa using hr
    rw [if_pos below]
    cases s <;> rfl
  | true =>
    have above : 1 / 2 ≤ Int.fract x := hr.mp rfl
    rw [if_neg (not_lt.mpr above)]
    cases s with
    | false =>
      have half : Int.fract x = 1 / 2 := by
        by_contra ne
        have hf : Int.fract x ≠ 0 := by
          intro zero
          rw [zero] at above
          norm_num at above
        exact Bool.false_ne_true (hs.mpr ⟨hf, ne⟩)
      rw [if_neg (not_lt.mpr half.le)]
      simp [ExtendedMantissa.roundedMantissa, ExtendedMantissa.accuracy,
        Accuracy.roundToNearestEven]
    | true =>
      rw [if_pos (lt_of_le_of_ne above (hs.mp rfl).2.symm)]
      simp [ExtendedMantissa.roundedMantissa, ExtendedMantissa.accuracy,
        Accuracy.roundToNearestEven]

/-- There is something beyond the mantissa if either residual bit says so. -/
theorem Locates.residue (h : Locates em x) :
    (em.roundBit || em.stickyBit) = true ↔ Int.fract x ≠ 0 := by
  rw [Bool.or_eq_true, h.roundBit, h.stickyBit]
  constructor
  · rintro (above | ⟨ne, -⟩)
    · intro zero
      rw [zero] at above
      norm_num at above
    · exact ne
  · intro ne
    rcases le_or_gt (1 / 2) (Int.fract x) with above | below
    · exact .inl above
    · exact .inr ⟨ne, below.ne⟩

/-- Shifting halves the number: the last bit of the mantissa becomes the round bit, and of the old
residual bits it only matters whether there was anything beyond. -/
theorem Locates.shiftRightOne (h : Locates em x) : Locates em.shiftRightOne (x / 2) := by
  have residue := h.residue
  have h0 := Int.fract_nonneg x
  have h1 := Int.fract_lt_one x
  have hx := Int.floor_add_fract x
  rw [h.mantissa, Int.cast_natCast] at hx
  have halves : (em.mantissa : ℚ) = 2 * (em.mantissa / 2 : ℕ) + (em.mantissa % 2 : ℕ) := by
    exact_mod_cast (Nat.div_add_mod em.mantissa 2).symm
  have floor : ⌊x / 2⌋ = (em.mantissa / 2 : ℕ) := by
    rw [Int.floor_eq_iff]
    rw [Int.cast_natCast]
    rcases Nat.mod_two_eq_zero_or_one em.mantissa with bit | bit <;> rw [bit] at halves
    · rw [Nat.cast_zero] at halves
      constructor <;> linarith
    · rw [Nat.cast_one] at halves
      constructor <;> linarith
  have fract : Int.fract (x / 2) = ((em.mantissa % 2 : ℕ) + Int.fract x) / 2 := by
    have hf := Int.floor_add_fract (x / 2)
    rw [floor, Int.cast_natCast] at hf
    linarith
  refine ⟨floor, ?_, ?_⟩
  · rw [fract]
    rcases Nat.mod_two_eq_zero_or_one em.mantissa with bit | bit
    · have below : ¬ 1 / 2 ≤ (((0 : ℕ) : ℚ) + Int.fract x) / 2 := by
        push_cast
        linarith
      simpa [ExtendedMantissa.shiftRightOne, bit] using below
    · have above : 1 / 2 ≤ (((1 : ℕ) : ℚ) + Int.fract x) / 2 := by
        push_cast
        linarith
      simpa [ExtendedMantissa.shiftRightOne, bit] using above
  · rw [ExtendedMantissa.shiftRightOne, residue, fract]
    rcases Nat.mod_two_eq_zero_or_one em.mantissa with bit | bit <;> rw [bit] <;> push_cast <;>
      constructor
    · intro ne
      exact ⟨fun zero => ne (by linarith), fun half => by linarith⟩
    · rintro ⟨ne, -⟩ zero
      exact ne (by rw [zero]; norm_num)
    · intro ne
      exact ⟨fun zero => by linarith, fun half => ne (by linarith)⟩
    · rintro ⟨-, ne⟩ zero
      exact ne (by rw [zero]; norm_num)

theorem Locates.shiftRight (h : Locates em x) (k : ℕ) : Locates (em >>> k) (x / 2 ^ k) := by
  induction k with
  | zero => simpa [HShiftRight.hShiftRight, Nat.repeat] using h
  | succ k ih =>
    have next := ih.shiftRightOne
    rw [div_div, ← pow_succ] at next
    exact next

end Bits

/-- A number with a sign. -/
def signed : Sign → ℚ → ℚ
  | .negative, x => -x
  | .positive, x => x

theorem rounded_signed (s : Sign) (x : ℚ) : rounded (signed s x) = signed s (rounded x) := by
  cases s with
  | negative => exact rounded_neg x
  | positive => rfl

theorem abs_signed (s : Sign) (x : ℚ) : |signed s x| = |x| := by
  cases s with
  | negative => exact abs_neg x
  | positive => rfl

/-- A significand and an exponent as a double has them, except that the exponent has no upper
bound. -/
structure Canonical (m : ℕ) (e : ℤ) : Prop where
  significand_lt : m < 2 ^ 53
  exponent_ge : -1074 ≤ e
  normal : 2 ^ 52 ≤ m ∨ e = -1074

/-- The power of two that comes after all doubles. -/
def overflow : ℚ :=
  2 ^ (1024 : ℤ)

/-- The number that an unpacked float stands for; an infinity stands beyond all doubles. -/
def exactValue : UnpackedFloat → ℚ
  | .notANumber => 0
  | .infinity s => signed s overflow
  | .zero _ => 0
  | .finite s m e _ => signed s (m * 2 ^ e)

/-- An unpacked float is the rounded value of a rational number, in canonical form. -/
inductive RoundsTo : UnpackedFloat → ℚ → Prop where
  | zero {s : Sign} {x : ℚ} (h : rounded x = 0) : RoundsTo (.zero s) x
  | finite {s : Sign} {m : ℕ} {e : ℤ} {hm : 0 < m} {x : ℚ} (canonical : Canonical m e)
      (h : rounded x = signed s (m * 2 ^ e)) : RoundsTo (.finite s m e hm) x

theorem targetExponent_eq (m : ℕ) (e : ℤ) :
    Format.binary64.targetExponent (totalExponent m e) = max (m.log2 + e - 52) (-1074) := by
  simp only [Format.targetExponent, totalExponent, Format.mantissaBits, Format.minExponent]
  norm_num
  omega

/-- The exponent that a mantissa is shifted to is that of the last place of the number it locates. -/
theorem targetExponent_eq_placeExponent {m : ℕ} {e : ℤ} {x : ℚ} (hx : 0 < x) (hm : ⌊x⌋ = m)
    (h : m ≠ 0 ∨ e ≤ -1022) :
    Format.binary64.targetExponent (totalExponent m e) = placeExponent (x * 2 ^ e) := by
  have hpos : 0 < x * 2 ^ e := mul_pos hx (two_zpow_pos e)
  rw [targetExponent_eq, placeExponent, abs_of_pos hpos]
  have below : (m : ℚ) ≤ x := by exact_mod_cast hm ▸ Int.floor_le x
  have above : x < m + 1 := by exact_mod_cast hm ▸ Int.lt_floor_add_one x
  by_cases hm0 : m = 0
  · subst hm0
    have he := h.resolve_left (by simp)
    have hlog : Int.log 2 (x * 2 ^ e) < e + 1 := by
      refine (Int.lt_zpow_iff_log_lt (by norm_num : 1 < 2) hpos).mp ?_
      push_cast
      rw [two_zpow_add, zpow_one]
      have he' := two_zpow_pos e
      push_cast at above
      nlinarith
    simp only [Nat.log2_zero]
    push_cast
    omega
  · have hlog : Int.log 2 (x * 2 ^ e) = m.log2 + e := by
      have lower : (2 : ℚ) ^ m.log2 ≤ m := by exact_mod_cast Nat.log2_self_le hm0
      have upper : (m : ℚ) + 1 ≤ 2 ^ (m.log2 + 1) := by
        exact_mod_cast Nat.lt_log2_self
      have he' := two_zpow_pos e
      refine le_antisymm (Int.lt_add_one_iff.mp ?_) ?_
      · refine (Int.lt_zpow_iff_log_lt (by norm_num : 1 < 2) hpos).mp ?_
        push_cast
        rw [show (m.log2 : ℤ) + e + 1 = (m.log2 + 1 : ℕ) + e by push_cast; ring, two_zpow_add,
          zpow_natCast]
        have : x < 2 ^ (m.log2 + 1) := above.trans_le upper
        gcongr
      · refine (Int.zpow_le_iff_le_log (by norm_num : 1 < 2) hpos).mp ?_
        push_cast
        rw [two_zpow_add, zpow_natCast]
        have : 2 ^ m.log2 ≤ x := lower.trans below
        gcongr
    rw [hlog]

/-- A mantissa of at most 53 places stays as it is. -/
theorem shiftToTargetExponent_of_lt {m : ℕ} {e : ℤ} (hm : m < 2 ^ 53) (he : -1074 ≤ e) :
    shiftToTargetExponent .binary64 m e .exact = (⟨m, false, false⟩, e) := by
  have hlog : m.log2 ≤ 52 := by
    by_cases hm0 : m = 0
    · simp [hm0]
    · exact Nat.le_of_lt_succ ((Nat.log2_lt hm0).mpr hm)
  have none : (max ((m.log2 : ℤ) + e - 52) (-1074) - e).toNat = 0 := by omega
  simp [shiftToTargetExponent, shiftToExponent, targetExponent_eq, none,
    HShiftRight.hShiftRight, Nat.repeat, ExtendedMantissa.ofMantissaAndAccuracy]

/-- A mantissa that was rounded up to 54 places loses the last one, a zero. -/
theorem shiftToTargetExponent_two_pow {e : ℤ} (he : -1074 ≤ e) :
    shiftToTargetExponent .binary64 (2 ^ 53) e .exact = (⟨2 ^ 52, false, false⟩, e + 1) := by
  have one : (max (((2 ^ 53 : ℕ).log2 : ℤ) + e - 52) (-1074) - e).toNat = 1 := by
    rw [Nat.log2_two_pow]
    omega
  simp only [shiftToTargetExponent, shiftToExponent, targetExponent_eq, one]
  rfl

/-- Rounding a located number gives its significand, or half of that one place higher if it has come
to take 54 places. -/
theorem roundWithAccuracy_roundsTo {s : Sign} {m : ℕ} {e : ℤ} {accuracy : Accuracy} {x : ℚ}
    (hx : 0 < x) (located : Locates (.ofMantissaAndAccuracy m accuracy) x)
    (target : Format.binary64.targetExponent (totalExponent m e) = placeExponent (x * 2 ^ e))
    (le : e ≤ placeExponent (x * 2 ^ e)) :
    RoundsTo (roundWithAccuracy .binary64 s m e accuracy) (signed s (x * 2 ^ e)) := by
  obtain ⟨k, hk⟩ := Int.le.dest le
  have hpos : 0 < x * 2 ^ e := mul_pos hx (two_zpow_pos e)
  have hge := placeExponent_ge (x * 2 ^ e)
  have shifted : x * 2 ^ e / 2 ^ placeExponent (x * 2 ^ e) = x / 2 ^ k := by
    rw [← hk, two_zpow_add, zpow_natCast]
    have he := two_zpow_pos e
    field_simp
  have first : shiftToTargetExponent .binary64 m e accuracy =
      (ExtendedMantissa.ofMantissaAndAccuracy m accuracy >>> k, placeExponent (x * 2 ^ e)) := by
    have amount : (placeExponent (x * 2 ^ e) - e).toNat = k := by omega
    simp only [shiftToTargetExponent, target, shiftToExponent, amount, hk]
  have rounds : significand (x * 2 ^ e) =
      (ExtendedMantissa.ofMantissaAndAccuracy m accuracy >>> k).roundedMantissa := by
    rw [(located.shiftRight k).roundedMantissa, significand, shifted]
  have value : rounded (signed s (x * 2 ^ e)) =
      signed s (significand (x * 2 ^ e) * 2 ^ placeExponent (x * 2 ^ e)) := rounded_signed s _
  have least : 2 ^ 52 ≤ significand (x * 2 ^ e) ∨ placeExponent (x * 2 ^ e) = -1074 := by
    rcases hge.lt_or_eq with hlt | heq
    · exact .inl (le_significand hpos hlt)
    · exact .inr heq.symm
  have most := (le_abs_self _).trans (abs_significand_le (x * 2 ^ e))
  rw [roundWithAccuracy, first]
  dsimp only
  generalize (ExtendedMantissa.ofMantissaAndAccuracy m accuracy >>> k).roundedMantissa = r at rounds
  rw [rounds] at value least most
  rcases (show r ≤ 2 ^ 53 by exact_mod_cast most).lt_or_eq with small | full
  · rw [shiftToTargetExponent_of_lt small hge]
    dsimp only
    split
    next zero =>
      refine .zero ?_
      rw [value, zero]
      cases s <;> simp [signed]
    next => exact .finite ⟨small, hge, by exact_mod_cast least⟩ (by exact_mod_cast value)
  · subst full
    rw [shiftToTargetExponent_two_pow hge]
    refine .finite ⟨by norm_num, by omega, .inl le_rfl⟩ ?_
    rw [value, two_zpow_add]
    congr 1
    push_cast
    ring

/-- A whole multiple of a power of two is rounded as it is given, after its exponent has been brought
down to the last place of a double. -/
theorem round_roundsTo {s : Sign} {m : ℕ} {e : ℤ} (hm : 0 < m) :
    RoundsTo (UnpackedFloat.round .binary64 s m e) (signed s (m * 2 ^ e)) := by
  have hq : (0 : ℚ) < m := by exact_mod_cast hm
  have place := targetExponent_eq_placeExponent (e := e) hq (Int.floor_natCast m) (.inl hm.ne')
  rw [UnpackedFloat.round, place, decreaseExponent]
  dsimp only
  generalize hk : (e - placeExponent (m * 2 ^ e)).toNat = k
  have kept : ((m <<< k : ℕ) : ℚ) * 2 ^ (e - k : ℤ) = m * 2 ^ e := by
    rw [Nat.shiftLeft_eq, show (e : ℤ) = e - k + k by ring, two_zpow_add, zpow_natCast]
    push_cast
    ring_nf
  have hm' : 0 < m <<< k := by
    rw [Nat.shiftLeft_eq]
    positivity
  have hq' : (0 : ℚ) < (m <<< k : ℕ) := by exact_mod_cast hm'
  have rounds := roundWithAccuracy_roundsTo (s := s) (e := e - k) hq' (locates_of_exact (m <<< k))
    (targetExponent_eq_placeExponent hq' (Int.floor_natCast _) (.inl hm'.ne'))
    (by rw [kept]; omega)
  rwa [kept] at rounds

theorem normalize_roundsTo (m e : ℤ) (s : Sign) :
    RoundsTo (UnpackedFloat.normalize .binary64 m e s) (m * 2 ^ e) := by
  unfold UnpackedFloat.normalize
  rcases lt_trichotomy m 0 with neg | zero | pos
  · have hc : compare m 0 = .lt := compare_lt_iff_lt.mpr neg
    rw [hc]
    have hm : 0 < (-m).toNat := by omega
    have rounds := round_roundsTo (s := .negative) (e := e) hm
    have cast : (((-m).toNat : ℕ) : ℚ) = -m := by
      have h : (((-m).toNat : ℕ) : ℤ) = -m := Int.toNat_of_nonneg (by omega)
      exact_mod_cast congrArg (Int.cast : ℤ → ℚ) h
    simpa [signed, cast] using rounds
  · rw [zero]
    exact .zero (by simpa using rounded_zero)
  · have hc : compare m 0 = .gt := compare_gt_iff_gt.mpr pos
    rw [hc]
    have hm : 0 < m.toNat := by omega
    have rounds := round_roundsTo (s := .positive) (e := e) hm
    have cast : ((m.toNat : ℕ) : ℚ) = m := by
      have h : ((m.toNat : ℕ) : ℤ) = m := Int.toNat_of_nonneg pos.le
      exact_mod_cast congrArg (Int.cast : ℤ → ℚ) h
    simpa [signed, cast] using rounds

end LessonPlot
