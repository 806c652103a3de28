import LessonPlot.Proofs.Float.Arithmetic

open Float.Model Float.Model.UnpackedFloat

namespace LessonPlot

section Unpacked

variable {f g : UnpackedFloat}

theorem Packable.representable (h : Packable f) (hf : f.isFinite = true) :
    Representable (exactValue f) := by
  cases h with
  | notANumber | infinity => cases hf
  | zero => exact ⟨0, 0, by norm_num, by norm_num, by simp [exactValue]⟩
  | finite canonical le => exact canonical.representable _

theorem Packable.abs_lt_overflow (h : Packable f) (hf : f.isFinite = true) :
    |exactValue f| < overflow := by
  cases h with
  | notANumber | infinity => cases hf
  | zero =>
    rw [exactValue, abs_zero]
    exact overflow_pos
  | @finite s m e hm canonical le =>
    have hp := two_zpow_pos e
    rw [exactValue, abs_signed, abs_of_nonneg (by positivity)]
    exact canonical.lt_overflow_iff.mpr le

/-- Of two canonical significands the one with the larger exponent is the larger number: it is normal,
for the exponent is not the least one. -/
theorem Canonical.lt_of_exponent_lt {m m' : ℕ} {e e' : ℤ} (h : Canonical m e)
    (h' : Canonical m' e') (lt : e < e') : (m : ℚ) * 2 ^ e < m' * 2 ^ e' := by
  have hge := h.exponent_ge
  have hp := two_zpow_pos e
  have hp' := two_zpow_pos e'
  have hm : (m : ℚ) < 2 ^ 53 := by exact_mod_cast h.significand_lt
  have hm' : (2 : ℚ) ^ 52 ≤ m' := by exact_mod_cast h'.normal.resolve_right (by omega)
  have step : (2 : ℚ) ^ e * 2 ≤ 2 ^ e' := by
    have hle := two_zpow_le (show e + 1 ≤ e' by omega)
    rwa [two_zpow_add, zpow_one] at hle
  calc (m : ℚ) * 2 ^ e < 2 ^ 53 * 2 ^ e := by gcongr
    _ = 2 ^ 52 * (2 ^ e * 2) := by ring
    _ ≤ 2 ^ 52 * 2 ^ e' := by gcongr
    _ ≤ m' * 2 ^ e' := by gcongr

theorem Canonical.compare_eq {m m' : ℕ} {e e' : ℤ} (h : Canonical m e) (h' : Canonical m' e') :
    (compare e e').then (compare m m') = compare ((m : ℚ) * 2 ^ e) (m' * 2 ^ e') := by
  rcases lt_trichotomy e e' with lt | rfl | gt
  · rw [compare_lt_iff_lt.mpr lt, compare_lt_iff_lt.mpr (h.lt_of_exponent_lt h' lt)]
    rfl
  · have hp := two_zpow_pos e
    rw [compare_eq_iff_eq.mpr rfl]
    rcases lt_trichotomy m m' with lt | rfl | gt
    · have hq : (m : ℚ) * 2 ^ e < m' * 2 ^ e := by gcongr
      rw [compare_lt_iff_lt.mpr lt, compare_lt_iff_lt.mpr hq]
      rfl
    · rw [compare_eq_iff_eq.mpr rfl, compare_eq_iff_eq.mpr rfl]
      rfl
    · have hq : (m' : ℚ) * 2 ^ e < m * 2 ^ e := by gcongr
      rw [compare_gt_iff_gt.mpr gt, compare_gt_iff_gt.mpr hq]
      rfl
  · rw [compare_gt_iff_gt.mpr gt, compare_gt_iff_gt.mpr (h'.lt_of_exponent_lt h gt)]
    rfl

theorem compare_neg_neg {β : Type} [AddCommGroup β] [LinearOrder β] [IsOrderedAddMonoid β]
    (x y : β) : compare (-x) (-y) = (compare x y).swap := by
  rcases lt_trichotomy x y with lt | rfl | gt
  · rw [compare_lt_iff_lt.mpr lt, compare_gt_iff_gt.mpr (neg_lt_neg lt)]
    rfl
  · rw [compare_eq_iff_eq.mpr rfl, compare_eq_iff_eq.mpr rfl]
    rfl
  · rw [compare_gt_iff_gt.mpr gt, compare_lt_iff_lt.mpr (neg_lt_neg gt)]
    rfl

theorem compare_of_lt {o : Option Ordering} {x y : ℚ} (h : o = some .lt) (lt : x < y) :
    o = some (compare x y) := by
  rw [h, compare_lt_iff_lt.mpr lt]

theorem compare_of_gt {o : Option Ordering} {x y : ℚ} (h : o = some .gt) (gt : y < x) :
    o = some (compare x y) := by
  rw [h, compare_gt_iff_gt.mpr gt]

/-- Unpacked floats are compared as the numbers that they stand for. -/
theorem compare_eq (hf : Packable f) (hg : Packable g) (number : f.isNaN = false)
    (number' : g.isNaN = false) :
    f.compare g = some (compare (exactValue f) (exactValue g)) := by
  have ho := overflow_pos
  have bounds := hf.abs_lt_overflow
  have bounds' := hg.abs_lt_overflow
  cases hf with
  | notANumber => cases number
  | infinity s =>
    cases hg with
    | notANumber => cases number'
    | infinity s' =>
      cases s <;> cases s'
      · exact congrArg some (compare_eq_iff_eq.mpr rfl).symm
      · exact compare_of_lt rfl (show -overflow < overflow by linarith)
      · exact compare_of_gt rfl (show -overflow < overflow by linarith)
      · exact congrArg some (compare_eq_iff_eq.mpr rfl).symm
    | zero | finite =>
      cases s
      · exact compare_of_lt rfl (abs_lt.mp (bounds' rfl)).1
      · exact compare_of_gt rfl (abs_lt.mp (bounds' rfl)).2
  | zero s =>
    cases hg with
    | notANumber => cases number'
    | infinity s' =>
      cases s'
      · exact compare_of_gt rfl (abs_lt.mp (bounds rfl)).1
      · exact compare_of_lt rfl (abs_lt.mp (bounds rfl)).2
    | zero s' => exact congrArg some (compare_eq_iff_eq.mpr rfl).symm
    | @finite s' m e hm canonical le =>
      have hm' : (0 : ℚ) < m := by exact_mod_cast hm
      have hp := mul_pos hm' (two_zpow_pos e)
      cases s'
      · exact compare_of_gt rfl (neg_neg_of_pos hp)
      · exact compare_of_lt rfl hp
  | @finite s m e hm canonical le =>
    have hm' : (0 : ℚ) < m := by exact_mod_cast hm
    have hp := mul_pos hm' (two_zpow_pos e)
    cases hg with
    | notANumber => cases number'
    | infinity s' =>
      cases s' with
      | negative =>
        have h := (abs_lt.mp (bounds rfl)).1
        cases s <;> exact compare_of_gt rfl h
      | positive =>
        have h := (abs_lt.mp (bounds rfl)).2
        cases s <;> exact compare_of_lt rfl h
    | zero s' =>
      cases s
      · exact compare_of_lt rfl (neg_neg_of_pos hp)
      · exact compare_of_gt rfl hp
    | @finite s' m' e' hm' canonical' le' =>
      have hq : (0 : ℚ) < m' := by exact_mod_cast hm'
      have hp' := mul_pos hq (two_zpow_pos e')
      cases s <;> cases s'
      · simp only [UnpackedFloat.compare, exactValue, signed, compare_neg_neg,
          canonical.compare_eq canonical']
      · exact compare_of_lt rfl ((neg_neg_of_pos hp).trans hp')
      · exact compare_of_gt rfl ((neg_neg_of_pos hp').trans hp)
      · simp only [UnpackedFloat.compare, exactValue, signed, canonical.compare_eq canonical']

/-- What is no number is not compared. -/
theorem number_of_compare_eq_some {o : Ordering} (h : f.compare g = some o) :
    f.isNaN = false ∧ g.isNaN = false := by
  cases f with
  | notANumber => cases h
  | infinity s | zero s | finite s =>
    cases g with
    | notANumber => cases s <;> cases h
    | infinity | zero | finite => exact ⟨rfl, rfl⟩

end Unpacked

section Packed

variable {x y z : Float} {l p q u : ℚ}

theorem representable_valueOf (h : x.isFinite = true) : Representable (valueOf x) :=
  (packable_unpack _).representable h

theorem abs_valueOf_lt (h : x.isFinite = true) : |valueOf x| < overflow :=
  (packable_unpack _).abs_lt_overflow h

theorem Denotes.representable (h : Denotes x q) : Representable q :=
  h.value ▸ representable_valueOf h.isFinite

/-- A result between two doubles is finite. -/
theorem Rounds.between (hz : Rounds z q) (hx : Denotes x l) (hy : Denotes y u) (low : l ≤ q)
    (high : q ≤ u) : Denotes z (rounded q) := by
  have low' := le_rounded hx.representable low
  have high' := rounded_le hy.representable high
  obtain ⟨hx, rfl⟩ := hx
  obtain ⟨hy, rfl⟩ := hy
  have hx' := (abs_lt.mp (abs_valueOf_lt hx)).1
  have hy' := (abs_lt.mp (abs_valueOf_lt hy)).2
  exact hz.denotes (hz.isFinite_iff.mpr (abs_lt.mpr ⟨hx'.trans_le low', high'.trans_lt hy'⟩))

theorem isNaN_of_isFinite (h : x.isFinite = true) : x.isNaN = false := by
  change x.toModel.unpack.isFinite = true at h
  change x.toModel.unpack.isNaN = false
  cases hx : x.toModel.unpack with
  | notANumber =>
    rw [hx] at h
    cases h
  | infinity | zero | finite => rfl

/-- A double within the bounds is no infinity. -/
theorem isFinite_of_abs_lt (number : x.isNaN = false) (h : |valueOf x| < overflow) :
    x.isFinite = true := by
  change x.toModel.unpack.isNaN = false at number
  change x.toModel.unpack.isFinite = true
  unfold valueOf at h
  cases hx : x.toModel.unpack with
  | notANumber =>
    rw [hx] at number
    cases number
  | infinity s =>
    rw [hx, exactValue, abs_signed, abs_of_pos overflow_pos] at h
    exact (lt_irrefl _ h).elim
  | zero | finite => rfl

theorem compare_toModel (hx : x.isNaN = false) (hy : y.isNaN = false) :
    x.toModel.compare y.toModel = some (compare (valueOf x) (valueOf y)) :=
  compare_eq (packable_unpack _) (packable_unpack _) hx hy

theorem le_iff (hx : x.isNaN = false) (hy : y.isNaN = false) : x ≤ y ↔ valueOf x ≤ valueOf y := by
  change decide ((x.toModel.compare y.toModel).any (·.isLE) = true) = true ↔ _
  rw [decide_eq_true_eq, compare_toModel hx hy, Option.any_some, Ordering.isLE_iff_ne_gt,
    compare_gt_iff_gt, not_lt]

theorem lt_iff (hx : x.isNaN = false) (hy : y.isNaN = false) : x < y ↔ valueOf x < valueOf y := by
  change decide ((x.toModel.compare y.toModel == some .lt) = true) = true ↔ _
  rw [decide_eq_true_eq, compare_toModel hx hy, beq_iff_eq, Option.some_inj, compare_lt_iff_lt]

theorem beq_iff (hx : x.isNaN = false) (hy : y.isNaN = false) :
    (x == y) = true ↔ valueOf x = valueOf y := by
  change (x.toModel.compare y.toModel == some .eq) = true ↔ _
  rw [compare_toModel hx hy, beq_iff_eq, Option.some_inj, compare_eq_iff_eq]

theorem Denotes.isNaN (h : Denotes x q) : x.isNaN = false :=
  isNaN_of_isFinite h.isFinite

theorem Denotes.le_iff (hx : Denotes x p) (hy : Denotes y q) : x ≤ y ↔ p ≤ q := by
  rw [LessonPlot.le_iff hx.isNaN hy.isNaN, hx.value, hy.value]

theorem Denotes.beq_iff (hx : Denotes x p) (hy : Denotes y q) : (x == y) = true ↔ p = q := by
  rw [LessonPlot.beq_iff hx.isNaN hy.isNaN, hx.value, hy.value]

theorem denotes_zero : Denotes 0 0 :=
  denotes_ofNat (n := 0) (by decide)

theorem denotes_one : Denotes 1 1 := by
  have h := denotes_ofNat (n := 1) (by decide)
  rwa [Nat.cast_one] at h

theorem isNaN_of_compare {o : Ordering} (h : x.toModel.compare y.toModel = some o) :
    x.isNaN = false ∧ y.isNaN = false :=
  number_of_compare_eq_some h

theorem isNaN_of_le (h : x ≤ y) : x.isNaN = false ∧ y.isNaN = false := by
  change decide ((x.toModel.compare y.toModel).any (·.isLE) = true) = true at h
  rw [decide_eq_true_eq, Option.any_eq_true] at h
  obtain ⟨o, ho, -⟩ := h
  exact isNaN_of_compare ho

theorem isNaN_of_beq (h : (x == y) = true) : x.isNaN = false ∧ y.isNaN = false := by
  change (x.toModel.compare y.toModel == some .eq) = true at h
  exact isNaN_of_compare (beq_iff_eq.mp h)

end Packed

end LessonPlot
