import LessonPlot.Proofs.Float.Error
import LessonPlot.Proofs.Float.Order
import LessonPlot.Scalar

open Float.Model Float.Model.UnpackedFloat

namespace LessonPlot

/-- What an unpacked float is written with: a sign, a whole number and an exponent of two. -/
def written : UnpackedFloat → FloatValue
  | .notANumber => .notANumber
  | .infinity s => .infinite (s == .negative)
  | .zero s => .finite ⟨s == .negative, 0, -1074⟩
  | .finite s m e _ => .finite ⟨s == .negative, m, e⟩

theorem toNat_unpackMantissa (b : BitVec (Format.numBits .binary64)) :
    (unpackMantissa b).toNat = b.toNat % 2 ^ 52 := by
  change (BitVec.cast _ (BitVec.extractLsb (52 - 1) 0 b)).toNat = _
  simp

theorem toNat_unpackExponent (b : BitVec (Format.numBits .binary64)) :
    (unpackExponent b).toNat = b.toNat / 2 ^ 52 % 2 ^ 11 := by
  change (BitVec.cast _ (BitVec.extractLsb (52 + 11 - 1) 52 b)).toNat = _
  simp [Nat.shiftRight_eq_div_pow]

theorem toNat_unpackSign (b : BitVec (Format.numBits .binary64)) :
    (unpackSign b).toNat = b.toNat / 2 ^ 63 % 2 := by
  change (BitVec.cast _ (BitVec.extractLsb (52 + 11) (52 + 11) b)).toNat = _
  simp [Nat.shiftRight_eq_div_pow]

theorem sign_ofBitVec (v : BitVec 1) :
    (Sign.ofBitVec v == .negative) = decide (v.toNat = 1) := by
  revert v
  decide

theorem written_ofParts (s : Sign) (e : BitVec 11) (m : BitVec 52) :
    written (ofParts s e m) =
      if e.toNat = 2047 then if m.toNat = 0 then .infinite (s == .negative) else .notANumber
      else if e.toNat = 0 then .finite ⟨s == .negative, m.toNat, -1074⟩
      else .finite ⟨s == .negative, 2 ^ 52 + m.toNat, e.toNat - 1075⟩ := by
  have all : e = -1#11 ↔ e.toNat = 2047 := BitVec.toNat_inj.symm
  have none : e = 0#11 ↔ e.toNat = 0 := BitVec.toNat_inj.symm
  have whole : m = 0#52 ↔ m.toNat = 0 := BitVec.toNat_inj.symm
  simp only [ofParts, all, none, whole]
  by_cases special : e.toNat = 2047
  · rw [if_pos special, if_pos special]
    split <;> rfl
  · rw [if_neg special, if_neg special]
    by_cases subnormal : e.toNat = 0
    · rw [if_pos subnormal, if_pos subnormal]
      split
      next zero => rw [zero]; rfl
      next => rfl
    · rw [if_neg subnormal, if_neg subnormal]
      rfl

/-- A bit pattern is read by its fields. -/
theorem ofBits_eq_written (b : BitVec (Format.numBits .binary64)) :
    FloatValue.ofBits 52 11 b.toNat = written (UnpackedFloat.unpack .binary64 b) := by
  have least : (2 : ℤ) - (2 ^ (11 - 1) : ℕ) - (52 : ℕ) = -1074 := by norm_num
  have place (biased : ℕ) : (-1074 : ℤ) + (biased - 1) = biased - 1075 := by ring
  rw [unpack_eq_ofParts, written_ofParts, sign_ofBitVec, toNat_unpackExponent,
    toNat_unpackMantissa, toNat_unpackSign]
  simp only [FloatValue.ofBits, Nat.pow_eq, least, place]

theorem value_eq_written (x : Float) : Scalar.value x = written x.toModel.unpack :=
  ofBits_eq_written x.toBits.toBitVec

namespace Binary

def sign (y : Binary) : Sign :=
  if y.negative then .negative else .positive

/-- The number that is written with a sign, a whole number and an exponent of two. -/
def number (y : Binary) : ℚ :=
  signed y.sign (y.significand * 2 ^ y.exponent)

/-- The number without its sign. -/
def size (y : Binary) : ℚ :=
  y.significand * 2 ^ y.exponent

theorem size_nonneg (y : Binary) : 0 ≤ y.size :=
  mul_nonneg (Nat.cast_nonneg _) (two_zpow_pos _).le

theorem size_eq_zero_iff {y : Binary} : y.size = 0 ↔ y.significand = 0 := by
  rw [size, mul_eq_zero, or_iff_left (two_zpow_pos y.exponent).ne', Nat.cast_eq_zero]

theorem number_eq (y : Binary) : y.number = signed y.sign y.size :=
  rfl

theorem number_of_positive {y : Binary} (h : y.negative = false) : y.number = y.size := by
  rw [number_eq, sign, h]
  rfl

theorem unpacked_eq (y : Binary) : y.unpacked .binary64 =
    if y.significand = 0 then .zero y.sign else .round .binary64 y.sign y.significand y.exponent :=
  rfl

theorem number_of_significand_eq_zero {y : Binary} (h : y.significand = 0) : y.number = 0 := by
  rw [number, h, Nat.cast_zero, zero_mul]
  cases y.sign <;> simp [signed]

theorem number_ne_zero {y : Binary} (h : y.significand ≠ 0) : y.number ≠ 0 := by
  rw [number, ← abs_pos, abs_signed, abs_pos]
  exact mul_ne_zero (by exact_mod_cast h) (two_zpow_pos y.exponent).ne'

/-- Writing a number as a double rounds it. -/
theorem rounds_ofBinary (y : Binary) : Rounds (Scalar.ofBinary y) y.number := by
  refine RoundsTo.rounds ?_
  rw [unpacked_eq]
  split
  next zero => exact .zero (by rw [number_of_significand_eq_zero zero, rounded_zero])
  next nonzero => exact round_roundsTo (Nat.pos_of_ne_zero nonzero)

end Binary

section Written

variable {f g : UnpackedFloat} {y : Binary}

theorem sign_eq (s : Sign) (m : ℕ) (e : ℤ) : Binary.sign ⟨s == .negative, m, e⟩ = s := by
  cases s <;> rfl

/-- A finite float is written as the number that it is, with a minus sign only if it is negative or
the negative zero. -/
theorem Packable.written_finite (h : Packable f) (hw : written f = .finite y) :
    f.isFinite = true ∧ y.number = exactValue f ∧ y.significand < 2 ^ 53 ∧ -1074 ≤ y.exponent ∧
      (0 ≤ exactValue f → f ≠ .zero .negative → y.negative = false) := by
  cases h with
  | notANumber | infinity => cases hw
  | zero s =>
    cases hw
    refine ⟨rfl, Binary.number_of_significand_eq_zero rfl, by norm_num, le_rfl, fun _ plain => ?_⟩
    cases s with
    | negative => exact (plain rfl).elim
    | positive => rfl
  | @finite s m e hm canonical le =>
    cases hw
    have hm' : (0 : ℚ) < m := by exact_mod_cast hm
    have hp := mul_pos hm' (two_zpow_pos e)
    refine ⟨rfl, ?_, canonical.significand_lt, canonical.exponent_ge, fun nonneg _ => ?_⟩
    · rw [Binary.number, sign_eq]
      rfl
    · cases s with
      | negative => exact (nonneg.not_gt (neg_neg_of_pos hp)).elim
      | positive => rfl

theorem Canonical.unique {m m' : ℕ} {e e' : ℤ} (h : Canonical m e) (h' : Canonical m' e')
    (same : (m : ℚ) * 2 ^ e = m' * 2 ^ e') : m = m' ∧ e = e' := by
  have order := h.compare_eq h'
  rw [compare_eq_iff_eq.mpr same, Ordering.then_eq_eq, compare_eq_iff_eq, compare_eq_iff_eq] at order
  exact ⟨order.2, order.1⟩

theorem exactValue_finite_pos {m : ℕ} {e : ℤ} (hm : 0 < m) :
    0 < exactValue (.finite .positive m e hm) :=
  mul_pos (by exact_mod_cast hm) (two_zpow_pos e)

theorem exactValue_finite_neg {m : ℕ} {e : ℤ} (hm : 0 < m) :
    exactValue (.finite .negative m e hm) < 0 :=
  neg_neg_of_pos (exactValue_finite_pos hm)

/-- Every number but zero is one float only. -/
theorem Packable.unique (hf : Packable f) (hg : Packable g) (finite : f.isFinite = true)
    (finite' : g.isFinite = true) (plain : f ≠ .zero .negative) (plain' : g ≠ .zero .negative)
    (same : exactValue f = exactValue g) : f = g := by
  cases hf with
  | notANumber | infinity => cases finite
  | zero s =>
    cases hg with
    | notANumber | infinity => cases finite'
    | zero s' =>
      cases s <;> cases s' <;> first | rfl | exact (plain rfl).elim | exact (plain' rfl).elim
    | @finite s' m' e' hm' canonical' le' =>
      cases s'
      · exact ((exactValue_finite_neg hm').ne same.symm).elim
      · exact ((exactValue_finite_pos hm').ne same).elim
  | @finite s m e hm canonical le =>
    cases hg with
    | notANumber | infinity => cases finite'
    | zero s' =>
      cases s
      · exact ((exactValue_finite_neg hm).ne same).elim
      · exact ((exactValue_finite_pos hm).ne same.symm).elim
    | @finite s' m' e' hm' canonical' le' =>
      have sizes : (m : ℚ) * 2 ^ e = m' * 2 ^ e' → m = m' ∧ e = e' := canonical.unique canonical'
      cases s <;> cases s'
      · obtain ⟨rfl, rfl⟩ := sizes (neg_injective same)
        rfl
      · exact (((exactValue_finite_neg hm).trans (exactValue_finite_pos hm')).ne same).elim
      · exact (((exactValue_finite_neg hm').trans (exactValue_finite_pos hm)).ne same.symm).elim
      · obtain ⟨rfl, rfl⟩ := sizes same
        rfl

end Written

/-- A double that is not the negative zero. -/
def Plain (x : Float) : Prop :=
  x.toModel.unpack ≠ .zero .negative

variable {x y : Float} {q : ℚ}

theorem plain_of_ne_zero (h : valueOf x ≠ 0) : Plain x := by
  intro zero
  rw [valueOf, zero] at h
  exact h rfl

theorem Binary.plain_ofBinary {y : Binary} (positive : y.negative = false)
    (exact : Denotes (Scalar.ofBinary y) y.number) : Plain (Scalar.ofBinary y) := by
  by_cases zero : y.significand = 0
  · have unpacked : y.unpacked .binary64 = .zero .positive := by
      rw [unpacked_eq, if_pos zero, sign, positive]
      rfl
    change (Float.Model.pack (y.unpacked .binary64)).unpack ≠ _
    rw [unpacked, unpack_pack (.zero _)]
    nofun
  · refine plain_of_ne_zero ?_
    rw [exact.value]
    exact number_ne_zero zero

theorem value_ne_finite (h : x.isFinite = false) (y : Binary) : Scalar.value x ≠ .finite y := by
  intro hv
  have hw := (value_eq_written x).symm.trans hv
  exact Bool.false_ne_true (h.symm.trans ((packable_unpack _).written_finite hw).1)

theorem Denotes.written (h : Denotes x q) : ∃ y : Binary, Scalar.value x = .finite y ∧
    y.number = q ∧ y.significand < 2 ^ 53 ∧ -1074 ≤ y.exponent ∧
      (0 ≤ q → Plain x → y.negative = false) := by
  obtain ⟨finite, rfl⟩ := h
  have isFinite : x.toModel.unpack.isFinite = true := finite
  obtain ⟨y, hw⟩ : ∃ y, LessonPlot.written x.toModel.unpack = .finite y := by
    cases hu : x.toModel.unpack with
    | notANumber | infinity =>
      rw [hu] at isFinite
      cases isFinite
    | zero | finite => exact ⟨_, rfl⟩
  obtain ⟨-, number, small, place, sign⟩ := (packable_unpack _).written_finite hw
  exact ⟨y, (value_eq_written x).trans hw, number, small, place, sign⟩

theorem eq_of_unpack (h : x.toModel.unpack = y.toModel.unpack) : x = y := by
  obtain ⟨⟨bits, valid⟩⟩ := x
  obtain ⟨⟨bits', valid'⟩⟩ := y
  obtain rfl : bits = bits' := UInt64.toBitVec_inj.mp ((unpack_inj_of_valid valid valid').mp h)
  rfl

/-- Two doubles that are the same number are the same, if neither is the negative zero. -/
theorem Denotes.eq (hx : Denotes x q) (hy : Denotes y q) (plain : Plain x) (plain' : Plain y) :
    x = y :=
  eq_of_unpack ((packable_unpack _).unique (packable_unpack _) hx.isFinite hy.isFinite plain plain'
    (hx.value.trans hy.value.symm))

theorem denotes_ofBinary {r : Binary} (exact : Representable r.number)
    (bound : |r.number| < overflow) : Denotes (Scalar.ofBinary r) r.number := by
  have rounds := r.rounds_ofBinary
  have same := rounded_of_representable exact
  have finite : (Scalar.ofBinary r : Float).isFinite = true := by
    rw [rounds.isFinite_iff, same]
    exact bound
  exact ⟨finite, (rounds.value finite).trans same⟩

section Representation

variable {x : Float} {y : Binary}

theorem exists_value (finite : x.isFinite = true) : ∃ y, Scalar.value x = .finite y := by
  have denotes : Denotes x (valueOf x) := ⟨finite, rfl⟩
  obtain ⟨y, written, -⟩ := denotes.written
  exact ⟨y, written⟩

/-- A finite double is written with a canonical significand and exponent. -/
theorem canonical_of_value (h : Scalar.value x = .finite y) :
    Canonical y.significand y.exponent ∧ y.exponent ≤ 971 := by
  rw [value_eq_written] at h
  have packable := packable_unpack x.toModel
  generalize x.toModel.unpack = f at h packable
  cases packable with
  | notANumber | infinity => cases h
  | zero s =>
    cases h
    exact ⟨⟨by norm_num, le_rfl, .inr rfl⟩, by norm_num⟩
  | finite canonical le =>
    cases h
    exact ⟨canonical, le⟩

theorem Canonical.size_lt (h : Canonical y.significand y.exponent) (le : y.exponent ≤ 971) :
    y.size < overflow :=
  h.lt_overflow_iff.mpr le

theorem exists_packable (canonical : Canonical y.significand y.exponent) (le : y.exponent ≤ 971) :
    ∃ f, Packable f ∧ written f = .finite y := by
  obtain ⟨negative, m, e⟩ := y
  have sign : (Binary.sign ⟨negative, m, e⟩ == .negative) = negative := by
    cases negative <;> rfl
  rcases Nat.eq_zero_or_pos m with rfl | pos
  · obtain rfl : e = -1074 := canonical.normal.resolve_left (by norm_num)
    exact ⟨.zero _, .zero _, by rw [written, sign]⟩
  · exact ⟨.finite _ m e pos, .finite canonical le, by rw [written, sign]⟩

/-- A double that is no negative zero is written as the canonical number that it is. -/
theorem Denotes.value_eq (h : Denotes x y.size) (plain : Plain x)
    (canonical : Canonical y.significand y.exponent) (positive : y.negative = false) :
    Scalar.value x = .finite y := by
  have le : y.exponent ≤ 971 := by
    have small := abs_valueOf_lt h.isFinite
    rw [h.value, abs_of_nonneg y.size_nonneg] at small
    exact canonical.lt_overflow_iff.mp small
  obtain ⟨f, packable, hf⟩ := exists_packable canonical le
  obtain ⟨finite, number, -⟩ := packable.written_finite hf
  have plain' : f ≠ .zero .negative := by
    rintro rfl
    cases hf
    cases positive
  rw [Binary.number_of_positive positive] at number
  rw [value_eq_written, (packable_unpack _).unique packable h.isFinite finite plain plain'
    (h.value.trans number), hf]

theorem sign_injective {s s' : Sign} (h : (s == .negative) = (s' == .negative)) : s = s' := by
  cases s <;> cases s' <;> first | rfl | cases h

theorem written_injective : Function.Injective written := by
  intro f g h
  cases f with
  | notANumber => cases g <;> first | rfl | cases h
  | infinity s =>
    cases g with
    | notANumber | zero | finite => cases h
    | infinity s' => rw [sign_injective (FloatValue.infinite.inj h)]
  | zero s =>
    cases g with
    | notANumber | infinity => cases h
    | zero s' =>
      have parts := Binary.mk.inj (FloatValue.finite.inj h)
      rw [sign_injective parts.1]
    | finite s' m e hm =>
      have parts := Binary.mk.inj (FloatValue.finite.inj h)
      exact (hm.ne parts.2.1).elim
  | finite s m e hm =>
    cases g with
    | notANumber | infinity => cases h
    | zero s' =>
      have parts := Binary.mk.inj (FloatValue.finite.inj h)
      exact (hm.ne' parts.2.1).elim
    | finite s' m' e' hm' =>
      obtain ⟨sign, rfl, rfl⟩ := Binary.mk.inj (FloatValue.finite.inj h)
      rw [sign_injective sign]

/-- Doubles that are written alike are the same. -/
theorem eq_of_value {x' : Float} (h : Scalar.value x = Scalar.value x') :
    x = x' := by
  rw [value_eq_written, value_eq_written] at h
  exact eq_of_unpack (written_injective h)

theorem sign_neg (s : Sign) : (-s == .negative) = !(s == .negative) := by
  cases s <;> rfl

theorem value_neg (h : Scalar.value x = .finite y) :
    Scalar.value (-x) = .finite { y with negative := !y.negative } := by
  rw [value_eq_written] at h ⊢
  have packable := packable_unpack x.toModel
  change written (Float.Model.pack (UnpackedFloat.neg x.toModel.unpack)).unpack = _
  generalize x.toModel.unpack = f at h packable
  cases packable with
  | notANumber | infinity => cases h
  | zero s =>
    cases h
    rw [UnpackedFloat.neg, unpack_pack (.zero _)]
    cases s <;> rfl
  | finite canonical le =>
    cases h
    rw [UnpackedFloat.neg, unpack_pack (.finite canonical le), written, sign_neg]

end Representation

section Sum

variable {x : Float} {v : ℚ} {k : ℕ}

/-- How far the largest doubles are apart. -/
def coarsest : ℚ :=
  2 ^ (971 : ℤ)

theorem overflow_eq : overflow = 2 ^ 53 * coarsest :=
  two_zpow_add 53 971

theorem le_coarsest : 2 ^ 60 ≤ coarsest :=
  (zpow_natCast 2 60).symm.trans_le (two_zpow_le (by decide))

theorem Denotes.le_largest (hx : Denotes x v) (large : 2 ^ 52 * coarsest ≤ v) :
    v ≤ (2 ^ 53 - 1) * coarsest := by
  have limit := abs_valueOf_lt hx.isFinite
  rw [hx.value, abs_lt, overflow_eq] at limit
  obtain ⟨j, hj⟩ : ∃ j : ℤ, v = j * coarsest :=
    hx.representable.exists_eq_mul (le_placeExponent (large.trans (le_abs_self v)))
  have unit := le_coarsest
  have below : (j : ℚ) < 2 ^ 53 := by
    refine lt_of_mul_lt_mul_right ?_ (show 0 ≤ coarsest by linarith)
    rw [← hj]
    exact limit.2
  have last : j ≤ 2 ^ 53 - 1 := Int.le_sub_one_of_lt (by exact_mod_cast below)
  have last' : (j : ℚ) ≤ 2 ^ 53 - 1 := by exact_mod_cast last
  rw [hj]
  gcongr

/-- What is less than the places of the largest doubles does not lead beyond them. -/
theorem Denotes.rounded_add_lt_overflow (hx : Denotes x v) (small : k < 2 ^ 53) :
    |rounded (v + k)| < overflow := by
  have limits := abs_valueOf_lt hx.isFinite
  rw [hx.value, abs_lt] at limits
  have nonneg : (0 : ℚ) ≤ k := Nat.cast_nonneg k
  have small' : (k : ℚ) < 2 ^ 53 := by exact_mod_cast small
  have below := le_rounded hx.representable (show v ≤ v + k by linarith)
  have unit := le_coarsest
  refine abs_lt.mpr ⟨by linarith, ?_⟩
  rw [overflow_eq] at limits ⊢
  rcases lt_or_ge v (2 ^ 52 * coarsest) with far | near
  · have middle : Representable ((3 * 2 ^ 51 : ℤ) * coarsest) :=
      ⟨_, 971, by norm_num, by norm_num, rfl⟩
    push_cast at middle
    have above := rounded_le middle (show v + k ≤ _ by linarith)
    linarith
  · have largest := hx.le_largest near
    have place : placeExponent (v + k) ≤ 971 := by
      refine placeExponent_le (by linarith) (by norm_num) ?_
      rw [abs_of_pos (by linarith)]
      exact (show v + k < 2 ^ 53 * coarsest by linarith)
    have error := (abs_le.mp (abs_rounded_sub_le (v + k))).2
    have half : (2 : ℚ) ^ placeExponent (v + k) ≤ coarsest := two_zpow_le place
    linarith

theorem Denotes.add_natCast (hx : Denotes x v) (small : k < 2 ^ 53) :
    Denotes (x + Float.ofNat k) (rounded (v + k)) := by
  have rounds := hx.add (denotes_ofNat small)
  exact rounds.denotes (rounds.isFinite_iff.mpr (hx.rounded_add_lt_overflow small))

/-- A sum with zero is never the negative zero. -/
theorem plain_add_zero (x : Float) : Plain (x + Float.ofNat 0) := by
  have zero : (Float.ofNat 0).toModel.unpack = .zero .positive := by rfl
  have packable := packable_unpack x.toModel
  change (Float.Model.pack (UnpackedFloat.add .binary64 x.toModel.unpack
    (Float.ofNat 0).toModel.unpack)).unpack ≠ _
  rw [zero]
  have kept {f : UnpackedFloat} (hf : Packable f) (plain : f ≠ .zero .negative) :
      (Float.Model.pack f).unpack ≠ .zero .negative := by
    rwa [unpack_pack hf]
  cases hx : x.toModel.unpack with
  | notANumber => exact kept .notANumber nofun
  | infinity s => exact kept (.infinity s) nofun
  | zero s => cases s <;> exact kept (.zero .positive) nofun
  | finite s m e hm =>
    rw [hx] at packable
    exact kept packable nofun

end Sum

end LessonPlot
