import LessonPlot.Proofs.Float.Values
import Mathlib.Data.Prod.Lex

open Float.Model Float.Model.UnpackedFloat

namespace LessonPlot

/-- What comparing asks of a scalar: its numbers are linearly ordered, and only zeros may be different
and equal. -/
class LawfulScalar (α : Type) [Scalar α] : Prop where
  isNaN_notANumber : Scalar.isNaN (Scalar.notANumber : α) = true
  eq_of_isNaN {x y : α} : Scalar.isNaN x = true → Scalar.isNaN y = true → x = y
  lessEqual_total {x y : α} : Scalar.isNaN x = false → Scalar.isNaN y = false →
    Scalar.lessEqual x y = true ∨ Scalar.lessEqual y x = true
  lessEqual_trans {x y z : α} : Scalar.lessEqual x y = true → Scalar.lessEqual y z = true →
    Scalar.lessEqual x z = true
  less_iff {x y : α} : Scalar.isNaN x = false → Scalar.isNaN y = false →
    (Scalar.less x y = true ↔ ¬Scalar.lessEqual y x = true)
  equal_iff {x y : α} :
    Scalar.equal x y = true ↔ Scalar.lessEqual x y = true ∧ Scalar.lessEqual y x = true
  eq_or_zero {x y : α} : Scalar.equal x y = true →
    x = y ∨ Scalar.equal x Scalar.zero = true ∧ Scalar.equal y Scalar.zero = true

section Unpacked

variable {f g h : UnpackedFloat}

/-- Where a float stands among the numbers: by its kind, then its exponent, then its significand. -/
def rank : UnpackedFloat → ℤ ×ₗ ℤ ×ₗ ℤ
  | .infinity .negative => toLex (-2, toLex (0, 0))
  | .finite .negative m e _ => toLex (-1, toLex (-e, -m))
  | .zero _ | .notANumber => toLex (0, toLex (0, 0))
  | .finite .positive m e _ => toLex (1, toLex (e, m))
  | .infinity .positive => toLex (2, toLex (0, 0))

theorem compare_toLex (k e m k' e' m' : ℤ) :
    compare (toLex (k, toLex (e, m))) (toLex (k', toLex (e', m'))) =
      (compare k k').then ((compare e e').then (compare m m')) :=
  rfl

theorem compare_natCast (m m' : ℕ) : compare (m : ℤ) (m' : ℤ) = compare m m' := by
  rw [← cmp_eq_compare, ← cmp_eq_compare]
  exact Nat.strictMono_cast.cmp_map_eq m m'

/-- Floats of any format are compared by where they stand. -/
theorem compare_eq_rank (number : f.isNaN = false) (number' : g.isNaN = false) :
    f.compare g = some (compare (rank f) (rank g)) := by
  cases f with
  | notANumber => cases number
  | infinity s | zero s =>
    cases g with
    | notANumber => cases number'
    | infinity s' | zero s' | finite s' => cases s <;> cases s' <;> rfl
  | finite s m e =>
    cases g with
    | notANumber => cases number'
    | infinity s' | zero s' => cases s <;> cases s' <;> rfl
    | finite s' m' e' =>
      cases s <;> cases s'
      · simp only [UnpackedFloat.compare, rank, compare_toLex, compare_neg_neg, compare_natCast,
          Std.ReflCmp.compare_self, Ordering.eq_then, Ordering.swap_then]
      · rfl
      · rfl
      · simp only [UnpackedFloat.compare, rank, compare_toLex, compare_natCast,
          Std.ReflCmp.compare_self, Ordering.eq_then]

theorem isLE_compare_iff : (f.compare g).any (·.isLE) = true ↔
    f.isNaN = false ∧ g.isNaN = false ∧ rank f ≤ rank g := by
  constructor
  · intro h
    rw [Option.any_eq_true] at h
    obtain ⟨o, ho, le⟩ := h
    obtain ⟨number, number'⟩ := number_of_compare_eq_some ho
    rw [compare_eq_rank number number', Option.some_inj] at ho
    rw [← ho, Ordering.isLE_iff_ne_gt, compare_gt_iff_gt, not_lt] at le
    exact ⟨number, number', le⟩
  · rintro ⟨number, number', le⟩
    rwa [compare_eq_rank number number', Option.any_some, Ordering.isLE_iff_ne_gt,
      compare_gt_iff_gt, not_lt]

/-- Numbers that stand in the same place are the same or zeros. -/
theorem eq_or_zero_of_rank_eq (number : f.isNaN = false) (number' : g.isNaN = false)
    (same : rank f = rank g) : f = g ∨ rank f = rank (.zero .positive) := by
  cases f with
  | notANumber => cases number
  | zero s => exact .inr rfl
  | infinity s =>
    cases g with
    | notANumber => cases number'
    | infinity s' => cases s <;> cases s' <;> first | exact .inl rfl | cases same
    | zero s' | finite s' => cases s <;> cases s' <;> cases same
  | finite s m e =>
    cases g with
    | notANumber => cases number'
    | infinity s' | zero s' => cases s <;> cases s' <;> cases same
    | finite s' m' e' =>
      left
      cases s <;> cases s'
      · simp only [rank, toLex_inj, Prod.mk.injEq, neg_inj, Nat.cast_inj, true_and] at same
        obtain ⟨rfl, rfl⟩ := same
        rfl
      · cases same
      · cases same
      · simp only [rank, toLex_inj, Prod.mk.injEq, Nat.cast_inj, true_and] at same
        obtain ⟨rfl, rfl⟩ := same
        rfl

theorem notANumber_unique (none : f.isNaN = true) (none' : g.isNaN = true) : f = g := by
  cases f <;> cases none
  cases g <;> cases none'
  rfl

/-- What a scalar keeps in a float of some format it compares lawfully. -/
theorem LawfulScalar.of_unpack {α : Type} [Scalar α] (unpack : α → UnpackedFloat)
    (injective : Function.Injective unpack)
    (zero : unpack Scalar.zero = .zero .positive) (none : unpack Scalar.notANumber = .notANumber)
    (isNaN : ∀ x, Scalar.isNaN x = (unpack x).isNaN)
    (less : ∀ x y, Scalar.less x y =
      decide (((unpack x).compare (unpack y) == some .lt) = true))
    (lessEqual : ∀ x y, Scalar.lessEqual x y =
      decide (((unpack x).compare (unpack y)).any (·.isLE) = true))
    (equal : ∀ x y, Scalar.equal x y = ((unpack x).compare (unpack y) == some .eq)) :
    LawfulScalar α := by
  have lessEqual_iff (x y : α) : Scalar.lessEqual x y = true ↔
      (unpack x).isNaN = false ∧ (unpack y).isNaN = false ∧ rank (unpack x) ≤ rank (unpack y) := by
    rw [lessEqual, decide_eq_true_eq, isLE_compare_iff]
  have equal_iff {x y : α} : Scalar.equal x y = true ↔
      Scalar.lessEqual x y = true ∧ Scalar.lessEqual y x = true := by
    rw [equal, beq_iff_eq, lessEqual_iff, lessEqual_iff]
    constructor
    · intro h
      obtain ⟨number, number'⟩ := number_of_compare_eq_some h
      rw [compare_eq_rank number number', Option.some_inj, compare_eq_iff_eq] at h
      exact ⟨⟨number, number', h.le⟩, ⟨number', number, h.ge⟩⟩
    · rintro ⟨⟨number, number', le⟩, -, -, ge⟩
      rw [compare_eq_rank number number', compare_eq_iff_eq.mpr (le_antisymm le ge)]
  exact {
    isNaN_notANumber := by
      rw [isNaN, none]
      rfl
    eq_of_isNaN := fun nx ny => by
      rw [isNaN] at nx ny
      exact injective (notANumber_unique nx ny)
    lessEqual_total := fun nx ny => by
      rw [isNaN] at nx ny
      simp only [lessEqual_iff, nx, ny, true_and]
      exact le_total _ _
    lessEqual_trans := fun xy yz => by
      rw [lessEqual_iff] at xy yz ⊢
      exact ⟨xy.1, yz.2.1, xy.2.2.trans yz.2.2⟩
    less_iff := fun nx ny => by
      rw [isNaN] at nx ny
      rw [less, decide_eq_true_eq, beq_iff_eq, compare_eq_rank nx ny, Option.some_inj,
        compare_lt_iff_lt, lessEqual_iff, and_iff_right ny, and_iff_right nx, not_le]
    equal_iff := equal_iff
    eq_or_zero := fun same => by
      simp only [equal_iff, lessEqual_iff, zero] at same ⊢
      obtain ⟨⟨nx, ny, le⟩, -, -, ge⟩ := same
      have place := le_antisymm le ge
      refine (eq_or_zero_of_rank_eq nx ny place).imp (fun h => injective h) fun h => ?_
      have h' := place.symm.trans h
      exact ⟨⟨⟨nx, rfl, h.le⟩, rfl, nx, h.ge⟩, ⟨ny, rfl, h'.le⟩, rfl, ny, h'.ge⟩ }

end Unpacked

theorem eq_of_unpack_float32 {x y : Float32} (h : x.toModel.unpack = y.toModel.unpack) :
    x = y := by
  obtain ⟨⟨bits, valid⟩⟩ := x
  obtain ⟨⟨bits', valid'⟩⟩ := y
  obtain rfl : bits = bits' := UInt32.toBitVec_inj.mp ((unpack_inj_of_valid valid valid').mp h)
  rfl

instance : LawfulScalar Float :=
  .of_unpack (fun x => x.toModel.unpack) (fun _ _ => eq_of_unpack) rfl rfl (fun _ => rfl)
    (fun _ _ => rfl) (fun _ _ => rfl) fun _ _ => rfl

instance : LawfulScalar Float32 :=
  .of_unpack (fun x => x.toModel.unpack) (fun _ _ => eq_of_unpack_float32) rfl rfl (fun _ => rfl)
    (fun _ _ => rfl) (fun _ _ => rfl) fun _ _ => rfl

end LessonPlot
