import LessonPlot.Configuration.Read
import LessonPlot.Proofs.Evaluation.Refinement
import LessonPlot.Proofs.Expression.Numerals
import LessonPlot.Proofs.Float.Shortest

open LessonPlot.Json

namespace LessonPlot

section Displayed

variable {v : Float} {y : Binary} {d : Decimal}

theorem plainText_of_value (written : Scalar.value v = .finite y) : plainText v =
    String.ofList (signText y.negative ++ joinPoint (shortest Float .up y).positional) := by
  rw [plainText, written]

/-- The digits of a double without an exponent are far from the limit. -/
theorem Displays.length_lt (h : Displays d y) : (joinPoint d.positional).length < maxBytes := by
  have count : digitCount d.coefficient ≤ 18 :=
    (digitCount_le_iff (by decide)).mpr (h.coefficient_le.trans_lt (by decide))
  have low := h.exponent_ge
  have high := h.exponent_le
  have digits := d.positional_length
  have point : (joinPoint d.positional).length ≤
      d.positional.1.length + d.positional.2.length + 1 := length_joinPoint_le
  unfold maxBytes
  omega

/-- The digits on both sides of the point are read as the double without its sign. -/
theorem Displays.value_literal (h : Displays d y) (canonical : Canonical y.significand y.exponent)
    (le : y.exponent ≤ 971) :
    Scalar.value (Scalar.ofDecimal (.ofPositional d.positional) : Float) =
      .finite { y with negative := false } := by
  have number := d.number_ofPositional
  refine value_ofDecimal (y := { y with negative := false }) canonical le rfl ?_ fun zero => ?_
  · rw [number, h.rounded]
    rfl
  · rw [← Decimal.number_eq_zero_iff, number, Decimal.number_eq_zero_iff]
    exact h.zero zero

theorem signedLiteral_slots (negative : Bool) (w : Float) : (signedLiteral negative w).slots = [] := by
  cases negative <;> rfl

/-- A minus before the digits gives the double its sign back, also to a zero. -/
theorem signedLiteral_valueAt {w : Float} (written : Scalar.value v = .finite y)
    (unsigned : Scalar.value w = .finite { y with negative := false }) (row : Nat → Float) :
    (signedLiteral y.negative w).valueAt row = v := by
  apply eq_of_value
  rw [written]
  cases sign : y.negative with
  | false =>
    rw [← sign] at unsigned
    exact unsigned
  | true =>
    have negated := value_neg unsigned
    rw [Bool.not_false, ← sign] at negated
    exact negated

end Displayed

/-- A bare number stands for an expression that is the number in every scope and in every row. -/
theorem bare_number_evaluates {number : JsonNumber} (finite : number.toFloat.isFinite = true) :
    ∃ e : RealExpression Float,
      asExpression (.number number) = some (plainText number.toFloat) ∧
      checkLimits (plainText number.toFloat) = .ok () ∧
      (∀ scope : Scope, scope.compile (plainText number.toFloat) = .ok e) ∧ e.slots = [] ∧
      ∀ n pool columns, Registers.Reachable n pool → (∀ column ∈ columns, column.length = n) →
        ∃ pool', e.evaluate columns pool = .ok (List.replicate n number.toFloat, pool') := by
  obtain ⟨y, written⟩ := exists_value finite
  obtain ⟨canonical, le⟩ := canonical_of_value written
  have displays := shortest_displays canonical le .up
  generalize hd : shortest Float .up y = d at displays
  obtain ⟨digits, all⟩ := digits_positional d
  have text := plainText_of_value written
  rw [hd] at text
  have unsigned := displays.value_literal canonical le
  have value := signedLiteral_valueAt written unsigned
  have slots := signedLiteral_slots y.negative (Scalar.ofDecimal (.ofPositional d.positional))
  refine ⟨_, rfl, ?_, fun scope => ?_, slots, fun n pool columns reachable lengths => ?_⟩
  · rw [text]
    exact checkLimits_signed _ (isPlain_joinPoint digits all) displays.length_lt
  · rw [text]
    exact compile_signed _ digits all displays.length_lt scope
  · have covered : ∀ index ∈ (signedLiteral y.negative
        (Scalar.ofDecimal (.ofPositional d.positional) : Float)).slots, index < columns.length := by
      rw [slots]
      nofun
    obtain ⟨pool', evaluates, -⟩ :=
      RealExpression.evaluate_of_clean reachable.clean lengths _ covered
    refine ⟨pool', evaluates.trans ?_⟩
    simp only [RealExpression.lanes, value, List.map_const', List.length_range]

theorem bare_number_evaluates_negative :
    let number : JsonNumber := .real (-2.5)
    number.toFloat.isFinite = true ∧ asExpression (.number number) = some "-2.5" ∧
      ∃ e : RealExpression Float, (∀ scope : Scope, scope.compile "-2.5" = .ok e) ∧ e.slots = [] ∧
        ∃ pool', e.evaluate [[1, 4]] (.new 2) = .ok (List.replicate 2 (-2.5), pool') := by
  intro number
  have finite : number.toFloat.isFinite = true := by decide +kernel
  have text : plainText number.toFloat = "-2.5" := by decide +kernel
  obtain ⟨e, stored, -, compiles, slots, evaluates⟩ := bare_number_evaluates finite
  rw [text] at stored compiles
  exact ⟨finite, stored, e, compiles, slots, evaluates 2 _ _ .new (by simp)⟩

end LessonPlot
